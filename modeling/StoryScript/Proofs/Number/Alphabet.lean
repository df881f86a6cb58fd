import Mathlib.Data.List.TakeWhile
import StoryScript.Number.Literal

/-!
# The characters of numbers

A numeral is read from left to right, and each part of it takes characters of its own kind off the
front (`Numeral.Takes`). Main statement: in a text that is read as a quantity there is nothing but
blanks, letters of a name, and what numerals and their groups of digits are written with
(`Quantity.mem_of_read?`).
-/

namespace StoryScript

namespace Numeral

def isNumeralChar (c : Char) : Bool := Digit.isDigit c || ['+', '-', '.', 'e', 'E'].contains c

/-- Whether a text is a rest behind characters of numerals. -/
def Takes (t rest : Text) : Prop := ∃ used, t = used ++ rest ∧ ∀ c ∈ used, isNumeralChar c

namespace Takes

variable {t u rest : Text}

theorem refl (t : Text) : Takes t t := ⟨[], rfl, by simp⟩

theorem trans (h : Takes t u) (h' : Takes u rest) : Takes t rest := by
  obtain ⟨used, rfl, hused⟩ := h
  obtain ⟨more, rfl, hmore⟩ := h'
  refine ⟨used ++ more, by simp, fun c hc => ?_⟩
  exact (List.mem_append.1 hc).elim (hused c) (hmore c)

theorem cons {c : Char} (hc : isNumeralChar c) (h : Takes t rest) : Takes (c :: t) rest :=
  trans ⟨[c], rfl, by simpa using hc⟩ h

theorem run (t : Text) : Takes t (Digit.run t).2 := by
  induction t with
  | nil => exact refl []
  | cons c cs ih =>
    unfold Digit.run
    split
    · next d hd => exact cons (by simp [isNumeralChar, Digit.isDigit, hd]) ih
    · exact refl _

theorem readSign (t : Text) : Takes t (readSign t).2 := by
  unfold Numeral.readSign
  split
  · exact cons (by decide) (refl _)
  · exact cons (by decide) (refl _)
  · exact refl _

theorem readExponent (t : Text) : Takes t (readExponent t).2 := by
  unfold Numeral.readExponent
  split
  · next c cs =>
    split
    · next hmark =>
      dsimp only
      split
      · exact refl _
      · next ds rest _ hrun =>
        have hrest := (readSign cs).trans (run _)
        rw [hrun] at hrest
        refine cons ?_ hrest
        rcases Bool.or_eq_true_iff.1 hmark with hc | hc
        · rw [of_decide_eq_true hc]
          rfl
        · rw [of_decide_eq_true hc]
          rfl
    · exact refl _
  · exact refl _

/-- The fraction of a numeral, if a point is there. -/
theorem readFraction (t : Text) :
    Takes t (match t with
      | '.' :: cs => (some (Digit.run cs).1, (Digit.run cs).2)
      | _ => ((none : Option (List Nat)), t)).2 := by
  split
  · exact cons (by decide) (run _)
  · exact refl _

end Takes

theorem takes_readFront {t rest : Text} {n : Numeral} (h : readFront t = some (n, rest)) :
    Takes t rest := by
  have hwhole := (Takes.readSign t).trans (Takes.run _)
  have hfraction := hwhole.trans (Takes.readFraction _)
  have hexponent := hfraction.trans (Takes.readExponent _)
  unfold readFront at h
  dsimp only at h
  rw [Option.ite_none_left_eq_some] at h
  obtain ⟨-, rfl⟩ := Prod.mk.inj (Option.some.inj h.2)
  exact hexponent

theorem mem_of_read? {t : Text} {n : Numeral} (h : read? t = some n) {c : Char} (hc : c ∈ t) :
    isNumeralChar c ∨ c = '\n' := by
  unfold read? at h
  split at h
  · next hfront =>
    obtain ⟨used, rfl, hused⟩ := takes_readFront hfront
    exact .inl (hused c (by simpa using hc))
  · next hfront =>
    obtain ⟨used, rfl, hused⟩ := takes_readFront hfront
    exact (List.mem_append.1 hc).imp (hused c) List.mem_singleton.1
  · cases h

end Numeral

namespace Quantity

theorem mem_of_ungroup {afterDigit : Bool} {t u : Text} (h : ungroup afterDigit t = some u)
    {c : Char} (hc : c ∈ t) : c = '_' ∨ c ∈ u := by
  induction t generalizing afterDigit u with
  | nil => cases hc
  | cons d ds ih =>
    unfold ungroup at h
    split at h
    · next hd =>
      split at h
      · exact (List.mem_cons.1 hc).imp (·.trans hd) id |>.elim .inl (ih h)
      · cases h
    · obtain ⟨v, hv, rfl⟩ := Option.map_eq_some_iff.1 h
      rcases List.mem_cons.1 hc with rfl | hc
      · exact .inr List.mem_cons_self
      · exact (ih hv hc).imp_right (List.mem_cons_of_mem d)

theorem mem_trimmed {t : Text} {c : Char} (hmargin : isMargin c = false) (hc : c ∈ t) :
    c ∈ ((t.dropWhile isMargin).reverse.dropWhile isMargin).reverse := by
  have hdrop {u : Text} (hu : c ∈ u) : c ∈ u.dropWhile isMargin := by
    rw [← List.takeWhile_append_dropWhile (p := isMargin) (l := u)] at hu
    refine (List.mem_append.1 hu).resolve_left fun htake => ?_
    rw [List.mem_takeWhile_imp htake] at hmargin
    cases hmargin
  exact List.mem_reverse.2 (hdrop (List.mem_reverse.2 (hdrop hc)))

/-- Whether quantities are written with a character, blanks aside. -/
def isQuantityChar (c : Char) : Bool :=
  Numeral.isNumeralChar c || c == '_' || "afinty".toList.contains c.toLower

/-- Every character of a quantity is a blank around it or one that quantities are written with. -/
theorem mem_of_read? {t : Text} {x : Binary64} (h : read? t = some x) {c : Char} (hc : c ∈ t) :
    isMargin c ∨ isQuantityChar c := by
  by_cases hmargin : isMargin c
  · exact .inl hmargin
  · have hu := mem_trimmed (by simpa using hmargin) hc
    refine .inr ?_
    rcases read?_cases h with hname | ⟨v, n, hv, hn⟩
    · obtain ⟨used, heq, hused⟩ := Numeral.Takes.readSign
        ((t.dropWhile isMargin).reverse.dropWhile isMargin).reverse
      rw [heq] at hu
      rcases List.mem_append.1 hu with hu | hu
      · simp [isQuantityChar, hused c hu]
      · have hletters : (["inf", "infinity", "nan"] : List Text).all
            (·.all ("afinty".toList.contains ·)) := by decide
        have hletter := List.all_eq_true.1 (List.all_eq_true.1 hletters _ hname) _
          (List.mem_map_of_mem hu)
        exact Bool.or_eq_true_iff.2 (.inr hletter)
    · rcases mem_of_ungroup hv hu with rfl | hv
      · rfl
      · rcases Numeral.mem_of_read? hn hv with hchar | rfl
        · simp [isQuantityChar, hchar]
        · exact absurd rfl hmargin

end Quantity

end StoryScript
