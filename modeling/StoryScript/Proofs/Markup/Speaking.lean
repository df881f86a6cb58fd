import Mathlib.Data.List.TakeWhile
import StoryScript.Markup.Speaker

/-!
# Who is speaking

A text is spoken if it begins with a name and a colon. Main statement: what is said is what stands
behind the blanks after the colon, but a line break at its very end is lost, and a speech of several
lines is taken for a text that nobody speaks (`Speaker.split_leading_name`).
-/

namespace StoryScript.Speaker

/-- A name of a speaker: word characters, and at least one. -/
def IsName (name : Text) : Prop := name ≠ [] ∧ ∀ c ∈ name, Letter.isWord c

instance (name : Text) : Decidable (IsName name) :=
  decidable_of_iff (name ≠ [] ∧ name.all Letter.isWord)
    (and_congr_right fun _ => List.all_eq_true)

/-- A text that begins with a name and a colon is parted there. -/
theorem split_append_cons {name : Text} (h : IsName name) (t : Text) :
    split (name ++ ':' :: t) =
      match speech? t with
      | some speech => (some name, speech)
      | none => (none, name ++ ':' :: t) := by
  have hcolon : Letter.isWord ':' = false := by decide
  have htake : (name ++ ':' :: t).takeWhile Letter.isWord = name := by
    rw [List.takeWhile_append_of_pos h.2, List.takeWhile_cons_of_neg (by simp [hcolon]),
      List.append_nil]
  have hdrop : (name ++ ':' :: t).dropWhile Letter.isWord = ':' :: t := by
    rw [List.dropWhile_append_of_pos h.2, List.dropWhile_cons_of_neg (by simp [hcolon])]
  have hempty : name.isEmpty = false := by simpa using h.1
  rw [split, htake, hdrop]
  cases hspeech : speech? t <;> simp [hempty, hspeech]

/-- Only a text that begins with a name and a colon is spoken. -/
theorem split_of_not_leading {t : Text} (h : ¬ ∃ name rest, IsName name ∧ t = name ++ ':' :: rest) :
    split t = (none, t) := by
  unfold split
  split
  · next rest hrest =>
    have hname : t.takeWhile Letter.isWord = [] := by
      by_contra hne
      refine h ⟨_, rest, ⟨hne, fun c hc => List.mem_takeWhile_imp hc⟩, ?_⟩
      rw [← hrest, List.takeWhile_append_dropWhile]
    simp [hname]
  · rfl

/-- A speech on one line is all that stands behind the blanks. -/
theorem speech?_of_not_mem {t : Text} (h : '\n' ∉ t.trimLeft) : speech? t = some t.trimLeft := by
  have hline : ∀ c ∈ t.trimLeft, decide (c ≠ '\n') = true := fun c hc =>
    decide_eq_true (ne_of_mem_of_not_mem hc h)
  rw [speech?, List.takeWhile_eq_self_iff.2 hline, List.dropWhile_eq_nil_iff.2 hline]
  rfl

theorem speech?_of_line {t line rest : Text} (hline : '\n' ∉ line)
    (ht : t.trimLeft = line ++ '\n' :: rest) :
    speech? t = if rest = [] then some line else none := by
  have hinside : ∀ c ∈ line, decide (c ≠ '\n') = true := fun c hc =>
    decide_eq_true (ne_of_mem_of_not_mem hc hline)
  rw [speech?, ht, List.takeWhile_append_of_pos hinside, List.dropWhile_append_of_pos hinside]
  by_cases hrest : rest = [] <;> simp [hrest]

/-- How a text is parted into its speaker and what is said. A text has a speaker only if it begins
with a name and a colon. What is said is then what follows, without the blanks in front of it: the
whole of it if it is one line, and the line if a line break ends it and nothing is behind that. If
anything is, there is no speaker, and the text stays as it is. -/
theorem split_leading_name (t : Text) :
    (∀ name rest : Text, IsName name → t = name ++ ':' :: rest →
      ('\n' ∉ rest.trimLeft → split t = (some name, rest.trimLeft)) ∧
      (∀ line, '\n' ∉ line → rest.trimLeft = line ++ ['\n'] → split t = (some name, line)) ∧
      (∀ line more, more ≠ [] → rest.trimLeft = line ++ '\n' :: more → split t = (none, t))) ∧
    ((¬ ∃ name rest, IsName name ∧ t = name ++ ':' :: rest) → split t = (none, t)) := by
  refine ⟨?_, split_of_not_leading⟩
  rintro name rest hname rfl
  rw [split_append_cons hname]
  refine ⟨fun hline => ?_, fun line hline hrest => ?_, fun line more hmore hrest => ?_⟩
  · rw [speech?_of_not_mem hline]
  · rw [speech?_of_line hline hrest, if_pos rfl]
  · -- The first line break of the speech is the given one or in front of it.
    obtain ⟨first, behind, hfirst, hbehind, hsame⟩ :
        ∃ first behind, '\n' ∉ first ∧ behind ≠ [] ∧
          line ++ '\n' :: more = first ++ '\n' :: behind := by
      by_cases hmem : '\n' ∈ line
      · obtain ⟨first, behind, rfl, hfirst⟩ := List.eq_append_cons_of_mem hmem
        exact ⟨first, behind ++ '\n' :: more, hfirst, by simp, by simp⟩
      · exact ⟨line, more, hmem, hmore, rfl⟩
    rw [speech?_of_line hfirst (hrest.trans hsame), if_neg hbehind]

/-- A blank first line does not matter, and the line break at the end is lost. -/
theorem split_greeting :
    IsName "Ann" ∧ split "Ann:\n \nGood day!\n" = (some "Ann".toList, "Good day!".toList) := by
  have hname : IsName "Ann" := by decide +kernel
  obtain ⟨hspoken, -⟩ := split_leading_name "Ann:\n \nGood day!\n"
  obtain ⟨-, hline, -⟩ := hspoken "Ann" "\n \nGood day!\n" hname rfl
  exact ⟨hname, hline "Good day!" (by decide) (by decide +kernel)⟩

/-- A name and a colon are no speaker in front of two lines. -/
theorem split_two_lines :
    ¬ ∀ name rest : Text, IsName name →
      split (name ++ ':' :: rest) = (some name, rest.trimLeft) := by
  intro hspoken
  have hname : IsName "Ann" := by decide +kernel
  have hnone : (split "Ann: Good day!\nCome in!").1 = none := by decide +kernel
  have hsome : (split "Ann: Good day!\nCome in!").1 = some "Ann".toList :=
    congrArg Prod.fst (hspoken "Ann" " Good day!\nCome in!" hname)
  exact absurd (hsome.symm.trans hnone) nofun

end StoryScript.Speaker
