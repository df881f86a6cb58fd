import Mathlib.Data.Bool.AllAny
import StoryScript.Block.Object
import StoryScript.Json.Writer
import StoryScript.Proofs.Json.Rewriting
import StoryScript.Proofs.Text.Cuts

/-!
# Points that are hidden and shown again

Hiding the points of a strict block hides points of its strings, whatever they are escaped like, and
no decimal point; showing them again in a strict text shows them in its strings. Main statement: a
strict block is read as what it says, in whatever strict text it is restated meanwhile, if nothing
in it looks like a hidden point and no object spells a name in two ways (`Block.parse_of_strict`).
-/

namespace StoryScript

namespace Block

open Json (Spells IsRewriting isTouched)

/-! ## Strings -/

/-- Some points of a string are hidden. -/
inductive Hides : Text → Text → Prop
  | nil : Hides [] []
  | keep (c : Char) {s s' : Text} (h : Hides s s') : Hides (c :: s) (c :: s')
  | hide {s s' : Text} (h : Hides s s') : Hides ('.' :: s) (pathMark ++ s')

/-- The mark of a hidden point, and what becomes the mark when the point behind it is hidden. -/
def lookalikes : List Text := [pathMark, "__dot.", "__dot_."]

def IsUnmarked (t : Text) : Prop := ∀ phrase ∈ lookalikes, ¬ phrase <:+: t

instance (t : Text) : Decidable (IsUnmarked t) :=
  inferInstanceAs (Decidable (∀ phrase ∈ lookalikes, ¬ phrase <:+: t))

theorem exists_of_hides_cons {c : Char} (hc : c ≠ '_') {s s' : Text} (h : Hides s (c :: s')) :
    ∃ u, s = c :: u ∧ Hides u s' := by
  generalize ht : c :: s' = t at h
  cases h with
  | nil => cases ht
  | keep d h =>
    obtain ⟨rfl, rfl⟩ := List.cons.inj ht
    exact ⟨_, rfl, h⟩
  | hide h => exact absurd (List.cons.inj ht).1 hc

theorem cases_of_hides_underscore {s s' : Text} (h : Hides s ('_' :: s')) :
    (∃ u, s = '_' :: u ∧ Hides u s') ∨ ∃ u, s = '.' :: u ∧ s'.head? = some '_' := by
  generalize ht : '_' :: s' = t at h
  cases h with
  | nil => cases ht
  | keep d h =>
    obtain ⟨rfl, rfl⟩ := List.cons.inj ht
    exact .inl ⟨_, rfl, h⟩
  | hide h =>
    obtain ⟨-, rfl⟩ := List.cons.inj ht
    exact .inr ⟨_, rfl, rfl⟩

/-- Where a mark begins behind the hiding, a point was hidden or something like a mark began. -/
theorem cases_of_hides_pathMark {s s' : Text}
    (h : Hides s ('_' :: '_' :: 'd' :: 'o' :: 't' :: '_' :: '_' :: s')) :
    s.head? = some '.' ∨ ∃ phrase ∈ lookalikes, phrase <+: s := by
  rcases cases_of_hides_underscore h with ⟨s₁, rfl, h₁⟩ | ⟨s₁, rfl, -⟩
  case inr => exact .inl rfl
  rcases cases_of_hides_underscore h₁ with ⟨s₂, rfl, h₂⟩ | ⟨s₂, -, hhead⟩
  case inr => cases hhead
  obtain ⟨s₃, rfl, h₃⟩ := exists_of_hides_cons (by decide) h₂
  obtain ⟨s₄, rfl, h₄⟩ := exists_of_hides_cons (by decide) h₃
  obtain ⟨s₅, rfl, h₅⟩ := exists_of_hides_cons (by decide) h₄
  refine .inr ?_
  rcases cases_of_hides_underscore h₅ with ⟨s₆, rfl, h₆⟩ | ⟨s₆, rfl, -⟩
  · rcases cases_of_hides_underscore h₆ with ⟨s₇, rfl, -⟩ | ⟨s₇, rfl, -⟩
    · exact ⟨pathMark, by decide, s₇, rfl⟩
    · exact ⟨"__dot_.".toList, by decide, s₇, rfl⟩
  · exact ⟨"__dot.".toList, by decide, s₆, rfl⟩

theorem showPoints_of_hides {s s' : Text} (h : Hides s s') (hs : IsUnmarked s) :
    showPoints s' = s := by
  induction h with
  | nil => rfl
  | @keep c s s' h ih =>
    have hrest : IsUnmarked s := fun phrase hphrase hin =>
      hs phrase hphrase (hin.trans (List.suffix_cons c s).isInfix)
    have hnone : Text.after? pathMark (c :: s') = none := by
      refine Option.eq_none_iff_forall_ne_some.2 fun u hafter => ?_
      have hmark := Text.eq_append_of_after? hafter
      obtain ⟨rfl, -⟩ := List.cons.inj hmark
      rcases cases_of_hides_pathMark (hmark ▸ Hides.keep '_' h) with hpoint | hlike
      · cases hpoint
      · obtain ⟨phrase, hphrase, hprefix⟩ := hlike
        exact hs phrase hphrase hprefix.isInfix
    rw [showPoints, Text.replace_cons_of_after? _ hnone, ← showPoints, ih hrest]
  | @hide s s' h ih =>
    have hrest : IsUnmarked s := fun phrase hphrase hin =>
      hs phrase hphrase (hin.trans (List.suffix_cons '.' s).isInfix)
    rw [showPoints, Text.replace_append _ (by decide), ← showPoints, ih hrest]
    rfl

/-! ## Hiding in a document -/

theorem hidePoints_cons {c : Char} (hc : c ≠ '.') (t : Text) :
    hidePoints (c :: t) = c :: hidePoints t := by
  rw [hidePoints, if_neg fun h => hc h.1]

theorem hidePoints_point (t : Text) :
    hidePoints ('.' :: t) = '.' :: hidePoints t ∨
      hidePoints ('.' :: t) = pathMark ++ hidePoints t := by
  rw [hidePoints]
  split
  · exact .inr rfl
  · exact .inl rfl

theorem isDigit_of_ascii {d : Char} (h : d.isDigit) : Digit.isDigit d := by
  have hascii : d.toNat < 0x80 := by
    simp only [Char.isDigit, Bool.and_eq_true, decide_eq_true_eq, UInt32.le_iff_toNat_le] at h
    exact Nat.lt_of_le_of_lt h.2 (by decide)
  rw [Digit.isDigit, Digit.value?, if_pos hascii, if_pos h]
  rfl

theorem isRewriting_hidePoints : IsRewriting hidePoints where
  nil := rfl
  other hc t := hidePoints_cons (by rintro rfl; cases hc) t
  decimal {d} hd t := by
    have hdigit : Digit.isDigit d := isDigit_of_ascii hd
    rw [hidePoints, if_neg fun h => by simp [hdigit] at h]
  touched {c} hc t := by
    rcases Json.eq_of_isTouched hc with rfl | rfl
    · rcases hidePoints_point t with h | h
      · exact ⟨_, _, h, rfl⟩
      · exact ⟨_, _, h, rfl⟩
    · exact ⟨_, _, hidePoints_cons (by decide) t, rfl⟩

variable {t s rest : Text}

theorem spells_append_of_plain {allows : Char → Prop} {front : Text}
    (hfront : ∀ c ∈ front, c ≠ '"' ∧ c ≠ '\\' ∧ ¬ c.toNat ≤ 0x1F) (h : Spells allows t s rest) :
    Spells allows (front ++ t) (front ++ s) rest := by
  induction front with
  | nil => exact h
  | cons c front ih =>
    obtain ⟨⟨hmark, hescape, hprintable⟩, hfront⟩ := List.forall_mem_cons.1 hfront
    exact .char hmark hescape hprintable (ih hfront)

/-- Hiding points in a document hides points of its strings. -/
theorem spells_hidePoints (h : Spells (fun _ => True) t s rest) :
    ∃ s', Hides s s' ∧ Spells (fun _ => True) (hidePoints t) s' (hidePoints rest) := by
  have hplain : ∀ c ∈ pathMark, c ≠ '"' ∧ c ≠ '\\' ∧ ¬ c.toNat ≤ 0x1F :=
    List.all_iff_forall_prop.1 (by decide)
  induction h with
  | close rest =>
    rw [hidePoints_cons (by decide)]
    exact ⟨[], .nil, .close _⟩
  | @char c t s rest hmark hescape hprintable _ ih =>
    obtain ⟨s', hhides, hspells⟩ := ih
    have hkept : ∃ s', Hides (c :: s) s' ∧
        Spells (fun _ => True) (c :: hidePoints t) s' (hidePoints rest) :=
      ⟨c :: s', .keep c hhides, .char hmark hescape hprintable hspells⟩
    by_cases hc : c = '.'
    · subst hc
      rcases hidePoints_point t with h | h
      · rwa [h]
      · rw [h]
        exact ⟨pathMark ++ s', .hide hhides, spells_append_of_plain hplain hspells⟩
    · rwa [hidePoints_cons hc]
  | @simple e c t s rest hescape _ ih =>
    obtain ⟨s', hhides, hspells⟩ := ih
    have he : e ≠ '.' := by
      rintro rfl
      cases hescape
    rw [hidePoints_cons (by decide), hidePoints_cons he]
    exact ⟨c :: s', .keep c hhides, .simple hescape hspells⟩
  | @code c t t' s rest hcode _ _ ih =>
    obtain ⟨s', hhides, hspells⟩ := ih
    rw [hidePoints_cons (by decide), hidePoints_cons (by decide)]
    refine ⟨c :: s', .keep c hhides, .code ?_ trivial hspells⟩
    rw [isRewriting_hidePoints.code?, hcode]
    rfl

/-! ## Showing in a document -/

theorem showPoints_cons {c : Char} (hc : c ≠ '_') (t : Text) :
    showPoints (c :: t) = c :: showPoints t :=
  Text.replace_append_of_not_mem (t := [c]) ['.'] (m := '_') rfl (by simpa using Ne.symm hc) t

theorem showPoints_pathMark_append (t : Text) : showPoints (pathMark ++ t) = '.' :: showPoints t :=
  Text.replace_append ['.'] (by decide) t

theorem showPoints_of_after? {c : Char} (h : Text.after? pathMark (c :: t) = none) :
    showPoints (c :: t) = c :: showPoints t := Text.replace_cons_of_after? ['.'] h

theorem isRewriting_showPoints : IsRewriting showPoints where
  nil := rfl
  other hc t := showPoints_cons (by rintro rfl; cases hc) t
  decimal _ t := showPoints_cons (by decide) _
  touched {c} hc t := by
    cases hafter : Text.after? pathMark (c :: t) with
    | none => exact ⟨c, _, showPoints_of_after? hafter, hc⟩
    | some u =>
      rw [Text.eq_append_of_after? hafter]
      exact ⟨'.', _, showPoints_pathMark_append u, rfl⟩

theorem not_mem_of_simpleEscape? {e c : Char} (h : Json.simpleEscape? e = some c) :
    c ∉ pathMark := by
  unfold Json.simpleEscape? at h
  split at h
  · next he =>
    obtain rfl := Option.some.inj h
    simp only [Bool.or_eq_true, decide_eq_true_eq, or_assoc] at he
    rcases he with rfl | rfl | rfl <;> decide
  · repeat' split at h
    all_goals cases h
    all_goals decide

/-- The characters of the mark are spelled by themselves. -/
theorem exists_of_spells_mark {m : Char} (hm : m ∈ pathMark)
    (h : Spells (· ∉ pathMark) (m :: t) s rest) :
    ∃ s', s = m :: s' ∧ Spells (· ∉ pathMark) t s' rest := by
  cases h with
  | close => exact absurd hm (by decide)
  | char _ _ _ hrest => exact ⟨_, rfl, hrest⟩
  | simple => exact absurd hm (by decide)
  | code => exact absurd hm (by decide)

/-- Only the characters of the mark say themselves. -/
theorem exists_of_says_mark {m : Char} (hm : m ∈ pathMark)
    (h : Spells (· ∉ pathMark) t (m :: s) rest) :
    ∃ t', t = m :: t' ∧ Spells (· ∉ pathMark) t' s rest := by
  cases h with
  | char _ _ _ hrest => exact ⟨_, rfl, hrest⟩
  | simple hescape => exact absurd hm (not_mem_of_simpleEscape? hescape)
  | code _ hallows => exact absurd hm hallows

theorem exists_of_spells_append {start : Text} (hstart : ∀ m ∈ start, m ∈ pathMark)
    (h : Spells (· ∉ pathMark) (start ++ t) s rest) :
    ∃ s', s = start ++ s' ∧ Spells (· ∉ pathMark) t s' rest := by
  induction start generalizing s with
  | nil => exact ⟨s, rfl, h⟩
  | cons m start ih =>
    obtain ⟨hm, hstart⟩ := List.forall_mem_cons.1 hstart
    obtain ⟨s', rfl, hnext⟩ := exists_of_spells_mark hm h
    obtain ⟨s'', rfl, hrest⟩ := ih hstart hnext
    exact ⟨s'', rfl, hrest⟩

theorem exists_of_says_append {start : Text} (hstart : ∀ m ∈ start, m ∈ pathMark)
    (h : Spells (· ∉ pathMark) t (start ++ s) rest) : ∃ t', t = start ++ t' := by
  induction start generalizing t with
  | nil => exact ⟨t, rfl⟩
  | cons m start ih =>
    obtain ⟨hm, hstart⟩ := List.forall_mem_cons.1 hstart
    obtain ⟨t', rfl, hnext⟩ := exists_of_says_mark hm h
    obtain ⟨t'', rfl⟩ := ih hstart hnext
    exact ⟨t'', rfl⟩

theorem after?_pathMark_of_spells (h : Spells (· ∉ pathMark) t s rest)
    (hafter : Text.after? pathMark t = none) : Text.after? pathMark s = none := by
  refine Option.eq_none_iff_forall_ne_some.2 fun u hsaid => ?_
  obtain ⟨v, rfl⟩ := exists_of_says_append (fun _ => id) (Text.eq_append_of_after? hsaid ▸ h)
  rw [Text.after?_append] at hafter
  cases hafter

/-- No escape is in the middle of a mark. -/
theorem eq_nil_of_append_eq_escape {start u : Text} (hstart : ∀ m ∈ start, m ∈ pathMark)
    (h : start ++ t = '\\' :: u) : start = [] := by
  cases start with
  | nil => rfl
  | cons m start =>
    obtain ⟨rfl, -⟩ := List.cons.inj h
    exact absurd (hstart _ List.mem_cons_self) (by decide)

/-- Showing points in a document shows points of its strings; in the induction `start` is the part
of a mark that is still to be passed over. -/
theorem spells_showPoints_append (start : Text) (hstart : ∀ m ∈ start, m ∈ pathMark)
    (h : Spells (· ∉ pathMark) (start ++ t) (start ++ s) rest) :
    Spells (fun _ => True) (showPoints t) (showPoints s) (showPoints rest) := by
  generalize ht : start ++ t = t' at h
  generalize hs : start ++ s = s' at h
  induction h generalizing start t s with
  | close rest =>
    obtain ⟨rfl, rfl⟩ := List.append_eq_nil_iff.1 hs
    obtain rfl : t = '"' :: rest := ht
    rw [showPoints_cons (by decide)]
    exact .close _
  | @char c t' s' rest hmark hescape hprintable hrest ih =>
    cases start with
    | cons m start =>
      obtain ⟨-, ht'⟩ := List.cons.inj ht
      obtain ⟨-, hs'⟩ := List.cons.inj hs
      exact ih start (fun m hm => hstart m (List.mem_cons_of_mem _ hm)) ht' hs'
    | nil =>
      obtain rfl : t = c :: t' := ht
      obtain rfl : s = c :: s' := hs
      have hall := Spells.char hmark hescape hprintable hrest
      cases hafter : Text.after? pathMark (c :: t') with
      | none =>
        rw [showPoints_of_after? hafter,
          showPoints_of_after? (after?_pathMark_of_spells hall hafter)]
        exact .char hmark hescape hprintable (ih [] nofun rfl rfl)
      | some u =>
        have ht' := Text.eq_append_of_after? hafter
        obtain ⟨s'', hs', -⟩ := exists_of_spells_append (fun _ => id) (ht' ▸ hall)
        rw [ht', hs', showPoints_pathMark_append, showPoints_pathMark_append]
        refine .char (by decide) (by decide) (by decide) (ih pathMark.tail ?_ ?_ ?_)
        · exact fun m hm => List.mem_of_mem_tail hm
        · exact (List.cons.inj ht').2.symm
        · exact (List.cons.inj hs').2.symm
  | @simple e c t' s' rest hescape hrest ih =>
    obtain rfl := eq_nil_of_append_eq_escape hstart ht
    obtain rfl : t = '\\' :: e :: t' := ht
    obtain rfl : s = c :: s' := hs
    have he : e ≠ '_' := by
      rintro rfl
      cases hescape
    have hc : c ≠ '_' := by
      rintro rfl
      exact not_mem_of_simpleEscape? hescape (by decide)
    rw [showPoints_cons (by decide), showPoints_cons he, showPoints_cons hc]
    exact .simple hescape (ih [] nofun rfl rfl)
  | @code c t' t'' s' rest hcode hallows hrest ih =>
    obtain rfl := eq_nil_of_append_eq_escape hstart ht
    obtain rfl : t = '\\' :: 'u' :: t' := ht
    obtain rfl : s = c :: s' := hs
    have hc : c ≠ '_' := by
      rintro rfl
      exact hallows (by decide)
    rw [showPoints_cons (by decide), showPoints_cons (by decide), showPoints_cons hc]
    refine .code ?_ trivial (ih [] nofun rfl rfl)
    rw [isRewriting_showPoints.code?, hcode]
    rfl

/-! ## Blocks -/

/-- A strict block can be read in whatever strict text it is restated meanwhile, as long as that
does not spell the mark by codes. It is read as what it says if nothing in it looks like the mark
and no two names of an object are the same with their points shown again. -/
theorem parse_of_strict (repair : Repair) {block : Text} {entries : Table Text Value}
    (hstrict : Json.parse block = .ok (.map entries))
    (hrepair : ∀ v, Json.parse (hidePoints block) = .ok v →
      Json.IsDocument (· ∉ pathMark) (repair (hidePoints block)) v) :
    ∃ hidden shown, Json.parse (hidePoints block) = .ok (.map hidden) ∧
      parse repair block = .ok shown ∧
      ((∀ s ∈ (Value.map entries).texts, IsUnmarked s) →
        (∀ part ∈ (Value.map hidden).parts, (part.names.map showPoints).Nodup) →
        shown = entries) := by
  obtain ⟨v, halike, hhidden⟩ := Json.IsDocument.rewrite isRewriting_hidePoints spells_hidePoints
    (Json.parse_eq_ok_iff.1 hstrict)
  obtain ⟨hidden, rfl⟩ := halike.exists_map
  have hhidden := Json.parse_of_isDocument hhidden
  obtain ⟨w, halike', hshown⟩ := Json.IsDocument.rewrite (R := fun s s' => s' = showPoints s)
    isRewriting_showPoints
    (fun h => ⟨_, rfl, spells_showPoints_append [] nofun h⟩) (hrepair _ hhidden)
  obtain ⟨shown, rfl⟩ := halike'.exists_map
  have hshown := Json.parse_of_isDocument hshown
  refine ⟨hidden, shown, hhidden, ?_, fun hunmarked hnames => ?_⟩
  · rw [parse, fix, hshown]
  · have hback := halike.eq_mapTexts (f := showPoints)
      (fun s hs s' hhides => (showPoints_of_hides hhides (hunmarked s hs)).symm) hnames
    have hback' := halike'.flip.eq_mapTexts (f := showPoints) (fun s _ s' heq => heq) hnames
    exact Value.map.inj (hback'.trans hback.symm)

/-- Writes strict JSON anew, as a library does that finds nothing to repair in it. -/
def restated : Repair := fun t =>
  match Json.parse t with
  | .ok v => Json.write v
  | .error _ => t

def caveBlock : Text :=
  "\x7b\"redirect\": \"cave.entrance\", \"volume\": 0.5, \"say\": [\"Hm...\", \"v1.0\"]\x7d"

/-- Points in a path, in a sentence, in a number and in one that is a string. -/
theorem parse_caveBlock :
    ∃ entries, Json.parse caveBlock = .ok (.map entries) ∧ Json.write (.map entries) = caveBlock ∧
      parse restated caveBlock = .ok entries := by
  have hobject : (Json.parse caveBlock).toOption.map Value.names =
      some (["redirect", "volume", "say"] : List Text) := by decide +kernel
  have hwritten : (Json.parse caveBlock).toOption.map Json.write = some caveBlock := by
    decide +kernel
  have htexts : (Json.parse caveBlock).toOption.map (fun v =>
      v.texts.all fun s => decide (IsUnmarked s)) = some true := by decide +kernel
  have hnames : (Json.parse (hidePoints caveBlock)).toOption.map (fun v =>
      v.parts.all fun part => decide (part.names.map showPoints).Nodup) = some true := by
    decide +kernel
  have hrestated : restated (hidePoints caveBlock) = hidePoints caveBlock := by decide +kernel
  have hescape : '\\' ∉ hidePoints caveBlock := by decide +kernel
  obtain ⟨entries, hstrict⟩ : ∃ entries, Json.parse caveBlock = .ok (.map entries) := by
    cases hread : Json.parse caveBlock with
    | error e => rw [hread] at hobject; cases hobject
    | ok v =>
      rw [hread] at hobject
      obtain ⟨entries, rfl⟩ :=
        Value.exists_map_of_names (Option.some.inj hobject ▸ List.cons_ne_nil _ _)
      exact ⟨entries, rfl⟩
  obtain ⟨hidden, shown, hhidden, hshown, hsame⟩ :=
    parse_of_strict restated hstrict fun v hv => by
      rw [hrestated]
      exact Json.isDocument_of_no_escape hv hescape
  rw [hstrict] at hwritten htexts
  rw [hhidden] at hnames
  refine ⟨entries, hstrict, Option.some.inj hwritten, ?_⟩
  rw [hshown, hsame ?_ ?_]
  · exact fun s hs => of_decide_eq_true (List.all_eq_true.1 (Option.some.inj htexts) s hs)
  · exact fun part hpart =>
      of_decide_eq_true (List.all_eq_true.1 (Option.some.inj hnames) part hpart)

/-- A string that is the mark itself is read as a point, one that is like it in front of a point is
read as another one, and of a name that is spelled in two ways another value is read. -/
theorem parse_lookalikes :
    Json.parse "\x7b\"a\": \"__dot__\"\x7d" = .ok (.map [("a", .text "__dot__")]) ∧
      parse restated "\x7b\"a\": \"__dot__\"\x7d" = .ok [("a", .text ".")] ∧
      Json.parse "\x7b\"a\": \"__dot.\"\x7d" = .ok (.map [("a", .text "__dot.")]) ∧
      parse restated "\x7b\"a\": \"__dot.\"\x7d" = .ok [("a", .text ".dot__")] ∧
      Json.parse "\x7b\"a.\": 1, \"a\\u002e\": 2, \"a.\": 3\x7d" = .ok (.map [("a.", .int 3)]) ∧
      parse restated "\x7b\"a.\": 1, \"a\\u002e\": 2, \"a.\": 3\x7d" = .ok [("a.", .int 2)] := by
  refine ⟨?_, ?_, ?_, ?_, ?_, ?_⟩ <;> decide +kernel

end Block

end StoryScript
