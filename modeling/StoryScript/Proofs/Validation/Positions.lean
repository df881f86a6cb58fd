import Mathlib.Data.List.DropRight
import Mathlib.Data.List.Forall2
import StoryScript.Proofs.Validation.Braces
import StoryScript.Proofs.Validation.Findings

/-!
# Where findings are

A check reads a text of which the code spans are blanked, where every character keeps its place
(`Code.forall₂_blank`). What a finding is about begins at its offset
(`Check.beginsAt_of_mem_found`): a brace, a mark of a reference, or a keyword with its brace; a
chain that is left open is found at the keyword that began it, however often it went on behind its
end (`Check.Standing.BeginsIn`). There is no blank in any of these, so all of it stands in the text
itself too. Main statement: `Validation.issues_point_at_source`.
-/

namespace StoryScript

/-! ## Blanking code spans -/

namespace Code

/-- Whether a character may stand where blanking found another one. -/
def Covers (blanked c : Char) : Prop := blanked = c ∨ blanked = ' ' ∧ c ≠ '\n'

/-- Blanking keeps every character outside code spans, every line break, and every place. -/
theorem forall₂_blank (t : Text) : List.Forall₂ Covers (blank t) t := by
  have hspan (inner : Text) :
      List.Forall₂ Covers (inner.map fun c => if c = '\n' then c else ' ') inner := by
    refine List.forall₂_map_left_iff.2 (List.forall₂_same.2 fun c _ => ?_)
    by_cases hc : c = '\n'
    · exact .inl (if_pos hc)
    · exact .inr ⟨if_neg hc, hc⟩
  have hcuts (cuts : List Cut) : List.Forall₂ Covers
      (Delimiter.replaceSpans
        (fun inner => (delimiter.written inner).map fun c => if c = '\n' then c else ' ') cuts)
      (cuts.flatMap delimiter.writtenCut) := by
    induction cuts with
    | nil => exact .nil
    | cons cut cuts ih =>
      cases cut with
      | plain t => exact List.rel_append (List.forall₂_same.2 fun c _ => .inl rfl) ih
      | span inner => exact List.rel_append (hspan (delimiter.written inner)) ih
  have h := hcuts (delimiter.cut t)
  rwa [delimiter.written_cut (List.cons_ne_nil _ _)] at h

theorem prefix_of_covers {word b t : Text} (hword : ' ' ∉ word) (h : List.Forall₂ Covers b t)
    (hstarts : word <+: b) : word <+: t := by
  induction word generalizing b t with
  | nil => exact List.nil_prefix
  | cons c word ih =>
    obtain ⟨hc, hword⟩ := not_or.1 (mt List.mem_cons.2 hword)
    obtain ⟨rest, rfl⟩ := hstarts
    cases h with
    | cons hcovers h =>
      obtain rfl := hcovers.resolve_right fun hblank => hc hblank.1.symm
      exact List.cons_prefix_cons.2 ⟨rfl, ih hword h (List.prefix_append word rest)⟩

/-- What a blanked text has at a place is in the text too, if no blank is in it. -/
theorem prefix_drop_of_blank {word t : Text} {n : Nat} (hword : ' ' ∉ word)
    (h : word <+: (blank t).drop n) : word <+: t.drop n :=
  prefix_of_covers hword (List.forall₂_drop n (forall₂_blank t)) h

end Code

/-! ## What findings are about -/

namespace Finding

/-- A keyword with its opening brace. -/
def opened (k : Keyword) : Text := k.word ++ ['{']

/-- What a finding is about begins with one of these. -/
def marks : Finding → List Text
  | unmatchedClosing => [['}']]
  | unmatchedOpening | badBlock _ | unregistered .action _ => [['{']]
  | unloadableTemplate .. | malformedPlaceholder _ | unregistered .placeholder _ => [['|']]
  | unusedCondition k _ | emptyCondition k | malformedCondition _ k | malformedCall _ k =>
    [opened k]
  | unregistered .condition _ | orderedText .. => [opened (.opens .ifAll), opened (.opens .ifAny)]
  | strayEnd => [opened .ends]
  | strayElse => [opened (.opens .otherwise)]
  | unterminatedChain =>
    [opened (.opens .ifAll), opened (.opens .ifAny), opened (.opens .otherwise)]

/-- Whether a text begins with what a finding is about. -/
def BeginsAt (f : Finding) (t : Text) : Prop := ∃ mark ∈ f.marks, mark <+: t

/-- Whether a text is something to be seen at its every place. -/
def IsSolid (t : Text) : Prop := t ≠ [] ∧ ∀ c ∈ t, Blank.isBlank c = false

instance (t : Text) : Decidable (IsSolid t) :=
  have := List.decidableBAll (Blank.isBlank · = false) t
  inferInstanceAs (Decidable (t ≠ [] ∧ ∀ c ∈ t, Blank.isBlank c = false))

theorem isSolid_opened (k : Keyword) : IsSolid (opened k) := by
  rcases k with ⟨kind⟩ | _
  · cases kind <;> decide
  · decide

theorem isSolid_of_mem_marks {f : Finding} {mark : Text} (h : mark ∈ f.marks) : IsSolid mark := by
  unfold marks at h
  split at h
  all_goals
    simp only [List.mem_cons, List.not_mem_nil, or_false] at h
  case h_1 | h_2 | h_3 | h_4 | h_5 | h_6 | h_7 =>
    subst h
    decide
  case h_8 | h_9 | h_10 | h_11 | h_14 | h_15 =>
    subst h
    exact isSolid_opened _
  case h_12 | h_13 => rcases h with rfl | rfl <;> exact isSolid_opened _
  case h_16 => rcases h with rfl | rfl | rfl <;> exact isSolid_opened _

theorem IsSolid.blank_not_mem {t : Text} (h : IsSolid t) : ' ' ∉ t :=
  fun hblank => absurd (h.2 ' ' hblank) (by decide)

/-- What a finding is about does not begin with a blank. -/
theorem BeginsAt.exists_cons {f : Finding} {t : Text} (h : f.BeginsAt t) :
    ∃ c rest, t = c :: rest ∧ Blank.isBlank c = false := by
  obtain ⟨mark, hmark, rest, rfl⟩ := h
  obtain ⟨hne, hseen⟩ := isSolid_of_mem_marks hmark
  obtain ⟨c, cs, rfl⟩ := List.exists_cons_of_ne_nil hne
  exact ⟨c, cs ++ rest, rfl, hseen c List.mem_cons_self⟩

end Finding

namespace Check

variable {σ : Type} {e : Engine σ} {t : Text}

/-! ## References -/

theorem beginsAt_of_mem_ofReferences {current : Key} {cuts : List Cut} (front : Text)
    {l : Located} (h : l ∈ ofReferences e current front.length cuts) :
    l.finding.BeginsAt ((front ++ cuts.flatMap placeholderMarks.writtenCut).drop l.offset) := by
  induction cuts generalizing front with
  | nil => cases h
  | cons cut cuts ih =>
    have hbehind {written : Text} (hcut : placeholderMarks.writtenCut cut = written)
        (h : l ∈ ofReferences e current (front.length + written.length) cuts) :
        l.finding.BeginsAt
          ((front ++ (cut :: cuts).flatMap placeholderMarks.writtenCut).drop l.offset) := by
      rw [← List.length_append] at h
      have h := ih _ h
      rwa [List.append_assoc, ← hcut, ← List.flatMap_cons] at h
    cases cut with
    | plain u => exact hbehind rfl h
    | span inner =>
      rcases List.mem_append.1 h with h | h
      · obtain ⟨f, hf, rfl⟩ := List.mem_map.1 h
        have hbar : ['|'] <+: ((front ++
            (Cut.span inner :: cuts).flatMap placeholderMarks.writtenCut).drop front.length) := by
          rw [List.drop_left]
          exact List.prefix_append ['|'] _
        rcases referenceFindings_cases e hf with ⟨failure, rfl⟩ | rfl | ⟨name, rfl⟩ <;>
          exact ⟨_, List.mem_singleton_self _, hbar⟩
      · exact hbehind rfl h

/-! ## Braces -/

def Brace.offset : Brace → Nat
  | .strayClosing offset | .unmatchedOpening offset | .group offset _ _ => offset

def Brace.mark : Brace → Char
  | .strayClosing _ => '}'
  | .unmatchedOpening _ | .group .. => '{'

theorem mark_prefix_of_mem_bracesFrom {skip : Nat} {read t : Text} {b : Brace}
    (h : b ∈ bracesFrom skip read t) : [b.mark] <+: (read.reverse ++ t).drop b.offset := by
  have hshift (c : Char) (cs read : Text) :
      (c :: read).reverse ++ cs = read.reverse ++ c :: cs := by simp
  have hhere (c : Char) (cs read : Text) :
      [c] <+: (read.reverse ++ c :: cs).drop read.length := by
    rw [← List.length_reverse, List.drop_left]
    exact List.prefix_append [c] cs
  fun_induction bracesFrom skip read t with
  | case1 => cases h
  | case2 skip read c cs ih =>
    rw [← hshift]
    exact ih h
  | case3 read cs ih =>
    rcases List.mem_cons.1 h with rfl | h
    · exact hhere '}' cs read
    · rw [← hshift]
      exact ih h
  | case4 read cs =>
    obtain rfl := List.mem_singleton.1 h
    exact hhere '{' cs read
  | case5 read cs _ _ _ ih =>
    rcases List.mem_cons.1 h with rfl | h
    · exact hhere '{' cs read
    · rw [← hshift]
      exact ih h
  | case6 read c cs _ _ ih =>
    rw [← hshift]
    exact ih h

/-- A brace is where a check has it. -/
theorem mark_prefix_of_mem_braces {b : Brace} (h : b ∈ braces t) : [b.mark] <+: t.drop b.offset :=
  mark_prefix_of_mem_bracesFrom h

/-- The keyword of a group stands right in front of its brace. -/
theorem opened_prefix_of_mem_braces {offset : Nat} {k : Keyword} {inner : Text}
    (h : .group offset (some k) inner ∈ braces t) :
    Finding.opened k <+: t.drop (offset - k.word.length) := by
  obtain ⟨front, rest, rfl, -, -, rfl, hk⟩ := mem_braces_iff.1 h
  have hfront := Keyword.eq_append_of_before? hk.symm
  generalize front.dropEnd k.word.length = before at hfront
  subst hfront
  refine ⟨inner ++ '}' :: rest, ?_⟩
  simp [Finding.opened, Piece.written]

theorem beginsAt_of_mem_conditionFindings {kind : BranchKind} (hkind : kind ≠ .otherwise)
    {part : Text} {f : Finding} (hf : f ∈ conditionFindings e (.opens kind) part)
    (h : Finding.opened (.opens kind) <+: t) : f.BeginsAt t := by
  have heither : ∀ mark ∈ [Finding.opened (.opens kind)],
      mark ∈ [Finding.opened (.opens .ifAll), Finding.opened (.opens .ifAny)] := by
    cases kind with
    | otherwise => exact absurd rfl hkind
    | ifAll | ifAny => simp
  unfold conditionFindings callFindings at hf
  split at hf
  · obtain rfl := List.mem_singleton.1 hf
    exact ⟨_, List.mem_singleton_self _, h⟩
  · rcases List.mem_append.1 hf with hf | hf
    · split at hf
      · cases hf
      · split at hf
        · obtain rfl := List.mem_singleton.1 hf
          exact ⟨_, List.mem_singleton_self _, h⟩
        · split at hf
          · cases hf
          · obtain rfl := List.mem_singleton.1 hf
            exact ⟨_, heither _ (List.mem_singleton_self _), h⟩
    · split at hf
      · obtain rfl := List.mem_singleton.1 hf
        exact ⟨_, heither _ (List.mem_singleton_self _), h⟩
      · cases hf

theorem beginsAt_of_mem_ofBrace {b : Brace} (hb : b ∈ braces t) {l : Located}
    (h : l ∈ ofBrace e b) : l.finding.BeginsAt (t.drop l.offset) := by
  have hmark := mark_prefix_of_mem_braces hb
  match b with
  | .strayClosing offset | .unmatchedOpening offset =>
    obtain rfl := List.mem_singleton.1 h
    exact ⟨_, List.mem_singleton_self _, hmark⟩
  | .group offset none inner =>
    obtain ⟨f, hf, rfl⟩ := List.mem_map.1 h
    rcases blockFindings_cases e hf with ⟨problem, rfl⟩ | ⟨name, rfl⟩ <;>
      exact ⟨_, List.mem_singleton_self _, hmark⟩
  | .group offset (some k) inner =>
    obtain ⟨f, hf, rfl⟩ := List.mem_map.1 h
    have hopened := opened_prefix_of_mem_braces hb
    rcases clauseFindings_cases e hf with rfl | rfl | ⟨kind, hkind, rfl, part, -, hf⟩
    · exact ⟨_, List.mem_singleton_self _, hopened⟩
    · exact ⟨_, List.mem_singleton_self _, hopened⟩
    · exact beginsAt_of_mem_conditionFindings hkind hf hopened

/-! ## Chains -/

/-- Whether the chain that a check is in or behind, if any, began at a keyword of the text. -/
def Standing.BeginsIn (t : Text) : Standing → Prop
  | .outside => True
  | .inside start | .after start _ =>
    ∃ kind, Finding.opened (.opens kind) <+: t.drop start

theorem Standing.BeginsIn.at {s : Standing} (h : s.BeginsIn t) (offset : Nat) :
    (s.at offset).BeginsIn t := by
  cases s with
  | outside => trivial
  | inside start => exact h
  | after start gapStart =>
    show (if gapStart = offset then Standing.after start gapStart else .outside).BeginsIn t
    split
    · exact h
    · trivial

theorem Standing.BeginsIn.past {s : Standing} (h : s.BeginsIn t) {b : Brace} (hb : b ∈ braces t) :
    (s.past b).BeginsIn t := by
  match b with
  | .strayClosing _ | .unmatchedOpening _ => exact h
  | .group offset none inner =>
    cases s with
    | outside | after => trivial
    | inside start => exact h
  | .group offset (some k) inner =>
    have hopened := opened_prefix_of_mem_braces hb
    have hat := h.at (offset - k.word.length)
    show ((s.at (offset - k.word.length)).behind _ _ k).BeginsIn t
    -- A chain goes on from where it began, or begins here.
    generalize s.at (offset - k.word.length) = s' at hat ⊢
    match s', k with
    | .outside, .ends => trivial
    | .inside _, .ends | .after .., .ends => exact hat
    | .outside, .opens kind => exact ⟨kind, hopened⟩
    | .inside _, .opens _ => exact hat
    | .after .., .opens .otherwise => exact ⟨.otherwise, hopened⟩
    | .after .., .opens .ifAll | .after .., .opens .ifAny => exact hat

theorem beginsAt_of_mem_findingsAt {s : Standing} {b : Brace} (hb : b ∈ braces t) {l : Located}
    (h : l ∈ s.findingsAt b) : l.finding.BeginsAt (t.drop l.offset) := by
  match b with
  | .strayClosing _ | .unmatchedOpening _ | .group _ none _ => cases h
  | .group offset (some k) inner =>
    obtain ⟨f, hf, rfl⟩ := List.mem_map.1 h
    have hopened := opened_prefix_of_mem_braces hb
    generalize s.at (offset - k.word.length) = s' at hf
    match s', k with
    | .inside _, _ => simp [Standing.findings] at hf
    | .outside, .ends | .after .., .ends | .outside, .opens .otherwise
    | .after .., .opens .otherwise =>
      obtain rfl := List.mem_singleton.1 hf
      exact ⟨_, List.mem_singleton_self _, hopened⟩
    | .outside, .opens .ifAll | .after .., .opens .ifAll | .outside, .opens .ifAny
    | .after .., .opens .ifAny => cases hf

theorem beginsAt_of_mem_chainFindings {s : Standing} (hs : s.BeginsIn t) {bs : List Brace}
    (hbs : ∀ b ∈ bs, b ∈ braces t) {l : Located} (h : l ∈ chainFindings s bs) :
    l.finding.BeginsAt (t.drop l.offset) := by
  induction bs generalizing s with
  | nil =>
    cases s with
    | outside | after => cases h
    | inside start =>
      obtain rfl := List.mem_singleton.1 h
      obtain ⟨kind, hopened⟩ := hs
      exact ⟨_, by cases kind <;> simp [Finding.marks], hopened⟩
  | cons b bs ih =>
    obtain ⟨hb, hbs⟩ := List.forall_mem_cons.1 hbs
    rw [chainFindings] at h
    rcases List.mem_append.1 h with h | h
    · exact beginsAt_of_mem_findingsAt hb h
    · exact ih (hs.past hb) hbs h

/-! ## All findings -/

/-- What a check finds is where it says. -/
theorem beginsAt_of_mem_found {current : Key} {l : Located} (h : l ∈ (run e current t).found) :
    l.finding.BeginsAt (t.drop l.offset) := by
  obtain ⟨mark, hmark, hstarts⟩ : l.finding.BeginsAt ((Code.blank t).drop l.offset) := by
    rcases List.mem_append.1 ((found_run e current t).mem_iff.1 h) with h | h
    · have h := beginsAt_of_mem_ofReferences [] h
      rwa [List.nil_append, placeholderMarks.written_cut (List.cons_ne_nil _ _)] at h
    · rcases List.mem_append.1 h with h | h
      · obtain ⟨b, hb, h⟩ := List.mem_flatMap.1 h
        exact beginsAt_of_mem_ofBrace hb h
      · exact beginsAt_of_mem_chainFindings (s := .outside) trivial (fun _ hb => hb) h
  have hsolid := Finding.isSolid_of_mem_marks hmark
  exact ⟨mark, hmark, Code.prefix_drop_of_blank hsolid.blank_not_mem hstarts⟩

end Check

namespace Validation

variable {σ : Type}

/-- Where an issue is, its finding begins, whatever code spans are around it: the line of the issue
counts the line feeds in front of it, and its column what stands on that line in front of it. -/
theorem issues_point_at_source (e : Engine σ) (current : Key) (script : Text) {i : Issue}
    (hi : i ∈ (ofScript e current script).issues) :
    ∃ before rest, script = before ++ rest ∧ i.line = 1 + before.count '\n' ∧
      i.column = 1 + (before.rtakeWhile (· ≠ '\n')).length ∧ i.finding.BeginsAt rest := by
  obtain ⟨l, hl, rfl⟩ := mem_issues_iff.1 hi
  refine ⟨script.take l.offset, script.drop l.offset, (List.take_append_drop _ _).symm,
    Nat.add_comm _ _, ?_, Check.beginsAt_of_mem_found hl⟩
  rw [List.rtakeWhile, List.length_reverse]
  exact Nat.add_comm _ _

/-- An engine without any entries. -/
def bare : Engine Unit where
  settings := .standard
  sigil := "_"
  repair := id
  fragments := none
  conditions := []
  placeholders := []
  actions := []
  callbacks := []

/-- A script with a keyword and a brace in a code span that goes over a line. -/
def codedText : Text := "[code]if\x7b\n\x7d[/code] Hail\n  fi\x7b\x7d"

/-- The keyword behind the code span is where its issue says, on the third line. -/
theorem codedText_issue_points_at_keyword :
    ∃ i ∈ (ofScript bare (.text "main") codedText).issues, i.finding.isStrayEnd ∧
      ∃ before rest, codedText = before ++ rest ∧ i.line = 1 + before.count '\n' ∧
        i.column = 1 + (before.rtakeWhile (· ≠ '\n')).length ∧ i.finding.BeginsAt rest := by
  obtain ⟨i, hi, hend⟩ : ∃ i ∈ (ofScript bare (.text "main") codedText).issues,
      i.finding.isStrayEnd := exists_issue (by decide +kernel)
  exact ⟨i, hi, hend, issues_point_at_source bare (.text "main") codedText hi⟩

end Validation

end StoryScript
