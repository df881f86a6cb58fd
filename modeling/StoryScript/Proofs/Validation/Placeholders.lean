import StoryScript.Proofs.Markup.Absent
import StoryScript.Proofs.Markup.Filled
import StoryScript.Proofs.Validation.Conditions

/-!
# Conditions that placeholders complete

A check reads a text as it is written, while its placeholders are filled in before its conditions
are read (`Engine.Fills`). A group that a keyword is in front of is the same in both, with the
placeholders in it filled in (`Check.exists_group_of_filled`). Main statement: a condition that is
well written once placeholders are filled in is rejected by a check only where one is written in it
(`Validation.placeholder_of_rejects`).
-/

namespace StoryScript

variable {σ : Type}

/-! ## Keywords of a text that is filled in -/

namespace Check

/-- A keyword of a text that is filled in stays in front of its group. -/
theorem exists_group_of_filled {kind : Text → Prop} {t u : Text} (h : t.Filled kind u)
    {offset : Nat} {k : Keyword} {inner : Text} (hgroup : .group offset (some k) inner ∈ braces t) :
    ∃ offset' inner', .group offset' (some k) inner' ∈ braces u ∧ inner.Filled kind inner' := by
  obtain ⟨front, rest, rfl, hclosed, hgroup, -, hk⟩ := mem_braces_iff.1 hgroup
  have hparted : front ++ (Piece.group inner).written ++ rest =
      front ++ '{' :: (inner ++ '}' :: rest) := by simp [Piece.written]
  obtain ⟨front', behind', rfl, hfront, hbehind⟩ := h.of_append_cons hparted (.inl rfl)
  obtain ⟨inner', rest', rfl, hinner, -⟩ := hbehind.of_append_cons rfl (.inr rfl)
  obtain ⟨before', rfl, -⟩ :=
    hfront.of_append_word (Keyword.eq_append_of_before? hk.symm) k.bar_not_mem_word
  refine ⟨(before' ++ k.word).length, inner', mem_braces_iff.2 ⟨before' ++ k.word, rest', ?_,
    hfront.isClosed hclosed, hinner.isGroup hgroup, rfl, ?_⟩, hinner⟩
  · simp [Piece.written]
  · rw [Keyword.before?_append_word]

end Check

/-! ## Conditions that are rejected -/

/-- Whether a finding is that a condition cannot be read or orders a text. -/
def Finding.rejects : Finding → Bool
  | malformedCondition .. | orderedText .. => true
  | _ => false

theorem Finding.isOfCondition_of_rejects {f : Finding} (h : f.rejects) : f.isOfCondition := by
  cases f <;> first | rfl | cases h

/-- Whether the conditions of a branch that a token opens can all be read, and none orders a
text. -/
def Token.isCompared (sigil : Text) : Token → Bool
  | keyword (.opens .ifAll) condition _ | keyword (.opens .ifAny) condition _ =>
    (Clause.split condition).all fun part =>
      (Comparison.read? sigil part).any fun c => !c.ordersText
  | _ => true

namespace Check

variable {e : Engine σ} {f : Finding}

/-- Nothing rejects a condition of a branch that is compared. -/
theorem not_rejects_of_isCompared {kind : BranchKind} (hkind : kind ≠ .otherwise)
    {condition : Text} {position : Nat}
    (h : (Token.keyword (.opens kind) condition position).isCompared e.sigil) {part : Text}
    (hpart : part ∈ Clause.split condition)
    (hf : f ∈ conditionFindings e (.opens kind) part) : ¬ f.rejects := by
  have hcompared : (Comparison.read? e.sigil part).any fun c => !c.ordersText := by
    cases kind with
    | otherwise => exact absurd rfl hkind
    | ifAll | ifAny => exact List.all_eq_true.1 h part hpart
  obtain ⟨hconcerns, hwarranted⟩ := mem_conditionFindings.1 hf
  intro hrejects
  cases f with
  | malformedCondition condition' k' =>
    obtain ⟨rfl, -⟩ := hconcerns
    rw [show Comparison.read? e.sigil condition' = none from hwarranted] at hcompared
    cases hcompared
  | orderedText operator value =>
    obtain ⟨c, hc, rfl, rfl⟩ := hconcerns
    have horders : c.ordersText := Bool.and_eq_true_iff.2 hwarranted
    rw [hc, Option.any_some, horders] at hcompared
    cases hcompared
  | _ => cases hrejects

end Check

/-! ## Filling in placeholders -/

namespace Engine

/-- A run of the placeholders among cuts, each of which gives a text without braces; none is a
template. -/
inductive Fills (e : Engine σ) (re : Reentry σ) : State σ → List Cut → Text → State σ → Prop
  | nil (s : State σ) : Fills e re s [] [] s
  | plain {s s' : State σ} (t : Text) {cuts : List Cut} {u : Text}
    (h : Fills e re s cuts u s') : Fills e re s (.plain t :: cuts) (t ++ u) s'
  | span {s s₁ s' : State σ} {inner value : Text} {cuts : List Cut} {u : Text}
    (hinner : inner.head? ≠ some '$')
    (hcall : (e.callPlaceholder re inner).on s = (.ok value, s₁)) (hvalue : value.Braceless)
    (h : Fills e re s₁ cuts u s') : Fills e re s (.span inner :: cuts) (value ++ u) s'

namespace Fills

variable {e : Engine σ} {re : Reentry σ} {s s' : State σ} {cuts : List Cut} {u : Text}

theorem on_placeholderPass (h : e.Fills re s cuts u s') :
    (e.placeholderPass re cuts).on s = (.ok u, s') := by
  induction h with
  | nil => rfl
  | plain t _ ih =>
    rw [placeholderPass, Run.on_bind, ih]
    rfl
  | span hinner hcall _ _ ih =>
    rw [placeholderPass, if_neg hinner, substitutePlaceholder, bind_assoc, Run.on_bind,
      Run.on_attempt, hcall]
    dsimp only
    rw [pure_bind, Run.on_bind, ih]
    rfl

/-- What the cuts are written as, with the placeholders filled in. -/
theorem filled (h : e.Fills re s cuts u s') {kind : Text → Prop}
    (hkind : ∀ inner, .span inner ∈ cuts → kind inner ∧ inner.Braceless) :
    Text.Filled kind (cuts.flatMap placeholderMarks.writtenCut) u := by
  induction h with
  | nil => exact .nil
  | plain t _ ih => exact (ih fun inner h => hkind inner (List.mem_cons_of_mem _ h)).append_left t
  | @span s s₁ s' inner value cuts u _ _ hvalue _ ih =>
    obtain ⟨hinner, hbraceless⟩ := hkind inner List.mem_cons_self
    exact .placeholder hinner hbraceless hvalue
      (ih fun inner h => hkind inner (List.mem_cons_of_mem _ h))

end Fills

end Engine

namespace Validation

/-- Placeholders come first when a text is resolved, and a check reads them as they are written. In
a text without code spans and templates, of which the placeholders stand for texts without braces,
let all conditions be compared once the placeholders are filled in. Then a check rejects a condition
only where a placeholder is written in it, or where one is written with a brace. -/
theorem placeholder_of_rejects (e : Engine σ) (re : Reentry σ) (current : Key) {t : Text}
    (hcode : ¬ ("[code]" : Text) <:+: t) {s s' : State σ} {u : Text}
    (hfills : e.Fills re s (placeholderMarks.cut t) u s')
    (hcompared : (Token.ofText u).all (Token.isCompared e.sigil)) :
    (e.resolvePlaceholders re t).on s = (.ok u, s') ∧
    ∀ i ∈ (ofScript e current t).issues, i.finding.rejects →
      ∃ inner, .span inner ∈ placeholderMarks.cut t ∧
        (¬ inner.Braceless ∨
          ∃ kind condition position, .keyword (.opens kind) condition position ∈ Token.ofText t ∧
            (i.line, i.column) =
              Lines.position t (position - (Keyword.opens kind).word.length) ∧
            placeholderMarks.written inner <:+: condition) := by
  refine ⟨hfills.on_placeholderPass, fun i hi hrejects => ?_⟩
  obtain ⟨l, hl, rfl⟩ := List.mem_map.1 ((issues_perm e current t).mem_iff.1 hi)
  obtain ⟨kind, offset, inner, hkind, hgroup, hoffset, part, hpart, hf⟩ :=
    Check.exists_group_of_mem_found hl (Finding.isOfCondition_of_rejects hrejects)
  rw [Code.blank_of_absent hcode] at hgroup
  by_cases hbraceless : ∀ inner, .span inner ∈ placeholderMarks.cut t → inner.Braceless
  · have hfilled : Text.Filled (fun inner => .span inner ∈ placeholderMarks.cut t)
        ((placeholderMarks.cut t).flatMap placeholderMarks.writtenCut) u :=
      hfills.filled fun inner h => ⟨h, hbraceless inner h⟩
    rw [placeholderMarks.written_cut (List.cons_ne_nil _ _)] at hfilled
    obtain ⟨offset', inner', hgroup', hinner⟩ := Check.exists_group_of_filled hfilled hgroup
    rcases hinner.eq_or_exists with rfl | ⟨name, hname, hwritten⟩
    · -- The condition is the one that is compared, so it would not be rejected.
      have htoken := List.all_eq_true.1 hcompared _
        (Check.keyword_mem_ofText_iff.2 ⟨_, hgroup', rfl⟩)
      exact absurd hrejects (Check.not_rejects_of_isCompared hkind htoken hpart hf)
    · refine ⟨name, hname, .inr ⟨kind, inner.trim, offset,
        Check.keyword_mem_ofText_iff.2 ⟨_, hgroup, rfl⟩, ?_, Text.written_isInfix_trim hwritten⟩⟩
      rw [← hoffset]
      rfl
  · simp only [not_forall] at hbraceless
    obtain ⟨name, hname, hbrace⟩ := hbraceless
    exact ⟨name, hname, .inl hbrace⟩

/-- An engine with a placeholder for a name and one for a number. -/
def counter : Engine Unit where
  settings := .standard
  sigil := "_"
  repair := id
  fragments := none
  conditions := []
  placeholders := [
    ("name", fun _ => .done (.text "Ada")),
    ("threshold", fun _ => .done (.int 10))]
  actions := []
  callbacks := []

def counterState : State Unit := ⟨default, [], none, 0, [], ()⟩

def salesText : Text := "Well, |name|: if\x7bgold > 3, gold > |threshold|\x7dsold fi\x7b\x7d"

def salesFilled : Text := "Well, Ada: if\x7bgold > 3, gold > 10\x7dsold fi\x7b\x7d"

theorem fills_salesText :
    counter.Fills (.none Unit) counterState (placeholderMarks.cut salesText) salesFilled
      counterState := by
  have hcut : placeholderMarks.cut salesText =
      [.plain "Well, ", .span "name", .plain ": if\x7bgold > 3, gold > ", .span "threshold",
        .plain "\x7dsold fi\x7b\x7d"] := by decide +kernel
  have hname : (counter.callPlaceholder (.none Unit) "name").on counterState =
      (.ok "Ada", counterState) := rfl
  have hthreshold : (counter.callPlaceholder (.none Unit) "threshold").on counterState =
      (.ok "10", counterState) := rfl
  rw [hcut]
  exact .plain _ (.span (by decide) hname ⟨by decide, by decide⟩
    (.plain _ (.span (by decide) hthreshold ⟨by decide, by decide⟩ (.plain _ (.nil _)))))

/-- The second condition is rejected, in which a placeholder is written. -/
theorem placeholder_of_rejects_salesText :
    ∃ i ∈ (ofScript counter (.text "main") salesText).issues, i.finding.rejects ∧
      ∃ inner, .span inner ∈ placeholderMarks.cut salesText ∧
        (¬ inner.Braceless ∨
          ∃ kind condition position,
            .keyword (.opens kind) condition position ∈ Token.ofText salesText ∧
            (i.line, i.column) =
              Lines.position salesText (position - (Keyword.opens kind).word.length) ∧
            placeholderMarks.written inner <:+: condition) := by
  obtain ⟨i, hi, hrejects⟩ : ∃ i ∈ (ofScript counter (.text "main") salesText).issues,
      i.finding.rejects := exists_issue (by decide +kernel)
  obtain ⟨-, howed⟩ := placeholder_of_rejects counter (.none Unit) (.text "main")
    (by decide +kernel) fills_salesText (by decide +kernel)
  exact ⟨i, hi, hrejects, howed i hi hrejects⟩

def richText : Text := "if\x7bgold>|threshold|\x7dRich fi\x7b\x7d"

/-- A condition that is compared once its placeholder is filled in, and is rejected. -/
theorem completed_condition_rejected :
    ¬ ("[code]" : Text) <:+: richText ∧
    placeholderMarks.cut richText =
      [.plain "if\x7bgold>", .span "threshold", .plain "\x7dRich fi\x7b\x7d"] ∧
    (counter.callPlaceholder (.none Unit) "threshold").on counterState =
      (.ok "10", counterState) ∧
    (counter.resolvePlaceholders (.none Unit) richText).on counterState =
      (.ok "if\x7bgold>10\x7dRich fi\x7b\x7d", counterState) ∧
    (Token.ofText "if\x7bgold>10\x7dRich fi\x7b\x7d").all (Token.isCompared counter.sigil) ∧
    ∃ i ∈ (ofScript counter (.text "main") richText).issues, i.finding.rejects := by
  have hcut : placeholderMarks.cut richText =
      [.plain "if\x7bgold>", .span "threshold", .plain "\x7dRich fi\x7b\x7d"] := by
    decide +kernel
  refine ⟨by decide +kernel, hcut, rfl, ?_, by decide +kernel, exists_issue (by decide +kernel)⟩
  rw [Engine.resolvePlaceholders, hcut]
  rfl

end Validation

end StoryScript
