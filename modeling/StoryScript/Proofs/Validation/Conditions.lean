import StoryScript.Proofs.Condition.Answers
import StoryScript.Proofs.Markup.Absent
import StoryScript.Proofs.Validation.Braces
import StoryScript.Proofs.Validation.Findings

/-!
# Conditions that a check complains about

A check reads the conditions of a clause in its own way and without a story's flags. What it finds
about one is about the condition, its key or its operator and value (`Finding.Concerns`), and is
there for a reason that is in the finding (`Finding.Warranted`). Main statement: a check has an
issue about a condition just where evaluating it fails by the story's fault or reports an error,
whatever the flags are (`Validation.concerned_iff_complains`).
-/

namespace StoryScript

variable {σ : Type}

/-! ## Findings about one condition -/

namespace Finding

/-- Whether a finding behind a keyword is about one condition of the clause. -/
def Concerns (sigil : Text) (k : Keyword) (part : Text) : Finding → Prop
  | malformedCondition condition keyword => condition = part ∧ keyword = k
  | malformedCall key keyword =>
    keyword = k ∧ ∃ c, Comparison.read? sigil part = some c ∧ c.key = key
  | unregistered .condition name =>
    ∃ c r, Comparison.read? sigil part = some c ∧ Reference.read? sigil c.key = some r ∧
      r.name = name
  | orderedText operator value =>
    ∃ c, Comparison.read? sigil part = some c ∧ c.operator = operator ∧ c.value = value
  | _ => False

/-- Whether a finding is about one condition of a clause. -/
def isOfCondition : Finding → Bool
  | malformedCondition .. | malformedCall .. | unregistered .condition _ | orderedText .. => true
  | _ => false

theorem Concerns.isOfCondition {sigil : Text} {k : Keyword} {part : Text} {f : Finding}
    (h : f.Concerns sigil k part) : f.isOfCondition := by
  unfold Concerns at h
  split at h
  · rfl
  · rfl
  · rfl
  · rfl
  · cases h

theorem not_isOfCondition_of_isOfChain {f : Finding} (h : f.isOfChain) : ¬ f.isOfCondition := by
  cases f <;> first | exact Bool.false_ne_true | cases h

/-- Whether there is a reason for a finding about a condition. -/
def Warranted (e : Engine σ) : Finding → Prop
  | malformedCondition condition _ => Comparison.read? e.sigil condition = none
  | malformedCall key _ => (Text.after? e.sigil key).isSome ∧ Reference.read? e.sigil key = none
  | unregistered .condition name => e.conditions.contains name = false
  | orderedText operator value => operator.isOrdering ∧ (Value.ofLiteral value).isText
  | _ => False

end Finding

theorem Reference.isSome_after?_of_read? {start t : Text} {r : Reference}
    (h : read? start t = some r) : (Text.after? start t).isSome := by
  cases hafter : Text.after? start t with
  | none =>
    rw [read?, hafter] at h
    cases h
  | some rest => rfl

namespace Check

variable {e : Engine σ} {k : Keyword} {part : Text} {f : Finding}

theorem mem_callFindings {key : Text} :
    f ∈ callFindings e k key ↔
      (f = .malformedCall key k ∧ (Text.after? e.sigil key).isSome ∧
          Reference.read? e.sigil key = none) ∨
        ∃ r, f = .unregistered .condition r.name ∧ Reference.read? e.sigil key = some r ∧
          e.conditions.contains r.name = false := by
  unfold callFindings
  cases hr : Reference.read? e.sigil key with
  | none => cases Text.after? e.sigil key <;> simp
  | some r =>
    obtain ⟨rest, hrest⟩ := Option.isSome_iff_exists.1 (Reference.isSome_after?_of_read? hr)
    cases hcontains : e.conditions.contains r.name <;> simp [hrest, hcontains]

/-- What is found about a condition concerns it and is warranted, and nothing else is. -/
theorem mem_conditionFindings :
    f ∈ conditionFindings e k part ↔ f.Concerns e.sigil k part ∧ f.Warranted e := by
  have hsplit : f ∈ conditionFindings e k part ↔
      (f = .malformedCondition part k ∧ Comparison.read? e.sigil part = none) ∨
        ∃ c, Comparison.read? e.sigil part = some c ∧ (f ∈ callFindings e k c.key ∨
          f = .orderedText c.operator c.value ∧ c.operator.isOrdering ∧
            (Value.ofLiteral c.value).isText) := by
    unfold conditionFindings
    cases Comparison.read? e.sigil part with
    | none => simp
    | some c => simp [and_comm]
  rw [hsplit]
  constructor
  · rintro (⟨rfl, hnone⟩ | ⟨c, hc, hcall | ⟨rfl, horders⟩⟩)
    · exact ⟨⟨rfl, rfl⟩, hnone⟩
    · rcases mem_callFindings.1 hcall with ⟨rfl, hkey⟩ | ⟨r, rfl, hr, hnew⟩
      · exact ⟨⟨rfl, c, hc, rfl⟩, hkey⟩
      · exact ⟨⟨c, r, hc, hr, rfl⟩, hnew⟩
    · exact ⟨⟨c, hc, rfl, rfl⟩, horders⟩
  · rintro ⟨hconcerns, hwarranted⟩
    unfold Finding.Concerns at hconcerns
    split at hconcerns
    · obtain ⟨rfl, rfl⟩ := hconcerns
      exact .inl ⟨rfl, hwarranted⟩
    · obtain ⟨rfl, c, hc, rfl⟩ := hconcerns
      exact .inr ⟨c, hc, .inl (mem_callFindings.2 (.inl ⟨rfl, hwarranted⟩))⟩
    · obtain ⟨c, r, hc, hr, rfl⟩ := hconcerns
      exact .inr ⟨c, hc, .inl (mem_callFindings.2 (.inr ⟨r, rfl, hr, hwarranted⟩))⟩
    · obtain ⟨c, hc, rfl, rfl⟩ := hconcerns
      exact .inr ⟨c, hc, .inr ⟨rfl, hwarranted⟩⟩
    · contradiction

/-- What is found about one condition is found at the keyword of its branch. -/
theorem exists_group_of_mem_found {current : Key} {t : Text} {l : Located}
    (h : l ∈ (run e current t).found) (hcondition : l.finding.isOfCondition) :
    ∃ kind offset inner, kind ≠ .otherwise ∧
      .group offset (some (.opens kind)) inner ∈ braces (Code.blank t) ∧
      l.offset = offset - (Keyword.opens kind).word.length ∧
      ∃ part ∈ Clause.split inner.trim, l.finding ∈ conditionFindings e (.opens kind) part := by
  rcases List.mem_append.1 ((found_run e current t).mem_iff.1 h) with h | h
  · obtain ⟨expression, h⟩ := exists_of_mem_ofReferences e h
    rcases referenceFindings_cases e h with ⟨failure, hf⟩ | hf | ⟨name, hf⟩ <;>
      rw [hf] at hcondition <;> cases hcondition
  rcases List.mem_append.1 h with h | h
  · obtain ⟨b, hb, h⟩ := List.mem_flatMap.1 h
    cases b with
    | strayClosing | unmatchedOpening =>
      obtain rfl := List.mem_singleton.1 h
      cases hcondition
    | group offset keyword inner =>
      cases keyword with
      | none =>
        obtain ⟨f, hf, rfl⟩ := List.mem_map.1 h
        rcases blockFindings_cases e hf with ⟨problem, rfl⟩ | ⟨name, rfl⟩ <;> cases hcondition
      | some k =>
        obtain ⟨f, hf, rfl⟩ := List.mem_map.1 h
        rcases clauseFindings_cases e hf with rfl | rfl | ⟨kind, hkind, rfl, part, hpart, hf⟩
        · cases hcondition
        · cases hcondition
        · exact ⟨kind, offset, inner, hkind, hb, rfl, part, hpart, hf⟩
  · exact absurd hcondition
      (Finding.not_isOfCondition_of_isOfChain (isOfChain_of_mem_chainFindings h))

/-- Whatever a check finds that concerns a condition is warranted. -/
theorem warranted_of_mem_found {current : Key} {t : Text} {l : Located}
    (h : l ∈ (run e current t).found) (hconcerns : l.finding.Concerns e.sigil k part) :
    l.finding.Warranted e := by
  obtain ⟨_, _, _, -, -, -, _, -, hf⟩ := exists_group_of_mem_found h hconcerns.isOfCondition
  exact (mem_conditionFindings.1 hf).2

/-- What there is to find about a condition of a branch is found, at the keyword of the branch. -/
theorem mem_found_of_mem_conditionFindings (current : Key) {t : Text} {kind : BranchKind}
    (hkind : kind ≠ .otherwise) {c : Text} (hc : c ≠ []) {position : Nat}
    (htoken : .keyword (.opens kind) c position ∈ Token.ofText (Code.blank t))
    (hpart : part ∈ Clause.split c) (hf : f ∈ conditionFindings e (.opens kind) part) :
    ⟨position - (Keyword.opens kind).word.length, f⟩ ∈ (run e current t).found := by
  obtain ⟨inner, hb, rfl⟩ := keyword_mem_ofText_iff.1 htoken
  have hclause : f ∈ clauseFindings e inner.trim (.opens kind) := by
    have hparts : f ∈ (Clause.split inner.trim).flatMap (conditionFindings e (.opens kind)) :=
      List.mem_flatMap.2 ⟨part, hpart, hf⟩
    have hempty : ¬ inner.trim.isEmpty := mt List.isEmpty_iff.1 hc
    cases kind with
    | otherwise => contradiction
    | ifAll | ifAny =>
      rw [clauseFindings, if_neg hempty]
      exact hparts
  exact (found_run e current t).mem_iff.2 (List.mem_append_right _ (List.mem_append_left _
    (List.mem_flatMap.2 ⟨_, hb, List.mem_map.2 ⟨f, hclause, rfl⟩⟩)))

end Check

/-! ## Evaluating one condition -/

theorem Comparison.holds_of_ordersText {c : Comparison} (h : c.ordersText) (actual : Value) :
    c.holds actual = .ok none := by
  obtain ⟨hordering, htext⟩ := Bool.and_eq_true_iff.1 h
  unfold holds
  cases hoperator : c.operator with
  | equal | notEqual =>
    rw [hoperator] at hordering
    cases hordering
  | atLeast | atMost | greater | less => simp [htext]

/-- A comparison that orders no texts has an answer, or meets an integer that is too large. -/
theorem Comparison.holds_returns {c : Comparison} (h : c.ordersText = false) (actual : Value) :
    (∃ b, c.holds actual = .ok (some b)) ∨ c.holds actual = .error .integerTooLarge := by
  unfold holds
  dsimp only
  cases hoperator : c.operator with
  | equal | notEqual =>
    cases Value.looselyEqual? actual (Value.ofLiteral c.value) with
    | none => exact .inr rfl
    | some b => exact .inl ⟨_, rfl⟩
  | atLeast | atMost | greater | less =>
    have htext : (Value.ofLiteral c.value).isText = false := by
      simpa [ordersText, hoperator, Operator.isOrdering] using h
    simp only [htext]
    cases actual.toNumber? with
    | none => exact .inr rfl
    | some x =>
      cases (Value.ofLiteral c.value).toNumber? with
      | none => exact .inr rfl
      | some y => exact .inl ⟨_, rfl⟩

namespace Run

/-- Whether a run from a state fails by the story's fault or reports an error. -/
def Complains {α : Type} (x : Run σ α) (s : State σ) : Prop :=
  (∃ failure, (x.on s).1 = .error failure ∧ failure.isOfStory) ∨
    ∃ logged, (x.on s).2.notices = s.notices ++ logged ∧ ∃ n ∈ logged, n.level = .error

end Run

namespace Engine

variable {e : Engine σ} {re : Reentry σ} {s : State σ}

/-- Whether every registered condition gives a value from a state and reports nothing. -/
def AnswersFrom (e : Engine σ) (re : Reentry σ) (s : State σ) : Prop :=
  ∀ {name getter}, e.conditions.get? name = some getter → ∀ arguments,
    ∃ v s', ((getter arguments).run re).on s = (.ok v, s') ∧ s'.notices = s.notices

theorem on_conditionValue (h : e.AnswersFrom re s) (k : Keyword) (key : Text) :
    (Check.callFindings e k key ≠ [] ∧
        ∃ failure, (e.conditionValue re key).on s = (.error failure, s) ∧ failure.isOfStory) ∨
      Check.callFindings e k key = [] ∧
        ∃ v s', (e.conditionValue re key).on s = (.ok v, s') ∧ s'.notices = s.notices := by
  unfold conditionValue Check.callFindings
  cases Text.after? e.sigil key with
  | none => exact .inr ⟨rfl, s.flags.get key, s, rfl, rfl⟩
  | some rest =>
    cases Reference.read? e.sigil key with
    | none => exact .inl ⟨by simp, _, rfl, rfl⟩
    | some r =>
      cases hgetter : e.conditions.get? r.name with
      | none =>
        have hentry : entry .condition e.conditions r.name =
            .error (.unregistered .condition r.name) := by rw [entry, hgetter]
        simp only [hentry, Table.contains, hgetter]
        exact .inl ⟨by simp, _, rfl, rfl⟩
      | some getter =>
        have hentry : entry .condition e.conditions r.name = .ok getter := by
          rw [entry, hgetter]
        obtain ⟨v, s', hrun, hnotices⟩ := h hgetter r.arguments
        simp only [hentry, Table.contains, hgetter]
        exact .inr ⟨by simp, v, s', hrun, hnotices⟩

/-- Evaluating a condition complains just where there is something to find about it. -/
theorem complains_holds_iff (h : e.AnswersFrom re s) (k : Keyword) {part : Text}
    (htrim : part.trim = part) :
    (e.holds re part).Complains s ↔ Check.conditionFindings e k part ≠ [] := by
  unfold Check.conditionFindings
  rw [holds, htrim]
  cases hc : Comparison.read? e.sigil part with
  | none =>
    refine iff_of_true ?_ (by simp)
    exact .inr ⟨[.malformedCondition part], rfl, _, List.mem_singleton_self _, rfl⟩
  | some c =>
    dsimp only
    rcases on_conditionValue h k c.key with
      ⟨hfound, failure, hrun, hstory⟩ | ⟨hnone, v, s', hrun, hnotices⟩
    · refine iff_of_true (.inl ⟨failure, ?_, hstory⟩) (by simp [hfound])
      rw [Run.on_bind, hrun]
    · rw [hnone, List.nil_append]
      have hquiet {logged : List Notice} (hlogged : s'.notices = s.notices ++ logged) :
          ∀ n ∈ logged, n.level ≠ .error := by
        obtain rfl : logged = [] := List.self_eq_append_right.1 (hnotices.symm.trans hlogged)
        exact fun n hn => absurd hn List.not_mem_nil
      unfold Run.Complains
      rw [Run.on_bind, hrun, ← Comparison.ordersText]
      dsimp only
      cases horders : c.ordersText with
      | true =>
        rw [Comparison.holds_of_ordersText horders v]
        refine iff_of_true (.inr ⟨[.orderedText c.operator.word part], ?_, _,
          List.mem_singleton_self _, rfl⟩) (by simp)
        exact congrArg (· ++ [Notice.orderedText c.operator.word part]) hnotices
      | false =>
        refine iff_of_false ?_ (by simp)
        rcases Comparison.holds_returns horders v with ⟨b, hb⟩ | hb
        · rw [hb]
          rintro (⟨failure, hfailure, -⟩ | ⟨logged, hlogged, n, hn, hlevel⟩)
          · cases hfailure
          · exact hquiet hlogged n hn hlevel
        · rw [hb]
          rintro (⟨failure, hfailure, hstory⟩ | ⟨logged, hlogged, n, hn, hlevel⟩)
          · cases hfailure
            cases hstory
          · exact hquiet hlogged n hn hlevel

end Engine

namespace Validation

/-- Checking conditions is exact. In a text without code spans, a check has an issue about a
condition of a branch, at the branch's keyword, just where evaluating the condition fails by the
story's fault or reports an error, whatever the flags are. -/
theorem concerned_iff_complains (e : Engine σ) (re : Reentry σ) (current : Key) {t : Text}
    (hcode : ¬ ("[code]" : Text) <:+: t) {kind : BranchKind} (hkind : kind ≠ .otherwise)
    {c : Text} (hc : c ≠ []) {position : Nat}
    (htoken : .keyword (.opens kind) c position ∈ Token.ofText t) {part : Text}
    (hpart : part ∈ Clause.split c) {s : State σ} (hhosts : e.AnswersFrom re s) :
    (∃ i ∈ (ofScript e current t).issues,
      (i.line, i.column) = Lines.position t (position - (Keyword.opens kind).word.length) ∧
        i.finding.Concerns e.sigil (.opens kind) part) ↔
      (e.holds re part).Complains s := by
  rw [Engine.complains_holds_iff hhosts (.opens kind) (Clause.trim_of_mem hpart)]
  have hmem {i : Issue} : i ∈ (ofScript e current t).issues ↔
      ∃ l ∈ (Check.run e current t).found, Issue.ofLocated t (Lines.split t) l = i :=
    (issues_perm e current t).mem_iff.trans List.mem_map
  constructor
  · rintro ⟨i, hi, -, hconcerns⟩
    obtain ⟨l, hl, rfl⟩ := hmem.1 hi
    exact List.ne_nil_of_mem
      (Check.mem_conditionFindings.2 ⟨hconcerns, Check.warranted_of_mem_found hl hconcerns⟩)
  · intro hfound
    obtain ⟨f, hf⟩ := List.exists_mem_of_ne_nil _ hfound
    rw [← Code.blank_of_absent hcode] at htoken
    have hl := Check.mem_found_of_mem_conditionFindings current hkind hc htoken hpart hf
    exact ⟨_, hmem.2 ⟨_, hl, rfl⟩, rfl, (Check.mem_conditionFindings.1 hf).1⟩

/-- An engine with a condition that always holds. -/
def tollgate : Engine Unit where
  settings := .standard
  sigil := "_"
  repair := id
  fragments := none
  conditions := [("_day", fun _ => .done (.bool true))]
  placeholders := []
  actions := []
  callbacks := []

def tollText : Text := "if\x7b_day = true, gold >= plenty\x7dThe bar lifts.fi\x7b\x7d"

def tollState : State Unit where
  flags := default
  bus := []
  talking := none
  depth := 0
  notices := []
  memory := ()

/-- An order by a text is an issue, and is reported. -/
theorem concerned_tollText :
    (∃ i ∈ (ofScript tollgate (.text "main") tollText).issues,
      (i.line, i.column) = (1, 1) ∧ i.finding.Concerns "_" (.opens .ifAll) "gold >= plenty") ∧
      (tollgate.holds (.none Unit) "gold >= plenty").Complains tollState := by
  have hhosts : tollgate.AnswersFrom (.none Unit) tollState := by
    intro name getter hgetter arguments
    obtain rfl : getter = fun _ => .done (.bool true) := by
      rw [tollgate, Table.get?] at hgetter
      split at hgetter
      · exact (Option.some.inj hgetter).symm
      · cases hgetter
    exact ⟨.bool true, tollState, rfl, rfl⟩
  have htoken : Token.keyword (.opens .ifAll) "_day = true, gold >= plenty" 2 ∈
      Token.ofText tollText := by decide +kernel
  have hfound : (Check.conditionFindings tollgate (.opens .ifAll) "gold >= plenty").isEmpty =
      false := by decide +kernel
  have hreported : (tollgate.holds (.none Unit) "gold >= plenty").Complains tollState := by
    refine (Engine.complains_holds_iff hhosts (.opens .ifAll) (by decide +kernel)).2 fun hnil => ?_
    rw [hnil] at hfound
    cases hfound
  have hissue := (concerned_iff_complains tollgate (.none Unit) (.text "main")
    (by decide +kernel) (by decide) (by decide) htoken (by decide +kernel) hhosts).2 hreported
  exact ⟨hissue, hreported⟩

end Validation

end StoryScript
