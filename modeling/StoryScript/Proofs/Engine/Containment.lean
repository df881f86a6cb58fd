import StoryScript.Proofs.Branch.Shown
import StoryScript.Proofs.Engine.Nesting

/-!
# How failures are contained

The failures of conditions and placeholders go no further than the branch or the placeholder they
are met in, and nothing else fails in an engine with fragments of text, a whole number for the limit
of templates and tags without backslashes (`Engine.Plain`). Main statement: a resolution of such an
engine returns, unless it ends in an action or in a callback before the text; a placeholder that
fails stays as it is written, and a branch of which a condition fails does not pass
(`Engine.resolve_contains_failures`).
-/

namespace StoryScript

open Run

variable {σ : Type}

namespace Engine

/-- An engine with settings and fragments of the kinds that they are meant to be of. -/
structure Plain (e : Engine σ) : Prop where
  limit : ∃ m, e.settings.maxTemplateDepth = .int m
  fragments : ∀ library, e.fragments = some library →
    ∀ container ∈ library, ∀ fragment ∈ container.2, fragment.2.isText
  italicTag : ∀ memory, '\\' ∉ (e.tags memory).italic.display
  boldTag : ∀ memory, '\\' ∉ (e.tags memory).bold.display

/-- Whether what came of a run is the failure of a callback of some names, in the state that the
callback left. -/
def EndsInCallback {α : Type} (e : Engine σ) (re : Reentry σ) (arguments : List Value)
    (names : List Text) (out : Except Failure α × State σ) : Prop :=
  ∃ name ∈ names, ∃ callback failure s₁, e.callbacks.get? name = some callback ∧
    out.1 = .error failure ∧ ((callback arguments).run re).on s₁ = (.error failure, out.2)

variable {e : Engine σ} {re : Reentry σ} {dryRun : Bool}

/-! ## What an engine itself fails at -/

theorem Plain.allows (h : e.Plain) (fails : Failure → State σ → Prop) : e.Allows fails where
  limit _ hfailure := by
    obtain ⟨m, hm⟩ := h.limit
    rw [hm] at hfailure
    cases hfailure
  fragment {current reference fragment} _ hload htext := by
    cases hlibrary : e.fragments with
    | none => simp [loadFragment, hlibrary] at hload
    | some library =>
      rw [loadFragment, hlibrary] at hload
      obtain ⟨container, hcontainer, name, hname⟩ := FragmentLibrary.exists_mem_of_load hload
      have hisText := h.fragments library hlibrary container hcontainer _ hname
      simp [htext] at hisText
  styles {memory t failure} _ hfailure := by
    rw [resolveStyles, Style.resolve_of_plain (h.italicTag memory) (h.boldTag memory)] at hfailure
    cases hfailure

/-! ## What a resolution fails at -/

variable {fails : Failure → State σ → Prop} {holds : Nat → State σ → Prop}

theorem Upholds.keeps_resolveCapped (h : e.Upholds re dryRun holds fails)
    (hallows : e.Allows fails) {limit : Nat} {other : Text → Run σ Resolution}
    (hother : ∀ d t, Keeps (holds d) fails (other t)) {d : Nat} (levels : Nat) (t : Text) :
    Keeps (holds d) fails (e.resolveCapped re dryRun limit other levels t) := by
  induction levels generalizing d t with
  | zero => exact hother d t
  | succ levels ih =>
    refine h.keeps_resolveOver hallows (fun u s hs => ?_) t
    rw [on_capped]
    split
    · exact ih u s hs
    · exact hother _ u s hs

/-- Templates are resolved as deep as they nest, so a resolution fails only where its hosts do. -/
theorem Upholds.keeps_resolution (h : e.Upholds re dryRun holds fails) (hplain : e.Plain)
    (hre : re.KeepsDepth) {d : Nat} (t : Text) :
    Keeps (holds d) fails (e.resolveWithin re dryRun (levels e.settings + 1) t) := by
  obtain ⟨m, hm⟩ := hplain.limit
  intro s hs
  rw [← on_resolveCapped dryRun hm hre (fun _ => pure .empty) m.toNat.lt_succ_self t s]
  exact h.keeps_resolveCapped (hplain.allows fails) (fun _ _ => keeps_pure _) _ t s hs

theorem runCallbacks_returns_or_ends (e : Engine σ) (re : Reentry σ) (arguments : List Value)
    (names : List Text) (s : State σ) :
    (∃ goesOn, ((e.runCallbacks re arguments names).on s).1 = .ok goesOn) ∨
      e.EndsInCallback re arguments names ((e.runCallbacks re arguments names).on s) := by
  induction names generalizing s with
  | nil => exact .inl ⟨true, rfl⟩
  | cons name names ih =>
    have hrest (s : State σ) :
        (∃ goesOn, ((e.runCallbacks re arguments names).on s).1 = .ok goesOn) ∨
          e.EndsInCallback re arguments (name :: names)
            ((e.runCallbacks re arguments names).on s) :=
      (ih s).imp_right fun ⟨name', hname', hends⟩ =>
        ⟨name', List.mem_cons_of_mem name hname', hends⟩
    rw [runCallbacks]
    cases hcallback : e.callbacks.get? name with
    | none => exact hrest s
    | some callback =>
      dsimp only
      rw [on_bind]
      cases hout : ((callback arguments).run re).on s with
      | mk answer s' =>
        cases answer with
        | error failure =>
          exact .inr ⟨name, List.mem_cons_self, callback, failure, s, hcallback, rfl, hout⟩
        | ok propagation =>
          cases propagation with
          | stop => exact .inl ⟨false, rfl⟩
          | goOn => exact hrest s'

/-- A call that no callback stops returns, unless an action fails. -/
theorem resolve_returns_or_ends_of_trigger (hplain : e.Plain) (hre : re.KeepsDepth) {t : Text}
    {s s₁ : State σ} (htrigger : (e.trigger re resolveBefore [.text t]).on s = (.ok true, s₁)) :
    (∃ r, ((e.resolve re t dryRun).on s).1 = .ok r) ∨
      (dryRun = false ∧ e.EndsInAction re ((e.resolve re t dryRun).on s)) := by
  have hkeeps := (e.upholds_actionFailed re dryRun).keeps_resolution hplain hre (d := 0) t
  have hfails := (hkeeps s₁ trivial).2
  rw [resolve, on_bind, htrigger]
  dsimp only
  rw [if_pos rfl, on_bind]
  generalize (e.resolveWithin re dryRun (levels e.settings + 1) t).on s₁ = out at hfails ⊢
  obtain ⟨failure | r, s₂⟩ := out
  · obtain ⟨hreal, hends⟩ := hfails failure rfl
    exact .inr ⟨hreal, failure, rfl, hends⟩
  · refine .inl ⟨e.delivered dryRun s₂.memory r, ?_⟩
    cases hr : r.redirected <;> simp only [hr] <;> rfl

theorem resolve_returns_or_ends (hplain : e.Plain) (hre : re.KeepsDepth) (t : Text) (s : State σ) :
    (∃ r, ((e.resolve re t dryRun).on s).1 = .ok r) ∨
      e.EndsInCallback re [.text t] (s.bus.listeners resolveBefore)
        ((e.resolve re t dryRun).on s) ∨
      (dryRun = false ∧ e.EndsInAction re ((e.resolve re t dryRun).on s)) := by
  have hcallbacks :=
    e.runCallbacks_returns_or_ends re [.text t] (s.bus.listeners resolveBefore) s
  have htrigger : (e.trigger re resolveBefore [.text t]).on s =
      (e.runCallbacks re [.text t] (s.bus.listeners resolveBefore)).on s := rfl
  generalize (e.runCallbacks re [.text t] (s.bus.listeners resolveBefore)).on s = out
    at hcallbacks htrigger
  obtain ⟨failure | goesOn, s₁⟩ := out
  · rcases hcallbacks with ⟨_, hreturns⟩ | ⟨name, hname, callback, failure', s₂, hends⟩
    · cases hreturns
    · obtain ⟨hcallback, hfailure, hrun⟩ := hends
      cases hfailure
      rw [resolve, on_bind, htrigger]
      exact .inr (.inl ⟨name, hname, callback, failure, s₂, hcallback, rfl, hrun⟩)
  · cases goesOn with
    | false =>
      rw [resolve, on_bind, htrigger]
      exact .inl ⟨.empty, rfl⟩
    | true => exact (resolve_returns_or_ends_of_trigger hplain hre htrigger).imp_right .inr

/-! ## Placeholders -/

/-- What there is to report about a placeholder that fails. -/
def placeholderComplaint (expression : Text) (failure : Failure) : Notice :=
  if failure.isOfStory then .placeholderRejected expression failure
  else .placeholderFailed expression failure

theorem placeholderPass_append (before after : List Cut) :
    e.placeholderPass re (before ++ after) = do
      let u ← e.placeholderPass re before
      let v ← e.placeholderPass re after
      return u ++ v := by
  induction before with
  | nil => simp [placeholderPass]
  | cons cut before ih =>
    cases cut with
    | plain t =>
      simp only [List.cons_append, placeholderPass, ih, bind_assoc, pure_bind, List.append_assoc]
    | span inner =>
      rw [List.cons_append, placeholderPass, placeholderPass, ih]
      split <;> simp only [bind_assoc, pure_bind, List.append_assoc]

theorem placeholderPass_returns (e : Engine σ) (re : Reentry σ) (cuts : List Cut) (s : State σ) :
    ∃ u s', (e.placeholderPass re cuts).on s = (.ok u, s') := by
  -- This pass runs no action, so it is the same in a dry run, where none can fail.
  have hkeeps := (e.upholds_actionFailed re true).keeps_placeholderPass (d := 0) cuts
  have hfails := (hkeeps s trivial).2
  generalize (e.placeholderPass re cuts).on s = out at hfails
  obtain ⟨failure | u, s'⟩ := out
  · cases (hfails failure rfl).1
  · exact ⟨u, s', rfl⟩

theorem on_substitutePlaceholder_of_error {expression : Text} {s s' : State σ} {failure : Failure}
    (h : (e.callPlaceholder re expression).on s = (.error failure, s')) :
    (e.substitutePlaceholder re expression).on s =
      (.ok (placeholderMarks.written expression), { s' with notices := s'.notices ++
        [placeholderComplaint expression failure] }) := by
  rw [substitutePlaceholder, on_bind, on_attempt, h]
  rfl

/-- A placeholder that fails stays as it is written, and the pass goes on behind it. -/
theorem on_placeholderPass_of_error {before after : List Cut} {expression u : Text}
    {s s₁ s₂ : State σ} {failure : Failure} (hname : expression.head? ≠ some '$')
    (hbefore : (e.placeholderPass re before).on s = (.ok u, s₁))
    (hcall : (e.callPlaceholder re expression).on s₁ = (.error failure, s₂)) :
    ∃ v s₃, (e.placeholderPass re after).on { s₂ with notices := s₂.notices ++
          [placeholderComplaint expression failure] } = (.ok v, s₃) ∧
      (e.placeholderPass re (before ++ .span expression :: after)).on s =
        (.ok (u ++ placeholderMarks.written expression ++ v), s₃) := by
  obtain ⟨v, s₃, hafter⟩ := e.placeholderPass_returns re after { s₂ with notices :=
    s₂.notices ++ [placeholderComplaint expression failure] }
  refine ⟨v, s₃, hafter, ?_⟩
  rw [placeholderPass_append, on_bind, hbefore]
  dsimp only
  rw [placeholderPass, if_neg hname, bind_assoc, on_bind, on_substitutePlaceholder_of_error hcall]
  dsimp only
  rw [bind_assoc, on_bind, hafter, List.append_assoc]
  rfl

/-! ## Branches -/

/-- What there is to report about a branch of which a condition fails. -/
def branchComplaint (b : Branch) (failure : Failure) : Notice :=
  if failure.isOfStory then .branchRejected b.condition failure
  else .branchFailed b.condition failure

theorem on_passes_of_error {b : Branch} {s s' : State σ} {failure : Failure}
    (hcondition : b.condition ≠ [])
    (h : (e.opens re (gateOf b)).on s = (.error failure, s')) :
    (e.passes re b).on s =
      (.ok false, { s' with notices := s'.notices ++
        [branchComplaint b failure] }) := by
  rw [passes, if_neg (by simpa using hcondition), on_bind, on_attempt, h]
  rfl

theorem on_firstPassing_append {test : Branch → Run σ Bool} {before : List Branch}
    (after : List Branch) {s s₁ : State σ}
    (h : (Node.fired? test before).on s = (.ok none, s₁)) :
    (Node.firstPassing test (before ++ after)).on s = (Node.firstPassing test after).on s₁ := by
  induction before generalizing s with
  | nil =>
    obtain ⟨-, rfl⟩ := Prod.mk.inj h
    rfl
  | cons b before ih =>
    rw [Node.fired?, on_bind] at h
    rw [List.cons_append, Node.firstPassing, on_bind]
    generalize (test b).on s = out at h
    obtain ⟨failure | passes, s'⟩ := out
    · cases h
    · cases passes with
      | true => cases h
      | false => exact ih h

/-- A branch of which a condition fails does not pass, and the branches behind it are tried. -/
theorem on_firstPassing_of_error {before : List Branch} {b : Branch} (after : List Branch)
    {s s₁ s₂ : State σ} {failure : Failure} (hcondition : b.condition ≠ [])
    (hbefore : (Node.fired? (e.passes re) before).on s = (.ok none, s₁))
    (hopens : (e.opens re (gateOf b)).on s₁ = (.error failure, s₂)) :
    (Node.firstPassing (e.passes re) (before ++ b :: after)).on s =
      (Node.firstPassing (e.passes re) after).on { s₂ with notices := s₂.notices ++
        [branchComplaint b failure] } := by
  rw [on_firstPassing_append _ hbefore, Node.firstPassing, on_bind,
    on_passes_of_error hcondition hopens]
  rfl

/-! ## Calls -/

/-- Failures are contained. Whatever text the library makes of a block, a call returns unless it
ends in a callback before its text or, in a real run, in an action. A placeholder that fails is
written as it was between what the placeholders before and behind it come to, and a branch of which
a condition fails is passed over for those behind it. Each is reported, and whatever else it changed
stays changed. The stack is taken to hold, however deep the objects of a block nest. -/
theorem resolve_contains_failures (e : Engine σ) (hplain : e.Plain) (re : Reentry σ)
    (hre : re.KeepsDepth) :
    (∀ t dryRun s, (∃ r, ((e.resolve re t dryRun).on s).1 = .ok r) ∨
      e.EndsInCallback re [.text t] (s.bus.listeners resolveBefore)
        ((e.resolve re t dryRun).on s) ∨
      (dryRun = false ∧ e.EndsInAction re ((e.resolve re t dryRun).on s))) ∧
    (∀ before expression after s, expression.head? ≠ some '$' →
      ∃ u s₁, (e.placeholderPass re before).on s = (.ok u, s₁) ∧
        ∀ failure s₂, (e.callPlaceholder re expression).on s₁ = (.error failure, s₂) →
          ∃ v s₃, (e.placeholderPass re after).on { s₂ with
              notices := s₂.notices ++ [placeholderComplaint expression failure] } = (.ok v, s₃) ∧
            (e.placeholderPass re (before ++ .span expression :: after)).on s =
              (.ok (u ++ placeholderMarks.written expression ++ v), s₃)) ∧
    ∀ before b after s s₁ failure s₂, b.condition ≠ [] →
      (Node.fired? (e.passes re) before).on s = (.ok none, s₁) →
      (e.opens re (gateOf b)).on s₁ = (.error failure, s₂) →
      (Node.firstPassing (e.passes re) (before ++ b :: after)).on s =
        (Node.firstPassing (e.passes re) after).on
          { s₂ with notices := s₂.notices ++ [branchComplaint b failure] } := by
  refine ⟨fun t dryRun s => ?_, fun before expression after s hname => ?_, ?_⟩
  · exact resolve_returns_or_ends hplain hre t s
  · obtain ⟨u, s₁, hbefore⟩ := e.placeholderPass_returns re before s
    exact ⟨u, s₁, hbefore, fun _ _ hcall => on_placeholderPass_of_error hname hbefore hcall⟩
  · intro before b after s s₁ failure s₂ hcondition hbefore hopens
    exact on_firstPassing_of_error after hcondition hbefore hopens

/-- An engine with a name that takes no arguments and a condition that always fails. -/
def faulty : Engine Unit where
  settings := .standard
  sigil := "_"
  repair := id
  fragments := none
  conditions := [("_dark", fun _ => .fail (.host "no light"))]
  placeholders := [("name", fun
    | [] => .done (.text "Ann")
    | _ => .fail (.host "too many arguments"))]
  actions := []
  callbacks := []

def faultyText : Text :=
  "|name| |name(1)| |nobody| if\x7b_dark = true\x7dA.ifOr\x7b_lit = true\x7dB.else\x7b\x7dC." ++
    "fi\x7b\x7d"

def faultyBranch : Branch := ⟨.ifAll, "_dark = true", "A."⟩

def faultyStart : State Unit := ⟨default, [], none, 0, [], ()⟩

theorem plain_faulty : faulty.Plain where
  limit := ⟨8, rfl⟩
  fragments := nofun
  italicTag := fun () => by decide
  boldTag := fun () => by decide

/-- Two placeholders and two branches fail, each in its own way, and the call returns what is left
of them. -/
theorem resolve_faultyText :
    faulty.Plain ∧ faulty.reentry.KeepsDepth ∧
      (∃ r, ((faulty.resolve faulty.reentry faultyText false).on faultyStart).1 = .ok r) ∧
      ((faulty.resolve faulty.reentry faultyText false).on faultyStart).1.toOption.map
        Resolution.output = some "Ann |name(1)| |nobody| C.".toList ∧
      (∃ v s₃, (faulty.placeholderPass faulty.reentry [.span "name(1)"]).on faultyStart =
        (.ok ("|name(1)|" ++ v), s₃)) ∧
      ((Node.firstPassing (faulty.passes faulty.reentry) [faultyBranch, ⟨.otherwise, [], "C."⟩]).on
        faultyStart).1 = .ok ("C." : Text) := by
  have hre : faulty.reentry.KeepsDepth := faulty.keepsDepth_reentryWithin reentryLimit
  obtain ⟨hreturns, hplaceholder, hbranch⟩ :=
    resolve_contains_failures faulty plain_faulty faulty.reentry hre
  refine ⟨plain_faulty, hre, ?_, by decide +kernel, ?_, ?_⟩
  · rcases hreturns faultyText false faultyStart with hok | ⟨_, hname, _⟩ | ⟨-, _, -, haction⟩
    · exact hok
    · cases hname
    · obtain ⟨name, action, payload, s₁, s₂, haction, -⟩ := haction
      cases haction
  · obtain ⟨u, s₁, hbefore, hcall⟩ := hplaceholder [] "name(1)" [] faultyStart (by decide)
    cases hbefore
    obtain ⟨v, s₃, -, hrun⟩ := hcall (.host "too many arguments") faultyStart rfl
    exact ⟨v, s₃, hrun⟩
  · have hnone : ((faulty.opens faulty.reentry (gateOf faultyBranch)).on
        faultyStart).1.toOption = none := by decide +kernel
    obtain ⟨⟨failure | answer, s₂⟩, hopens⟩ :
        ∃ out, (faulty.opens faulty.reentry (gateOf faultyBranch)).on faultyStart = out := ⟨_, rfl⟩
    · have hrun := hbranch [] faultyBranch [⟨.otherwise, [], "C."⟩] faultyStart faultyStart failure
        s₂ (by decide) rfl hopens
      exact congrArg Prod.fst hrun
    · rw [hopens] at hnone
      cases hnone

end Engine

end StoryScript
