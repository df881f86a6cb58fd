import StoryScript.Engine.Resolve
import StoryScript.Proofs.Host.Invariant

/-!
# What an engine keeps of the state

One level of a resolution is what it renders, the templates in that, and what it makes of the text
behind them (`Engine.resolveOver`). Main statements: a property of states that the hosts of an
engine keep at every depth of templates, and that does not hang on reports, is kept by every pass
of a resolution, by a level of it if the level below keeps it (`Engine.Upholds.keeps_resolveOver`),
and by a whole resolution (`Engine.Upholds.keeps_resolveWithin`).
-/

namespace StoryScript

open Run

variable {σ α : Type}

/-- The action that a report says is run, with its payload. -/
def Notice.invocation? : Notice → Option (Text × Value)
  | .actionRun name payload => some (name, payload)
  | _ => none

theorem Node.invocation?_of_mem_reports {isOpen : Bool} {tokens : List Token} {n : Notice}
    (h : n ∈ reports isOpen tokens) : n.invocation? = none := by
  fun_induction reports isOpen tokens with
  | case1 =>
    obtain rfl := List.mem_singleton.1 h
    rfl
  | case2 => cases h
  | case3 isOpen t rest ih => exact ih h
  | case4 condition position rest ih => exact ih h
  | case5 condition position rest ih =>
    rcases List.mem_cons.1 h with rfl | h
    · rfl
    · exact ih h
  | case6 isOpen kind condition position rest ih => exact ih h

variable {holds : State σ → Prop} {fails : Failure → State σ → Prop}

namespace Gate

variable {test : Text → Run σ Bool}

theorem keeps_allHold (h : ∀ c, Keeps holds fails (test c)) (cs : List Text) :
    Keeps holds fails (allHold test cs) := by
  induction cs with
  | nil => exact keeps_pure true
  | cons c cs ih =>
    apply (h c).bind
    intro holds
    cases holds with
    | true => exact ih
    | false => exact keeps_pure false

theorem keeps_anyHolds (h : ∀ c, Keeps holds fails (test c)) (cs : List Text) :
    Keeps holds fails (anyHolds test cs) := by
  induction cs with
  | nil => exact keeps_pure false
  | cons c cs ih =>
    apply (h c).bind
    intro holds
    cases holds with
    | true => exact keeps_pure true
    | false => exact ih

theorem keeps_passes (h : ∀ c, Keeps holds fails (test c)) (gate : Gate) :
    Keeps holds fails (gate.passes test) := by
  have hall : Keeps holds fails (passesAll test gate.all) := by
    cases gate.all with
    | none => exact keeps_pure true
    | some clause =>
      cases clause with
      | fixed answer => exact keeps_pure answer
      | conditions t => exact keeps_allHold h _
  have hany : Keeps holds fails (passesAny test gate.any) := by
    cases gate.any with
    | none => exact keeps_pure true
    | some clause =>
      cases clause with
      | fixed answer => exact keeps_pure answer
      | conditions t => exact keeps_anyHolds h _
  apply hall.bind
  intro passes
  cases passes with
  | true => exact hany
  | false => exact keeps_pure false

end Gate

namespace Node

variable {test : Branch → Run σ Bool}

theorem keeps_firstPassing (h : ∀ b, Keeps holds fails (test b)) (bs : List Branch) :
    Keeps holds fails (firstPassing test bs) := by
  induction bs with
  | nil => exact keeps_pure []
  | cons b bs ih =>
    apply (h b).bind
    intro passes
    cases passes with
    | true => exact keeps_pure b.body
    | false => exact ih

theorem keeps_render (h : ∀ b, Keeps holds fails (test b)) (nodes : List Node) :
    Keeps holds fails (render test nodes) := by
  induction nodes with
  | nil => exact keeps_pure []
  | cons n nodes ih =>
    cases n with
    | literal t => exact ih.bind fun rest => keeps_pure (t ++ rest)
    | chain c =>
      exact (keeps_firstPassing h c.branches).bind fun shown =>
        ih.bind fun rest => keeps_pure (shown ++ rest)

end Node

namespace Engine

theorem keeps_entry_bind {ε : Type} {kind : EntryKind} {entries : Table Text ε} {name : Text}
    {f : ε → Run σ α} (hfails : ∀ s, fails (.unregistered kind name) s)
    (hf : ∀ entry, entries.get? name = some entry → Keeps holds fails (f entry)) :
    Keeps holds fails (Run.ofExcept (entry kind entries name) >>= f) := by
  unfold entry
  cases hentry : entries.get? name with
  | some entry => exact fun s hs => hf entry hentry s hs
  | none =>
    intro s hs
    refine ⟨hs, fun failure hfailure => ?_⟩
    cases hfailure
    exact hfails s

variable (e : Engine σ) (re : Reentry σ) (dryRun : Bool)

theorem isOfStory_of_loadFragment {e : Engine σ} {current : Key} {reference : Text}
    {failure : Failure} (h : e.loadFragment current reference = .error failure) :
    failure.isOfStory := by
  unfold loadFragment at h
  cases hlibrary : e.fragments with
  | none =>
    rw [hlibrary] at h
    cases h
    rfl
  | some library =>
    rw [hlibrary] at h
    exact FragmentLibrary.isOfStory_of_load h

/-- A text with its code spans escaped, its placeholders substituted and its branches chosen. -/
def rendered (t : Text) : Run σ Text := do
  resolveBranches e re (← resolvePlaceholders e re (resolveCode e t))

/-- What a text without templates comes to, beside the actions that its templates asked for. -/
def finish (t : Text) (found : ActionMap) : Run σ Resolution := do
  let extraction ← extract e re t dryRun
  if extraction.redirected then return .redirect extraction.actions
  else
    let (speaker, t) := Speaker.split extraction.output
    let output ← Run.ofExcept (resolveStyles e (← getState).memory t)
    return ⟨output, found.insertAll extraction.actions.payloads, speaker, false⟩

/-- One level of a resolution, where the fragments of templates are resolved in a given way. -/
def resolveOver (nested : Text → Run σ Resolution) (t : Text) : Run σ Resolution := do
  match ← templatePass e nested [] .empty (templateMarks.cut (← rendered e re t)) with
  | .redirected r => return r
  | .text t found => finish e re dryRun t found

theorem resolveWithin_succ (levels : Nat) (t : Text) :
    e.resolveWithin re dryRun (levels + 1) t =
      e.resolveOver re dryRun (e.resolveWithin re dryRun levels) t := by
  rw [resolveOver, rendered, bind_assoc]
  rfl

/-- The hosts of an engine keep a property of the state at every depth of templates. Reports do not
matter to the property, it is carried into templates and out of them, and actions fail only in ways
that are allowed. -/
structure Upholds (holds : Nat → State σ → Prop) (fails : Failure → State σ → Prop) : Prop where
  notices : ∀ {d s} {ns : List Notice}, holds d s → (∀ n ∈ ns, n.invocation? = none) →
    holds d { s with notices := s.notices ++ ns }
  enters : ∀ {d s}, holds d s → holds (d + 1) { s with depth := s.depth + 1 }
  leaves : ∀ {d s}, holds (d + 1) s → holds d { s with depth := s.depth - 1 }
  failsOutside : ∀ {failure s}, fails failure s → fails failure { s with depth := s.depth - 1 }
  condition : ∀ {d name getter}, e.conditions.get? name = some getter → ∀ arguments,
    Keeps (holds d) (fun _ _ => True) ((getter arguments).run re)
  placeholder : ∀ {d name getter}, e.placeholders.get? name = some getter → ∀ arguments,
    Keeps (holds d) (fun _ _ => True) ((getter arguments).run re)
  action : dryRun = false → ∀ {d name action}, e.actions.get? name = some action → ∀ payload,
    Keeps (holds d) fails (do notify (.actionRun name payload); (action.action payload).run re)

/-- The failures that the settings and the fragments of an engine can lead to are allowed. -/
structure Allows (fails : Failure → State σ → Prop) : Prop where
  limit : ∀ {depth failure} s, reaches depth e.settings.maxTemplateDepth = .error failure →
    fails failure s
  fragment : ∀ {current reference fragment} s, e.loadFragment current reference = .ok fragment →
    fragment.isText = false → fails (.mismatch .fragment) s
  styles : ∀ {memory t failure} s, e.resolveStyles memory t = .error failure → fails failure s

theorem allows_all : e.Allows fun _ _ => True :=
  ⟨fun _ _ => trivial, fun _ _ _ => trivial, fun _ _ => trivial⟩

variable {e re dryRun} {holds : Nat → State σ → Prop}

namespace Upholds

theorem keeps_notifyAll (h : e.Upholds re dryRun holds fails) {d : Nat} {ns : List Notice}
    (hns : ∀ n ∈ ns, n.invocation? = none) : Keeps (holds d) fails (notifyAll ns) :=
  keeps_change fun _ hs => h.notices hs hns

theorem keeps_notify (h : e.Upholds re dryRun holds fails) {d : Nat} {n : Notice}
    (hn : n.invocation? = none) : Keeps (holds d) fails (notify n) :=
  h.keeps_notifyAll (List.forall_mem_singleton.2 hn)


/-! ## Conditions and branches -/

theorem keeps_conditionValue (h : e.Upholds re dryRun holds fails) {d : Nat} (key : Text) :
    Keeps (holds d) (fun _ _ => True) (e.conditionValue re key) := by
  unfold conditionValue
  cases Text.after? e.sigil key with
  | none => exact fun s hs => ⟨hs, fun _ _ => trivial⟩
  | some rest =>
    cases Reference.read? e.sigil key with
    | none => exact keeps_ofExcept fun _ _ _ => trivial
    | some r => exact keeps_entry_bind (fun _ => trivial) fun _ hgetter => h.condition hgetter _

theorem keeps_holds (h : e.Upholds re dryRun holds fails) {d : Nat} (condition : Text) :
    Keeps (holds d) (fun _ _ => True) (e.holds re condition) := by
  unfold Engine.holds
  cases Comparison.read? e.sigil (Text.trim condition) with
  | none => exact (h.keeps_notify rfl).weaken (fun _ _ _ => trivial) |>.bind fun _ => keeps_pure _
  | some c =>
    apply (h.keeps_conditionValue c.key).bind
    intro actual
    apply (keeps_ofExcept fun _ _ _ => trivial).bind
    intro answer
    cases answer with
    | none => exact (h.keeps_notify rfl).weaken (fun _ _ _ => trivial) |>.bind fun _ => keeps_pure _
    | some b => exact keeps_pure b

theorem keeps_passes (h : e.Upholds re dryRun holds fails) {d : Nat} (b : Branch) :
    Keeps (holds d) fails (e.passes re b) := by
  unfold Engine.passes
  split
  · exact keeps_pure true
  · apply (Gate.keeps_passes (h.keeps_holds) (gateOf b)).attempt.bind
    intro answer
    cases answer with
    | ok passes => exact keeps_pure passes
    | error failure =>
      exact (h.keeps_notify (by split <;> rfl)).bind fun _ => keeps_pure false

theorem keeps_resolveBranches (h : e.Upholds re dryRun holds fails) {d : Nat} (t : Text) :
    Keeps (holds d) fails (e.resolveBranches re t) :=
  (h.keeps_notifyAll fun _ => Node.invocation?_of_mem_reports).bind fun _ =>
    Node.keeps_render h.keeps_passes _

/-! ## Placeholders -/

theorem keeps_callPlaceholder (h : e.Upholds re dryRun holds fails) {d : Nat} (expression : Text) :
    Keeps (holds d) (fun _ _ => True) (e.callPlaceholder re expression) := by
  unfold callPlaceholder
  cases Reference.read? [] expression with
  | none => exact keeps_ofExcept fun _ _ _ => trivial
  | some r =>
    exact keeps_entry_bind (fun _ => trivial) fun _ hgetter =>
      (h.placeholder hgetter _).bind fun v => keeps_pure v.render

theorem keeps_substitutePlaceholder (h : e.Upholds re dryRun holds fails) {d : Nat}
    (expression : Text) : Keeps (holds d) fails (e.substitutePlaceholder re expression) := by
  apply (h.keeps_callPlaceholder expression).attempt.bind
  intro answer
  cases answer with
  | ok t => exact keeps_pure t
  | error failure => exact (h.keeps_notify (by split <;> rfl)).bind fun _ => keeps_pure _

theorem keeps_placeholderPass (h : e.Upholds re dryRun holds fails) {d : Nat} (cuts : List Cut) :
    Keeps (holds d) fails (e.placeholderPass re cuts) := by
  induction cuts with
  | nil => exact keeps_pure []
  | cons cut cuts ih =>
    cases cut with
    | plain t => exact ih.bind fun rest => keeps_pure (t ++ rest)
    | span inner =>
      rw [placeholderPass]
      split
      · exact (keeps_pure _).bind fun t => ih.bind fun rest => keeps_pure (t ++ rest)
      · exact (h.keeps_substitutePlaceholder inner).bind fun t =>
          ih.bind fun rest => keeps_pure (t ++ rest)

theorem keeps_rendered (h : e.Upholds re dryRun holds fails) {d : Nat} (t : Text) :
    Keeps (holds d) fails (e.rendered re t) :=
  (h.keeps_placeholderPass _).bind h.keeps_resolveBranches

/-! ## Templates -/

theorem keeps_substituteTemplate (h : e.Upholds re dryRun holds fails) (hallows : e.Allows fails)
    {d : Nat} {nested : Text → Run σ Resolution}
    (hnested : ∀ t, Keeps (holds (d + 1)) fails (nested t)) (reference : Text) :
    Keeps (holds d) fails (e.substituteTemplate nested reference) := by
  apply keeps_getState_bind
  intro s hs
  have hreaches : Keeps (holds d) fails
      (Run.ofExcept (reaches s.depth e.settings.maxTemplateDepth)) :=
    keeps_ofExcept fun _ s' hfailure => hallows.limit s' hfailure
  refine hreaches.bind (fun tooDeep => ?_) s hs
  cases tooDeep with
  | true => exact (h.keeps_notify rfl).bind fun _ => keeps_pure none
  | false =>
    cases hload : e.loadFragment s.flags.current reference with
    | error failure =>
      simp only [isOfStory_of_loadFragment hload, if_true]
      exact (h.keeps_notify rfl).bind fun _ => keeps_pure none
    | ok fragment =>
      cases fragment with
      | text t =>
        exact ((hnested t).deeper (fun _ => h.enters) (fun _ => h.leaves)
          fun _ _ => h.failsOutside).bind fun r => keeps_pure (some r)
      | _ =>
        refine keeps_ofExcept fun failure s' hfailure => ?_
        cases hfailure
        exact hallows.fragment s' hload rfl

theorem keeps_templatePass (h : e.Upholds re dryRun holds fails) (hallows : e.Allows fails)
    {d : Nat} {nested : Text → Run σ Resolution}
    (hnested : ∀ t, Keeps (holds (d + 1)) fails (nested t)) (output : Text) (found : ActionMap)
    (cuts : List Cut) :
    Keeps (holds d) fails (e.templatePass nested output found cuts) := by
  induction cuts generalizing output found with
  | nil => exact keeps_pure _
  | cons cut cuts ih =>
    cases cut with
    | plain t => exact ih _ _
    | span inner =>
      apply (h.keeps_substituteTemplate hallows hnested ('$' :: inner)).bind
      intro substitute
      cases substitute with
      | none => exact ih _ _
      | some r =>
        dsimp only
        split
        · exact keeps_pure _
        · exact ih _ _

/-! ## Blocks -/

theorem keeps_runInvocations (h : e.Upholds re dryRun holds fails) (hreal : dryRun = false)
    {d : Nat} {name : Text} {action : ActionEntry σ} (haction : e.actions.get? name = some action)
    (payloads : List Value) : Keeps (holds d) fails (runInvocations re name action payloads) := by
  induction payloads with
  | nil => exact keeps_pure ()
  | cons payload payloads ih =>
    rw [runInvocations, ← bind_assoc]
    exact (h.action hreal haction payload).bind fun _ => ih

theorem keeps_runNamed (h : e.Upholds re dryRun holds fails) (hreal : dryRun = false) {d : Nat}
    (m : ActionMap) (skipDelayed : Bool) (names : List Text) :
    Keeps (holds d) fails (e.runNamed re m skipDelayed names) := by
  induction names with
  | nil => exact keeps_pure ()
  | cons name names ih =>
    rw [runNamed]
    split
    · unfold entry
      cases haction : e.actions.get? name with
      | none => exact (h.keeps_notify rfl).bind fun _ => ih
      | some action =>
        dsimp only
        split
        · exact (h.keeps_runInvocations hreal haction _).bind fun _ => ih
        · exact ih
    · exact ih

theorem keeps_extractPieces (h : e.Upholds re dryRun holds fails) {d : Nat} (output : Text)
    (found : ActionMap) (pieces : List Piece) :
    Keeps (holds d) fails (e.extractPieces re dryRun output found pieces) := by
  induction pieces generalizing output found with
  | nil => exact keeps_pure _
  | cons piece pieces ih =>
    cases piece with
    | plain t => exact ih _ _
    | unmatched rest => exact (h.keeps_notify rfl).bind fun _ => keeps_pure _
    | group inner =>
      rw [extractPieces_group]
      cases e.readBlock (Piece.group inner).written with
      | error problem => exact (h.keeps_notify rfl).bind fun _ => ih _ _
      | ok entries =>
        dsimp only
        split
        · exact keeps_pure _
        · split
          · next hreal =>
            exact (h.keeps_runNamed (by simpa using hreal) _ _ _).bind fun _ => ih _ _
          · exact ih _ _

theorem keeps_finish (h : e.Upholds re dryRun holds fails) (hallows : e.Allows fails) {d : Nat}
    (t : Text) (found : ActionMap) : Keeps (holds d) fails (e.finish re dryRun t found) := by
  apply (h.keeps_extractPieces _ _ _).bind
  intro extraction
  split
  · exact keeps_pure _
  · apply keeps_getState_bind
    intro s
    exact (keeps_ofExcept fun _ s' hfailure => hallows.styles s' hfailure).bind
      (fun _ => keeps_pure _) s

/-! ## Resolutions -/

theorem keeps_resolveOver (h : e.Upholds re dryRun holds fails) (hallows : e.Allows fails)
    {d : Nat} {nested : Text → Run σ Resolution}
    (hnested : ∀ t, Keeps (holds (d + 1)) fails (nested t)) (t : Text) :
    Keeps (holds d) fails (e.resolveOver re dryRun nested t) := by
  apply (h.keeps_rendered t).bind
  intro u
  apply (h.keeps_templatePass hallows hnested _ _ _).bind
  intro substitution
  cases substitution with
  | redirected r => exact keeps_pure r
  | text u found => exact h.keeps_finish hallows u found

theorem keeps_resolveWithin (h : e.Upholds re dryRun holds fails) (hallows : e.Allows fails)
    (hexhausted : ∀ s, fails .exhausted s) {d : Nat} (levels : Nat) (t : Text) :
    Keeps (holds d) fails (e.resolveWithin re dryRun levels t) := by
  induction levels generalizing d t with
  | zero =>
    refine keeps_ofExcept fun failure s hfailure => ?_
    cases hfailure
    exact hexhausted s
  | succ levels ih =>
    rw [resolveWithin_succ]
    exact h.keeps_resolveOver hallows ih t

end Upholds

/-! ## Calls -/

/-- Without callbacks before a text, a call is the resolution of the text and then a note of who is
talking. -/
theorem on_resolve_of_listeners_eq_nil (dryRun : Bool) (t : Text) {s : State σ}
    (h : s.bus.listeners resolveBefore = []) :
    (e.resolve re t dryRun).on s =
      match (e.resolveWithin re dryRun (levels e.settings + 1) t).on s with
      | (.ok r, s') =>
        (.ok (e.delivered dryRun s'.memory r),
          if r.redirected then s' else { s' with talking := r.speaker })
      | (.error failure, s') => (.error failure, s') := by
  have htrigger : (e.trigger re resolveBefore [.text t]).on s = (.ok true, s) := by
    show (e.runCallbacks re [.text t] (s.bus.listeners resolveBefore)).on s = _
    rw [h]
    rfl
  rw [resolve, on_bind, htrigger]
  dsimp only
  rw [if_pos rfl, on_bind]
  obtain ⟨failure | r, s'⟩ := (e.resolveWithin re dryRun (levels e.settings + 1) t).on s
  · rfl
  · cases hr : r.redirected <;> simp only [hr] <;> rfl

/-! ## The failures of actions -/

/-- Whether a run ends where an action fails, that is with the failure of an action right after it
was reported to be run, and in the state that the action left but for the depth of templates. -/
def ActionFailed (e : Engine σ) (re : Reentry σ) (failure : Failure) (s : State σ) : Prop :=
  ∃ name action payload s₁ s₂, e.actions.get? name = some action ∧
    s₁.notices.getLast? = some (.actionRun name payload) ∧
      ((action.action payload).run re).on s₁ = (.error failure, s₂) ∧
        s = { s₂ with depth := s.depth }

/-- Whether what came of a run is the failure of an action. -/
def EndsInAction (e : Engine σ) (re : Reentry σ) (out : Except Failure α × State σ) : Prop :=
  ∃ failure, out.1 = .error failure ∧ e.ActionFailed re failure out.2

theorem upholds_actionFailed (e : Engine σ) (re : Reentry σ) (dryRun : Bool) :
    e.Upholds re dryRun (fun _ _ => True) fun failure s =>
      dryRun = false ∧ e.ActionFailed re failure s where
  notices _ _ := trivial
  enters _ := trivial
  leaves _ := trivial
  failsOutside := by
    rintro failure s ⟨hreal, name, action, payload, s₁, s₂, haction, hlast, hrun, hs⟩
    refine ⟨hreal, name, action, payload, s₁, s₂, haction, hlast, hrun, ?_⟩
    rw [hs]
  condition _ _ _ _ := ⟨trivial, fun _ _ => trivial⟩
  placeholder _ _ _ _ := ⟨trivial, fun _ _ => trivial⟩
  action hreal _ name action haction payload s _ :=
    ⟨trivial, fun _ hfailure => ⟨hreal, name, action, payload,
      { s with notices := s.notices ++ [.actionRun name payload] }, _, haction,
      List.getLast?_concat, Prod.ext hfailure rfl, rfl⟩⟩

end Engine

end StoryScript
