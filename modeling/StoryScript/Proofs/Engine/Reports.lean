import StoryScript.Proofs.Engine.Invariant

/-!
# Reports are only written

No run reads what was reported before it, so it does the same whatever that was
(`Run.IgnoresReports`). Main statements: sequences, attempts and deeper runs ignore reports if their
parts do (`Run.IgnoresReports.bind`, `.attempt`, `.deeper`), and so do a program of the host if what
it may ask for does (`HostProgram.ignoresReports_run`), a resolution
(`Engine.ignoresReports_resolve`), and what an engine lets its hosts ask for
(`Engine.ignoresReports_reentryWithin`).
-/

namespace StoryScript

variable {σ α β : Type}

/-- The state with some reports before all that were made. -/
def State.behind (ns : List Notice) (s : State σ) : State σ := { s with notices := ns ++ s.notices }

namespace Run

/-- A run that comes to the same, and reports the same, whatever was reported before it. -/
def IgnoresReports (x : Run σ α) : Prop :=
  ∀ ns s, x.on (s.behind ns) = ((x.on s).1, (x.on s).2.behind ns)

theorem ignoresReports_pure (a : α) : IgnoresReports (pure a : Run σ α) := fun _ _ => rfl

theorem ignoresReports_ofExcept (x : Except Failure α) : IgnoresReports (ofExcept x : Run σ α) :=
  fun _ _ => rfl

theorem ignoresReports_change {f : State σ → State σ}
    (h : ∀ ns s, f (s.behind ns) = (f s).behind ns) : IgnoresReports (change f) :=
  fun ns s => Prod.ext rfl (h ns s)

theorem ignoresReports_notifyAll (ns : List Notice) :
    IgnoresReports (notifyAll ns : Run σ Unit) := by
  apply ignoresReports_change
  intro earlier s
  simp only [State.behind, List.append_assoc]

theorem ignoresReports_notify (n : Notice) : IgnoresReports (notify n : Run σ Unit) :=
  ignoresReports_notifyAll [n]

theorem ignoresReports_readFlag (flag : Text) : IgnoresReports (readFlag flag : Run σ Value) :=
  fun _ _ => rfl

theorem ignoresReports_applyFlags (data : Value) :
    IgnoresReports (applyFlags data : Run σ Unit) := by
  intro ns s
  rw [on_applyFlags, on_applyFlags]
  simp only [State.behind, List.append_assoc]

/-- A run that goes on with the state as it is, of which it does not look at the reports. -/
theorem ignoresReports_getState_bind {f : State σ → Run σ β}
    (hsame : ∀ ns s, f (s.behind ns) = f s) (hf : ∀ s, IgnoresReports (f s)) :
    IgnoresReports (getState >>= f) := by
  intro ns s
  show (f (s.behind ns)).on (s.behind ns) = _
  rw [hsame ns s]
  exact hf s ns s

theorem IgnoresReports.bind {x : Run σ α} {f : α → Run σ β} (hx : IgnoresReports x)
    (hf : ∀ a, IgnoresReports (f a)) : IgnoresReports (x >>= f) := by
  intro ns s
  rw [on_bind, on_bind, hx ns s]
  obtain ⟨failure | a, s'⟩ := x.on s
  · rfl
  · exact hf a ns s'

theorem IgnoresReports.attempt {x : Run σ α} (hx : IgnoresReports x) :
    IgnoresReports (attempt x) := by
  intro ns s
  rw [on_attempt, on_attempt, hx ns s]

theorem IgnoresReports.deeper {x : Run σ α} (hx : IgnoresReports x) :
    IgnoresReports (deeper x) := by
  intro ns s
  have hinside := hx ns { s with depth := s.depth + 1 }
  rw [on_deeper, on_deeper]
  simp only [State.behind] at hinside ⊢
  rw [hinside]

/-- From states that differ in what was reported only, such a run comes to the same answer. -/
theorem IgnoresReports.answer_eq {x : Run σ α} (hx : IgnoresReports x) (s : State σ)
    (ns : List Notice) : (x.on { s with notices := ns }).1 = (x.on s).1 := by
  have hbare (ns : List Notice) :
      (x.on { s with notices := ns }).1 = (x.on { s with notices := [] }).1 := by
    have h := hx ns { s with notices := [] }
    simp only [State.behind, List.append_nil] at h
    rw [h]
  exact (hbare ns).trans (hbare s.notices).symm

end Run

open Run

structure Reentry.IgnoresReports (re : Reentry σ) : Prop where
  resolve : ∀ t, (re.resolve t).IgnoresReports
  trigger : ∀ name arguments, (re.trigger name arguments).IgnoresReports

theorem HostProgram.ignoresReports_run {re : Reentry σ} (hre : re.IgnoresReports)
    (p : HostProgram σ α) : (p.run re).IgnoresReports := by
  induction p with
  | done a => exact ignoresReports_pure a
  | fail failure => exact ignoresReports_ofExcept _
  | readMemory next ih => exact ignoresReports_getState_bind (fun _ _ => rfl) fun s => ih s.memory
  | readFlag flag next ih => exact (ignoresReports_readFlag flag).bind ih
  | writeMemory _ next ih | listen _ _ next ih | unlisten _ _ next ih =>
    exact (ignoresReports_change fun _ _ => rfl).bind fun _ => ih
  | applyFlags data next ih => exact (ignoresReports_applyFlags data).bind fun _ => ih
  | resolve t next ih => exact (hre.resolve t).bind ih
  | trigger name arguments next ih => exact (hre.trigger name arguments).bind ih

/-! ## Conditions and branches -/

namespace Gate

variable {test : Text → Run σ Bool}

theorem ignoresReports_allHold (h : ∀ c, (test c).IgnoresReports) (cs : List Text) :
    (allHold test cs).IgnoresReports := by
  induction cs with
  | nil => exact ignoresReports_pure true
  | cons c cs ih =>
    apply (h c).bind
    intro holds
    cases holds with
    | true => exact ih
    | false => exact ignoresReports_pure false

theorem ignoresReports_anyHolds (h : ∀ c, (test c).IgnoresReports) (cs : List Text) :
    (anyHolds test cs).IgnoresReports := by
  induction cs with
  | nil => exact ignoresReports_pure false
  | cons c cs ih =>
    apply (h c).bind
    intro holds
    cases holds with
    | true => exact ignoresReports_pure true
    | false => exact ih

theorem ignoresReports_passes (h : ∀ c, (test c).IgnoresReports) (gate : Gate) :
    (gate.passes test).IgnoresReports := by
  have hall : (passesAll test gate.all).IgnoresReports := by
    rcases gate.all with _ | answer | t
    · exact ignoresReports_pure true
    · exact ignoresReports_pure answer
    · exact ignoresReports_allHold h _
  have hany : (passesAny test gate.any).IgnoresReports := by
    rcases gate.any with _ | answer | t
    · exact ignoresReports_pure true
    · exact ignoresReports_pure answer
    · exact ignoresReports_anyHolds h _
  apply hall.bind
  intro passes
  cases passes with
  | true => exact hany
  | false => exact ignoresReports_pure false

end Gate

namespace Node

variable {test : Branch → Run σ Bool}

theorem ignoresReports_firstPassing (h : ∀ b, (test b).IgnoresReports) (bs : List Branch) :
    (firstPassing test bs).IgnoresReports := by
  induction bs with
  | nil => exact ignoresReports_pure []
  | cons b bs ih =>
    apply (h b).bind
    intro passes
    cases passes with
    | true => exact ignoresReports_pure b.body
    | false => exact ih

theorem ignoresReports_render (h : ∀ b, (test b).IgnoresReports) (nodes : List Node) :
    (render test nodes).IgnoresReports := by
  induction nodes with
  | nil => exact ignoresReports_pure []
  | cons n nodes ih =>
    cases n with
    | literal t => exact ih.bind fun rest => ignoresReports_pure (t ++ rest)
    | chain c =>
      exact (ignoresReports_firstPassing h c.branches).bind fun shown =>
        ih.bind fun rest => ignoresReports_pure (shown ++ rest)

end Node

namespace Engine

variable {e : Engine σ} {re : Reentry σ}

theorem ignoresReports_conditionValue (hre : re.IgnoresReports) (key : Text) :
    (e.conditionValue re key).IgnoresReports := by
  unfold conditionValue
  cases Text.after? e.sigil key with
  | none => exact ignoresReports_readFlag key
  | some rest =>
    cases Reference.read? e.sigil key with
    | none => exact ignoresReports_ofExcept _
    | some r =>
      exact (ignoresReports_ofExcept _).bind fun getter =>
        HostProgram.ignoresReports_run hre (getter r.arguments)

theorem ignoresReports_holds (hre : re.IgnoresReports) (condition : Text) :
    (e.holds re condition).IgnoresReports := by
  unfold Engine.holds
  cases Comparison.read? e.sigil (Text.trim condition) with
  | none => exact (ignoresReports_notify _).bind fun _ => ignoresReports_pure false
  | some c =>
    apply (ignoresReports_conditionValue hre c.key).bind
    intro actual
    apply (ignoresReports_ofExcept _).bind
    intro answer
    cases answer with
    | none => exact (ignoresReports_notify _).bind fun _ => ignoresReports_pure false
    | some b => exact ignoresReports_pure b

theorem ignoresReports_passes (hre : re.IgnoresReports) (b : Branch) :
    (e.passes re b).IgnoresReports := by
  unfold Engine.passes
  split
  · exact ignoresReports_pure true
  · apply (Gate.ignoresReports_passes (ignoresReports_holds hre) (gateOf b)).attempt.bind
    intro answer
    cases answer with
    | ok passes => exact ignoresReports_pure passes
    | error failure => exact (ignoresReports_notify _).bind fun _ => ignoresReports_pure false

theorem ignoresReports_resolveBranches (hre : re.IgnoresReports) (t : Text) :
    (e.resolveBranches re t).IgnoresReports :=
  (ignoresReports_notifyAll _).bind fun _ => Node.ignoresReports_render (ignoresReports_passes hre) _

/-! ## Placeholders and templates -/

theorem ignoresReports_callPlaceholder (hre : re.IgnoresReports) (expression : Text) :
    (e.callPlaceholder re expression).IgnoresReports := by
  unfold callPlaceholder
  cases Reference.read? [] expression with
  | none => exact ignoresReports_ofExcept _
  | some r =>
    apply (ignoresReports_ofExcept _).bind
    intro getter
    exact (HostProgram.ignoresReports_run hre _).bind fun v => ignoresReports_pure v.render

theorem ignoresReports_substitutePlaceholder (hre : re.IgnoresReports) (expression : Text) :
    (e.substitutePlaceholder re expression).IgnoresReports := by
  apply (ignoresReports_callPlaceholder hre expression).attempt.bind
  intro answer
  cases answer with
  | ok t => exact ignoresReports_pure t
  | error failure => exact (ignoresReports_notify _).bind fun _ => ignoresReports_pure _

theorem ignoresReports_placeholderPass (hre : re.IgnoresReports) (cuts : List Cut) :
    (e.placeholderPass re cuts).IgnoresReports := by
  induction cuts with
  | nil => exact ignoresReports_pure []
  | cons cut cuts ih =>
    cases cut with
    | plain t => exact ih.bind fun rest => ignoresReports_pure (t ++ rest)
    | span inner =>
      rw [placeholderPass]
      split
      · exact (ignoresReports_pure _).bind fun t => ih.bind fun rest => ignoresReports_pure _
      · exact (ignoresReports_substitutePlaceholder hre inner).bind fun t =>
          ih.bind fun rest => ignoresReports_pure (t ++ rest)

theorem ignoresReports_rendered (hre : re.IgnoresReports) (t : Text) :
    (e.rendered re t).IgnoresReports :=
  (ignoresReports_placeholderPass hre _).bind (ignoresReports_resolveBranches hre)

variable {nested : Text → Run σ Resolution}

theorem ignoresReports_substituteTemplate (hnested : ∀ t, (nested t).IgnoresReports)
    (reference : Text) : (e.substituteTemplate nested reference).IgnoresReports := by
  apply ignoresReports_getState_bind (fun _ _ => rfl)
  intro s
  apply (ignoresReports_ofExcept _).bind
  intro tooDeep
  cases tooDeep with
  | true => exact (ignoresReports_notify _).bind fun _ => ignoresReports_pure none
  | false =>
    cases e.loadFragment s.flags.current reference with
    | error failure =>
      cases hstory : failure.isOfStory with
      | true =>
        simp only [hstory, if_true]
        exact (ignoresReports_notify _).bind fun _ => ignoresReports_pure none
      | false =>
        simp only [hstory, Bool.false_eq_true, if_false]
        exact ignoresReports_ofExcept _
    | ok fragment =>
      cases fragment with
      | text t => exact (hnested t).deeper.bind fun r => ignoresReports_pure (some r)
      | _ => exact ignoresReports_ofExcept _

theorem ignoresReports_templatePass (hnested : ∀ t, (nested t).IgnoresReports) (output : Text)
    (found : ActionMap) (cuts : List Cut) :
    (e.templatePass nested output found cuts).IgnoresReports := by
  induction cuts generalizing output found with
  | nil => exact ignoresReports_pure _
  | cons cut cuts ih =>
    cases cut with
    | plain t => exact ih _ _
    | span inner =>
      apply (ignoresReports_substituteTemplate hnested ('$' :: inner)).bind
      intro substitute
      cases substitute with
      | none => exact ih _ _
      | some r =>
        dsimp only
        split
        · exact ignoresReports_pure _
        · exact ih _ _

/-! ## Blocks -/

theorem ignoresReports_runInvocations (hre : re.IgnoresReports) (name : Text)
    (action : ActionEntry σ) (payloads : List Value) :
    (runInvocations re name action payloads).IgnoresReports := by
  induction payloads with
  | nil => exact ignoresReports_pure ()
  | cons payload payloads ih =>
    apply (ignoresReports_notify _).bind
    intro _
    exact (HostProgram.ignoresReports_run hre _).bind fun _ => ih

theorem ignoresReports_runNamed (hre : re.IgnoresReports) (m : ActionMap) (skipDelayed : Bool)
    (names : List Text) : (e.runNamed re m skipDelayed names).IgnoresReports := by
  induction names with
  | nil => exact ignoresReports_pure ()
  | cons name names ih =>
    rw [runNamed]
    split
    · cases entry .action e.actions name with
      | error failure => exact (ignoresReports_notify _).bind fun _ => ih
      | ok action =>
        dsimp only
        split
        · exact (ignoresReports_runInvocations hre _ _ _).bind fun _ => ih
        · exact ih
    · exact ih

variable (dryRun : Bool)

theorem ignoresReports_extractPieces (hre : re.IgnoresReports) (output : Text) (found : ActionMap)
    (pieces : List Piece) : (e.extractPieces re dryRun output found pieces).IgnoresReports := by
  induction pieces generalizing output found with
  | nil => exact ignoresReports_pure _
  | cons piece pieces ih =>
    cases piece with
    | plain t => exact ih _ _
    | unmatched rest => exact (ignoresReports_notify _).bind fun _ => ignoresReports_pure _
    | group inner =>
      rw [extractPieces_group]
      cases e.readBlock (Piece.group inner).written with
      | error problem => exact (ignoresReports_notify _).bind fun _ => ih _ _
      | ok entries =>
        dsimp only
        split
        · exact ignoresReports_pure _
        · split
          · exact (ignoresReports_runNamed hre _ _ _).bind fun _ => ih _ _
          · exact ih _ _

theorem ignoresReports_finish (hre : re.IgnoresReports) (t : Text) (found : ActionMap) :
    (e.finish re dryRun t found).IgnoresReports := by
  apply (ignoresReports_extractPieces dryRun hre _ _ _).bind
  intro extraction
  split
  · exact ignoresReports_pure _
  · exact ignoresReports_getState_bind (fun _ _ => rfl) fun _ =>
      (ignoresReports_ofExcept _).bind fun _ => ignoresReports_pure _

/-! ## Resolutions and calls -/

theorem ignoresReports_resolveOver (hre : re.IgnoresReports)
    (hnested : ∀ t, (nested t).IgnoresReports) (t : Text) :
    (e.resolveOver re dryRun nested t).IgnoresReports := by
  apply (ignoresReports_rendered hre t).bind
  intro u
  apply (ignoresReports_templatePass hnested _ _ _).bind
  intro substitution
  cases substitution with
  | redirected r => exact ignoresReports_pure r
  | text u found => exact ignoresReports_finish dryRun hre u found

theorem ignoresReports_resolveWithin (hre : re.IgnoresReports) (levels : Nat) (t : Text) :
    (e.resolveWithin re dryRun levels t).IgnoresReports := by
  induction levels generalizing t with
  | zero => exact ignoresReports_ofExcept _
  | succ levels ih =>
    rw [resolveWithin_succ]
    exact ignoresReports_resolveOver dryRun hre ih t

theorem ignoresReports_runCallbacks (hre : re.IgnoresReports) (arguments : List Value)
    (names : List Text) : (e.runCallbacks re arguments names).IgnoresReports := by
  induction names with
  | nil => exact ignoresReports_pure true
  | cons name names ih =>
    rw [runCallbacks]
    cases e.callbacks.get? name with
    | none => exact ih
    | some callback =>
      apply (HostProgram.ignoresReports_run hre (callback arguments)).bind
      intro propagation
      cases propagation with
      | stop => exact ignoresReports_pure false
      | goOn => exact ih

theorem ignoresReports_trigger (hre : re.IgnoresReports) (name : Text) (arguments : List Value) :
    (e.trigger re name arguments).IgnoresReports :=
  ignoresReports_getState_bind (fun _ _ => rfl) fun s =>
    ignoresReports_runCallbacks hre arguments (s.bus.listeners name)

theorem ignoresReports_resolve (hre : re.IgnoresReports) (t : Text) :
    (e.resolve re t dryRun).IgnoresReports := by
  apply (ignoresReports_trigger hre resolveBefore [.text t]).bind
  intro goesOn
  cases goesOn with
  | false => exact ignoresReports_pure _
  | true =>
    apply (ignoresReports_resolveWithin dryRun hre (levels e.settings + 1) t).bind
    intro r
    have hdelivered : (getState >>= fun s : State σ =>
        pure (e.delivered dryRun s.memory r)).IgnoresReports :=
      ignoresReports_getState_bind (fun _ _ => rfl) fun _ => ignoresReports_pure _
    cases r.redirected with
    | true => exact hdelivered
    | false => exact (ignoresReports_change fun _ _ => rfl).bind fun _ => hdelivered

theorem ignoresReports_reentryWithin (e : Engine σ) (levels : Nat) :
    (e.reentryWithin levels).IgnoresReports := by
  induction levels with
  | zero =>
    exact ⟨fun _ => ignoresReports_ofExcept _, fun _ _ => ignoresReports_ofExcept _⟩
  | succ levels ih => exact ⟨ignoresReports_resolve false ih, ignoresReports_trigger ih⟩

end Engine

end StoryScript
