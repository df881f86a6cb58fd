import StoryScript.Proofs.Action.Merging
import StoryScript.Proofs.Engine.Invariant

/-!
# The calls that a run makes

Getting from a state to another, actions are called in turn, and between the calls some other steps
may be taken (`Engine.MakesAmong`): reports, where a map of actions is run (`Engine.Makes`). What is
called for a map is told by the names that are dispatched and their payloads alone
(`Engine.dispatched`). Main statements: running a map makes these calls if it returns
(`Engine.makes_runNamed`), and it returns if its actions do (`Engine.HostsReturn.calls_runNamed`).
-/

namespace StoryScript

open Run

variable {σ : Type}

/-- A state that is another but for some more reports, none of which is of an action that is run. -/
def State.Reports (s s' : State σ) : Prop :=
  ∃ logged, s' = { s with notices := s.notices ++ logged } ∧ ∀ n ∈ logged, n.invocation? = none

namespace State.Reports

theorem refl (s : State σ) : s.Reports s := ⟨[], by simp, by simp⟩

theorem trans {s s' s'' : State σ} (h : s.Reports s') (h' : s'.Reports s'') : s.Reports s'' := by
  obtain ⟨logged, rfl, hlogged⟩ := h
  obtain ⟨logged', rfl, hlogged'⟩ := h'
  exact ⟨logged ++ logged', by simp, List.forall_mem_append.2 ⟨hlogged, hlogged'⟩⟩

theorem append (s : State σ) {ns : List Notice} (h : ∀ n ∈ ns, n.invocation? = none) :
    s.Reports { s with notices := s.notices ++ ns } :=
  ⟨ns, rfl, h⟩

end State.Reports

namespace Engine

variable {e : Engine σ} {re : Reentry σ} {ready : State σ → Prop} {m : ActionMap}
  {between : State σ → State σ → Prop} {calls calls' : List (Text × Value)} {s s₁ s' : State σ}

/-! ## Calls in turn -/

/-- Getting from a state to another by calling actions in turn, each of which returns. Between the
calls there may be other steps. What the actions do themselves is not listed. -/
inductive MakesAmong (e : Engine σ) (re : Reentry σ) (between : State σ → State σ → Prop) :
    State σ → List (Text × Value) → State σ → Prop
  | nothing (s : State σ) : MakesAmong e re between s [] s
  | aside {s s₁ s' : State σ} {calls : List (Text × Value)} (hbetween : between s s₁)
      (h : MakesAmong e re between s₁ calls s') : MakesAmong e re between s calls s'
  | call {s s₁ s' : State σ} {name : Text} {payload : Value} {action : ActionEntry σ}
      {calls : List (Text × Value)} (haction : e.actions.get? name = some action)
      (hrun : ((action.action payload).run re).on
        { s with notices := s.notices ++ [.actionRun name payload] } = (.ok (), s₁))
      (h : MakesAmong e re between s₁ calls s') :
      MakesAmong e re between s ((name, payload) :: calls) s'

/-- Getting from a state to another by calls with nothing but reports between them. -/
abbrev Makes (e : Engine σ) (re : Reentry σ) :
    State σ → List (Text × Value) → State σ → Prop :=
  e.MakesAmong re State.Reports

namespace MakesAmong

theorem append (h : e.MakesAmong re between s calls s₁)
    (h' : e.MakesAmong re between s₁ calls' s') :
    e.MakesAmong re between s (calls ++ calls') s' := by
  induction h with
  | nothing => exact h'
  | aside hbetween _ ih => exact .aside hbetween (ih h')
  | call haction hrun _ ih => exact .call haction hrun (ih h')

theorem single (h : between s s') : e.MakesAmong re between s [] s' := .aside h (.nothing s')

/-- Calls that are made after others are made from a state behind these. -/
theorem exists_of_append (h : e.MakesAmong re between s (calls ++ calls') s') :
    ∃ s₁, e.MakesAmong re between s calls s₁ ∧ e.MakesAmong re between s₁ calls' s' := by
  generalize hall : calls ++ calls' = all at h
  induction h generalizing calls with
  | nothing s =>
    obtain ⟨rfl, rfl⟩ := List.append_eq_nil_iff.1 hall
    exact ⟨s, .nothing s, .nothing s⟩
  | aside hbetween _ ih =>
    obtain ⟨s₁, hfirst, hrest⟩ := ih hall
    exact ⟨s₁, .aside hbetween hfirst, hrest⟩
  | @call s _ _ name payload _ _ haction hrun hmade ih =>
    cases calls with
    | nil =>
      obtain rfl : calls' = (name, payload) :: _ := hall
      exact ⟨s, .nothing s, .call haction hrun hmade⟩
    | cons call calls =>
      obtain ⟨rfl, hrest⟩ := List.cons.inj hall
      obtain ⟨s₁, hfirst, hrest⟩ := ih hrest
      exact ⟨s₁, .call haction hrun hfirst, hrest⟩

theorem mono {among : State σ → State σ → Prop} (hmono : ∀ s s', between s s' → among s s')
    (h : e.MakesAmong re between s calls s') : e.MakesAmong re among s calls s' := by
  induction h with
  | nothing s => exact .nothing s
  | aside hbetween _ ih => exact .aside (hmono _ _ hbetween) ih
  | call haction hrun _ ih => exact .call haction hrun ih

end MakesAmong

/-- A run that, from whatever state of a kind, makes some calls, returns and is left in such a
state. -/
def Calls (e : Engine σ) (re : Reentry σ) (ready : State σ → Prop) (x : Run σ Unit)
    (calls : List (Text × Value)) : Prop :=
  ∀ s, ready s → ∃ s', x.on s = (.ok (), s') ∧ e.Makes re s calls s' ∧ ready s'

/-- The actions that a map names return from every state of a kind, and leave such a state. -/
structure HostsReturn (e : Engine σ) (re : Reentry σ) (m : ActionMap) (ready : State σ → Prop) :
    Prop where
  notices : ∀ {s : State σ}, ready s → ∀ ns, ready { s with notices := s.notices ++ ns }
  action : ∀ {name action}, e.actions.get? name = some action → ∀ payload ∈ m.invocations name,
    ∀ s, ready s → ∃ s', ((action.action payload).run re).on s = (.ok (), s') ∧ ready s'

namespace Calls

variable {x y : Run σ Unit}

theorem pure : e.Calls re ready (Pure.pure ()) [] := fun s hs => ⟨s, rfl, .nothing s, hs⟩

theorem bind (hx : e.Calls re ready x calls) (hy : e.Calls re ready y calls') :
    e.Calls re ready (x >>= fun _ => y) (calls ++ calls') := by
  intro s hs
  obtain ⟨s₁, hrun, hmakes, hs₁⟩ := hx s hs
  obtain ⟨s', hrun', hmakes', hs'⟩ := hy s₁ hs₁
  refine ⟨s', ?_, hmakes.append hmakes', hs'⟩
  rw [on_bind, hrun]
  exact hrun'

end Calls

/-! ## What is called for a map -/

section Dispatched

variable (e)

/-- The calls for a name of a map, once for each of its invocations. -/
def dispatched (m : ActionMap) (skipDelayed : Bool) (name : Text) : List (Text × Value) :=
  if e.dispatches skipDelayed name then (m.invocations name).map (name, ·) else []

/-- The calls for a mapping, name after name. -/
def called (entries : Table Text Value) : List (Text × Value) :=
  let m := ActionMap.ofEntries entries
  m.names.flatMap (e.dispatched m false)

/-- The calls for an object, but for the actions that wait. -/
def calledAtOnce (object : Table Text Value) : List (Text × Value) :=
  (ActionMap.ofEntries object).names.flatMap (e.dispatched (.ofEntries object) true)

end Dispatched

theorem dispatches_true_iff {name : Text} :
    e.dispatches true name ↔ Gate.isClauseKey name = false ∧
      ∃ action, e.actions.get? name = some action ∧ action.eventDelayed = false := by
  unfold dispatches
  cases e.actions.get? name <;> simp

theorem filter_dispatched (skipDelayed : Bool) (q : Text → Bool) (name : Text) :
    (e.dispatched m skipDelayed name).filter (fun call => q call.1) =
      if q name then e.dispatched m skipDelayed name else [] := by
  unfold dispatched
  by_cases hq : q name <;> split <;> simp [hq]

/-- Of names that are all different, one is called for its own invocations. -/
theorem filter_flatMap_dispatched (skipDelayed : Bool) {name : Text} {names : List Text}
    (hnames : names.Nodup) (hmem : name ∈ names) :
    (names.flatMap (e.dispatched m skipDelayed)).filter (fun call => call.1 = name) =
      e.dispatched m skipDelayed name := by
  have hfilter (other : Text) := filter_dispatched (e := e) (m := m) skipDelayed (· = name) other
  simp only [List.filter_flatMap, hfilter, decide_eq_true_eq]
  induction names with
  | nil => cases hmem
  | cons n names ih =>
    obtain ⟨hn, hrest⟩ := List.nodup_cons.1 hnames
    rw [List.flatMap_cons]
    by_cases heq : n = name
    · subst heq
      rw [if_pos rfl, List.flatMap_eq_nil_iff.2, List.append_nil]
      exact fun other hother => if_neg (ne_of_mem_of_not_mem hother hn)
    · rw [if_neg heq, List.nil_append]
      exact ih hrest ((List.mem_cons.1 hmem).resolve_left (Ne.symm heq))

theorem mem_calledAtOnce {object : Table Text Value} {call : Text × Value}
    (h : call ∈ e.calledAtOnce object) :
    e.dispatches true call.1 ∧ ∃ p ∈ object, p.1 = call.1 := by
  obtain ⟨name, hname, hcall⟩ := List.mem_flatMap.1 h
  unfold dispatched at hcall
  split at hcall
  · next hdispatches =>
    obtain ⟨payload, -, rfl⟩ := List.mem_map.1 hcall
    exact ⟨hdispatches, ActionMap.mem_names_ofEntries.1 hname⟩
  · cases hcall

/-- For a name that is dispatched at once, an object calls for the invocations of its payload. -/
theorem filter_calledAtOnce {object : Table Text Value} {name : Text}
    (hdispatches : e.dispatches true name) (hname : ∃ p ∈ object, p.1 = name) :
    (e.calledAtOnce object).filter (fun call => call.1 = name) =
      ((ActionMap.ofEntries object).invocations name).map (name, ·) :=
  (filter_flatMap_dispatched true (ActionMap.nodup_names_ofEntries object)
    (ActionMap.mem_names_ofEntries.2 hname)).trans (if_pos hdispatches)

/-! ## Running a map -/

/-- A name that is dispatched is run for its invocations, and every other name is passed over. -/
theorem on_runNamed_cons (re : Reentry σ) (m : ActionMap) (skipDelayed : Bool) (name : Text)
    (names : List Text) (s : State σ) :
    (∃ action, e.dispatches skipDelayed name ∧ e.actions.get? name = some action ∧
      e.runNamed re m skipDelayed (name :: names) = do
        runInvocations re name action (m.invocations name)
        e.runNamed re m skipDelayed names) ∨
    ∃ logged, e.dispatches skipDelayed name = false ∧ (∀ n ∈ logged, n.invocation? = none) ∧
      (e.runNamed re m skipDelayed (name :: names)).on s =
        (e.runNamed re m skipDelayed names).on { s with notices := s.notices ++ logged } := by
  rw [runNamed]
  unfold dispatches entry
  cases Gate.isClauseKey name with
  | true => exact .inr ⟨[], rfl, List.forall_mem_nil _, by rw [List.append_nil]; rfl⟩
  | false =>
    cases haction : e.actions.get? name with
    | none =>
      exact .inr ⟨[.actionRejected (.unregistered .action name)], rfl,
        List.forall_mem_singleton.2 rfl, rfl⟩
    | some action =>
      cases hskips : skipDelayed && action.eventDelayed with
      | true =>
        refine .inr ⟨[], by simp only [Option.map_some, hskips]; rfl, List.forall_mem_nil _, ?_⟩
        simp only [hskips, List.append_nil]
        rfl
      | false =>
        refine .inl ⟨action, by simp only [Option.map_some, hskips]; rfl, rfl, ?_⟩
        simp only [hskips]
        rfl

theorem makes_runInvocations {name : Text} {action : ActionEntry σ}
    (haction : e.actions.get? name = some action) {payloads : List Value}
    (h : (runInvocations re name action payloads).on s = (.ok (), s')) :
    e.Makes re s (payloads.map (name, ·)) s' := by
  induction payloads generalizing s with
  | nil =>
    cases h
    exact .nothing s'
  | cons payload payloads ih =>
    obtain ⟨_, s₁, hnotify, h⟩ := exists_of_on_bind_eq_ok h
    cases hnotify
    obtain ⟨_, s₂, hrun, h⟩ := exists_of_on_bind_eq_ok h
    exact .call haction hrun (ih h)

/-- What running names of a map calls, if it returns. -/
theorem makes_runNamed {skipDelayed : Bool} {names : List Text}
    (h : (e.runNamed re m skipDelayed names).on s = (.ok (), s')) :
    e.Makes re s (names.flatMap (e.dispatched m skipDelayed)) s' := by
  induction names generalizing s with
  | nil =>
    cases h
    exact .nothing s'
  | cons name names ih =>
    rw [List.flatMap_cons, dispatched]
    rcases on_runNamed_cons (e := e) re m skipDelayed name names s with
      ⟨action, hdispatches, haction, hrun⟩ | ⟨logged, hdispatches, hlogged, hrun⟩
    · rw [hrun] at h
      obtain ⟨_, s₁, hinvocations, h⟩ := exists_of_on_bind_eq_ok h
      rw [if_pos hdispatches]
      exact (makes_runInvocations haction hinvocations).append (ih h)
    · rw [hrun] at h
      rw [if_neg (by simp [hdispatches]), List.nil_append]
      exact .aside (.append s hlogged) (ih h)

namespace HostsReturn

theorem returns_runInvocations (h : e.HostsReturn re m ready) {name : Text}
    {action : ActionEntry σ} (haction : e.actions.get? name = some action) {payloads : List Value}
    (hpayloads : ∀ payload ∈ payloads, payload ∈ m.invocations name) (hs : ready s) :
    ∃ s', (runInvocations re name action payloads).on s = (.ok (), s') ∧ ready s' := by
  induction payloads generalizing s with
  | nil => exact ⟨s, rfl, hs⟩
  | cons payload payloads ih =>
    obtain ⟨hpayload, hrest⟩ := List.forall_mem_cons.1 hpayloads
    obtain ⟨s₁, hrun, hs₁⟩ :=
      h.action haction payload hpayload _ (h.notices hs [.actionRun name payload])
    obtain ⟨s', hrun', hs'⟩ := ih hrest hs₁
    refine ⟨s', ?_, hs'⟩
    show ((action.action payload).run re >>= fun _ => runInvocations re name action payloads).on
      { s with notices := s.notices ++ [.actionRun name payload] } = _
    rw [on_bind, hrun]
    exact hrun'

theorem returns_runNamed (h : e.HostsReturn re m ready) (skipDelayed : Bool) {m' : ActionMap}
    {names : List Text} (hnames : ∀ name ∈ names, m'.invocations name = m.invocations name)
    (hs : ready s) :
    ∃ s', (e.runNamed re m' skipDelayed names).on s = (.ok (), s') ∧ ready s' := by
  induction names generalizing s with
  | nil => exact ⟨s, rfl, hs⟩
  | cons name names ih =>
    obtain ⟨hname, hrest⟩ := List.forall_mem_cons.1 hnames
    rcases on_runNamed_cons (e := e) re m' skipDelayed name names s with
      ⟨action, -, haction, hrun⟩ | ⟨logged, -, -, hrun⟩
    · obtain ⟨s₁, hinvocations, hs₁⟩ :=
        h.returns_runInvocations haction (fun payload hpayload => hname ▸ hpayload) hs
      obtain ⟨s', hrest, hs'⟩ := ih hrest hs₁
      refine ⟨s', ?_, hs'⟩
      rw [hrun, on_bind, hinvocations]
      exact hrest
    · rw [hrun]
      exact ih hrest (h.notices hs logged)

/-- Where the actions return that a map names, running names of it makes the calls for them. -/
theorem calls_runNamed (h : e.HostsReturn re m ready) (skipDelayed : Bool) {m' : ActionMap}
    {names : List Text} (hnames : ∀ name ∈ names, m'.invocations name = m.invocations name) :
    e.Calls re ready (e.runNamed re m' skipDelayed names)
      (names.flatMap (e.dispatched m' skipDelayed)) := by
  intro s hs
  obtain ⟨s', hrun, hs'⟩ := h.returns_runNamed skipDelayed hnames hs
  exact ⟨s', hrun, makes_runNamed hrun, hs'⟩

end HostsReturn

end Engine

end StoryScript
