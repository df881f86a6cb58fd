import Mathlib.Logic.Function.Basic
import StoryScript.Proofs.Engine.Calls

/-!
# Dispatching triggers

A log tells what happens on a bus: callbacks come and go, and triggers are dispatched
(`BusEvent`). Callbacks may do all of that themselves, one dispatch inside another
(`HostProgram.Performs`, `Engine.DispatchesWithin`). Main statements: what runs of programs do is
what the log says (`HostProgram.on_run_eq_ok_iff`, `Engine.on_trigger_eq_ok_iff`), whatever room
there is for more dispatches inside each other (`Engine.DispatchesWithin.mono`), and every dispatch
calls those who listened when it began (`Engine.run_dispatches_snapshots`).
-/

namespace StoryScript

open Run

variable {σ α β : Type}

/-! ## What happens on a bus -/

/-- What happens on a bus. A dispatch stands in front of what its callbacks do, and tells which ones
were called and what they answered. -/
inductive BusEvent where
  | listened (trigger callback : Text)
  | unlistened (trigger callback : Text)
  | dispatched (trigger : Text) (arguments : List Value) (calls : List (Text × Propagation))
    (goesOn : Bool)

/-- The callbacks that listen to each trigger. -/
abbrev Listeners := Text → List Text

/-- Whether a dispatch to the callbacks that are present makes calls and goes on or is stopped. -/
structure IsDispatch (present : List Text) (calls : List (Text × Propagation)) (goesOn : Bool) :
    Prop where
  called : calls.map Prod.fst <+: present
  goOn : ∀ call ∈ calls.dropLast, call.2 = .goOn
  stopped : goesOn = false ↔ ∃ call ∈ calls, call.2 = .stop
  all_called : goesOn = true → calls.map Prod.fst = present

namespace BusEvent

/-- A callback that comes is the last one, and of one that goes the first entry is taken away, if
there is one. -/
def change (l : Listeners) : BusEvent → Listeners
  | listened trigger callback => Function.update l trigger (l trigger ++ [callback])
  | unlistened trigger callback => Function.update l trigger ((l trigger).erase callback)
  | dispatched .. => l

def replay (log : List BusEvent) (l : Listeners) : Listeners := log.foldl change l

/-- Whether each dispatch of a log is one to the callbacks that listen when it begins. -/
def Follows : List BusEvent → Listeners → Prop
  | [], _ => True
  | event :: log, l =>
    (∀ trigger arguments calls goesOn, event = .dispatched trigger arguments calls goesOn →
      IsDispatch (l trigger) calls goesOn) ∧ Follows log (event.change l)

theorem replay_append (log log' : List BusEvent) (l : Listeners) :
    replay (log ++ log') l = replay log' (replay log l) :=
  List.foldl_append

theorem Follows.append {log log' : List BusEvent} {l : Listeners} (h : Follows log l)
    (h' : Follows log' (replay log l)) : Follows (log ++ log') l := by
  induction log generalizing l with
  | nil => exact h'
  | cons event log ih => exact ⟨h.1, ih h.2 h'⟩

theorem Follows.isDispatch {before after : List BusEvent} {l : Listeners} {trigger : Text}
    {arguments : List Value} {calls : List (Text × Propagation)} {goesOn : Bool}
    (h : Follows (before ++ .dispatched trigger arguments calls goesOn :: after) l) :
    IsDispatch (replay before l trigger) calls goesOn := by
  induction before generalizing l with
  | nil => exact h.1 trigger arguments calls goesOn rfl
  | cons event before ih => exact ih h.2

end BusEvent

open BusEvent

namespace TriggerBus

theorem listeners_insert (bus : TriggerBus) (trigger : Text) (names : List Text) :
    listeners (Table.insert bus trigger names) =
      Function.update bus.listeners trigger names := by
  funext other
  by_cases h : other = trigger
  · subst h
    simp [listeners, Table.get?_insert_self]
  · simp [listeners, h, Table.get?_insert_of_ne _ _ (Ne.symm h)]

theorem listeners_on (bus : TriggerBus) (trigger callback : Text) :
    (bus.on trigger callback).listeners =
      BusEvent.change bus.listeners (.listened trigger callback) :=
  listeners_insert bus trigger _

theorem listeners_off (bus : TriggerBus) (trigger callback : Text) :
    (bus.off trigger callback).listeners =
      BusEvent.change bus.listeners (.unlistened trigger callback) := by
  unfold off
  split
  · exact listeners_insert bus trigger _
  · next h =>
    rw [BusEvent.change, List.erase_of_not_mem (by simpa using h), Function.update_eq_self]

end TriggerBus

/-! ## Programs that use a bus -/

/-- What may come of dispatching a trigger in a state: a log, whether the dispatch goes on, and the
state that it leaves. -/
abbrev Dispatching (σ : Type) := Text → List Value → State σ → List BusEvent → Bool → State σ → Prop

/-- A program that comes to an end in a state without failing, having done to the bus what a log
tells. It resolves no text. -/
inductive HostProgram.Performs (dispatch : Dispatching σ) :
    HostProgram σ α → State σ → List BusEvent → α → State σ → Prop
  | done {s : State σ} {a : α} : Performs dispatch (.done a) s [] a s
  | readMemory {next : σ → HostProgram σ α} {s s' : State σ} {log : List BusEvent} {a : α}
    (h : Performs dispatch (next s.memory) s log a s') :
    Performs dispatch (.readMemory next) s log a s'
  | writeMemory {memory : σ} {next : HostProgram σ α} {s s' : State σ} {log : List BusEvent} {a : α}
    (h : Performs dispatch next { s with memory := memory } log a s') :
    Performs dispatch (.writeMemory memory next) s log a s'
  | readFlag {flag : Text} {next : Value → HostProgram σ α} {s s' : State σ} {log : List BusEvent}
    {a : α} (h : Performs dispatch (next (s.flags.get flag)) s log a s') :
    Performs dispatch (.readFlag flag next) s log a s'
  | applyFlags {data : Value} {next : HostProgram σ α} {s s₁ s' : State σ} {log : List BusEvent}
    {a : α} (happly : (Run.applyFlags data).on s = (.ok (), s₁))
    (h : Performs dispatch next s₁ log a s') :
    Performs dispatch (.applyFlags data next) s log a s'
  | trigger {name : Text} {arguments : List Value} {next : Bool → HostProgram σ α}
    {s s₁ s' : State σ} {log log' : List BusEvent} {goesOn : Bool} {a : α}
    (hdispatch : dispatch name arguments s log goesOn s₁)
    (h : Performs dispatch (next goesOn) s₁ log' a s') :
    Performs dispatch (.trigger name arguments next) s (log ++ log') a s'
  | listen {name callback : Text} {next : HostProgram σ α} {s s' : State σ} {log : List BusEvent}
    {a : α} (h : Performs dispatch next { s with bus := s.bus.on name callback } log a s') :
    Performs dispatch (.listen name callback next) s (.listened name callback :: log) a s'
  | unlisten {name callback : Text} {next : HostProgram σ α} {s s' : State σ} {log : List BusEvent}
    {a : α} (h : Performs dispatch next { s with bus := s.bus.off name callback } log a s') :
    Performs dispatch (.unlisten name callback next) s (.unlistened name callback :: log) a s'

namespace Engine

variable (e : Engine σ)

/-- The callback that a name on the bus means. A name that is not known means one that does
nothing. -/
def callbackOf (name : Text) : Callback σ := (e.callbacks.get? name).getD fun _ => .done .goOn

/-- Calls of callbacks one after another, up to the first that stops. -/
inductive CallsInTurn (dispatch : Dispatching σ) (arguments : List Value) :
    List Text → State σ → List (Text × Propagation) → List BusEvent → State σ → Prop
  | nil {s : State σ} : CallsInTurn dispatch arguments [] s [] [] s
  | stop {name : Text} {names : List Text} {s s' : State σ} {log : List BusEvent}
    (h : (e.callbackOf name arguments).Performs dispatch s log .stop s') :
    CallsInTurn dispatch arguments (name :: names) s [(name, .stop)] log s'
  | goOn {name : Text} {names : List Text} {s s₁ s' : State σ} {log log' : List BusEvent}
    {calls : List (Text × Propagation)}
    (h : (e.callbackOf name arguments).Performs dispatch s log .goOn s₁)
    (hnames : CallsInTurn dispatch arguments names s₁ calls log' s') :
    CallsInTurn dispatch arguments (name :: names) s ((name, .goOn) :: calls) (log ++ log') s'

/-- Dispatching a trigger to those who listen to it, where dispatches are made inside each other up
to a depth. -/
def DispatchesWithin : (depth : Nat) → Dispatching σ
  | 0 => fun _ _ _ _ _ _ => False
  | depth + 1 => fun trigger arguments s log goesOn s' => ∃ calls inside,
    e.CallsInTurn (DispatchesWithin depth) arguments (s.bus.listeners trigger) s calls inside s' ∧
      goesOn = calls.all (·.2 = .goOn) ∧
      log = .dispatched trigger arguments calls goesOn :: inside

end Engine

/-! ## What runs do -/

theorem Run.on_bind_eq_ok_iff {x : Run σ α} {f : α → Run σ β} {s s' : State σ} {b : β} :
    (x >>= f).on s = (.ok b, s') ↔
      ∃ a s₁, x.on s = (.ok a, s₁) ∧ (f a).on s₁ = (.ok b, s') := by
  refine ⟨exists_of_on_bind_eq_ok, ?_⟩
  rintro ⟨a, s₁, hx, hf⟩
  rw [on_bind, hx]
  exact hf

/-- Where dispatches do what logs tell, so do programs. -/
theorem HostProgram.on_run_eq_ok_iff {re : Reentry σ} {dispatch : Dispatching σ}
    (hre : ∀ {name arguments s goesOn s'}, (re.trigger name arguments).on s = (.ok goesOn, s') ↔
      ∃ log, dispatch name arguments s log goesOn s')
    {p : HostProgram σ α} (hp : p.ResolvesNothing) {s s' : State σ} {a : α} :
    (p.run re).on s = (.ok a, s') ↔ ∃ log, p.Performs dispatch s log a s' := by
  induction p generalizing s with
  | done result =>
    constructor
    · intro h
      cases h
      exact ⟨[], .done⟩
    · rintro ⟨log, ⟨⟩⟩
      rfl
  | fail failure => exact iff_of_false nofun nofun
  | readMemory next ih =>
    refine (ih s.memory (hp s.memory)).trans ⟨?_, ?_⟩
    · rintro ⟨log, h⟩
      exact ⟨log, .readMemory h⟩
    · rintro ⟨log, h⟩
      cases h with
      | readMemory h => exact ⟨log, h⟩
  | writeMemory memory next ih =>
    refine (ih hp (s := { s with memory := memory })).trans ⟨?_, ?_⟩
    · rintro ⟨log, h⟩
      exact ⟨log, .writeMemory h⟩
    · rintro ⟨log, h⟩
      cases h with
      | writeMemory h => exact ⟨log, h⟩
  | readFlag flag next ih =>
    refine (ih (s.flags.get flag) (hp _)).trans ⟨?_, ?_⟩
    · rintro ⟨log, h⟩
      exact ⟨log, .readFlag h⟩
    · rintro ⟨log, h⟩
      cases h with
      | readFlag h => exact ⟨log, h⟩
  | applyFlags data next ih =>
    refine on_bind_eq_ok_iff.trans ⟨?_, ?_⟩
    · rintro ⟨_, s₁, happly, h⟩
      obtain ⟨log, h⟩ := (ih hp).1 h
      exact ⟨log, .applyFlags happly h⟩
    · rintro ⟨log, h⟩
      cases h with
      | applyFlags happly h => exact ⟨(), _, happly, (ih hp).2 ⟨log, h⟩⟩
  | resolve t next ih => exact hp.elim
  | trigger name arguments next ih =>
    refine on_bind_eq_ok_iff.trans ⟨?_, ?_⟩
    · rintro ⟨goesOn, s₁, hdispatch, h⟩
      obtain ⟨log, hdispatch⟩ := hre.1 hdispatch
      obtain ⟨log', h⟩ := (ih goesOn (hp goesOn)).1 h
      exact ⟨log ++ log', .trigger hdispatch h⟩
    · rintro ⟨log, h⟩
      cases h with
      | trigger hdispatch h => exact ⟨_, _, hre.2 ⟨_, hdispatch⟩, (ih _ (hp _)).2 ⟨_, h⟩⟩
  | listen name callback next ih =>
    refine (ih hp (s := { s with bus := s.bus.on name callback })).trans ⟨?_, ?_⟩
    · rintro ⟨log, h⟩
      exact ⟨_, .listen h⟩
    · rintro ⟨log, h⟩
      cases h with
      | listen h => exact ⟨_, h⟩
  | unlisten name callback next ih =>
    refine (ih hp (s := { s with bus := s.bus.off name callback })).trans ⟨?_, ?_⟩
    · rintro ⟨log, h⟩
      exact ⟨_, .unlisten h⟩
    · rintro ⟨log, h⟩
      cases h with
      | unlisten h => exact ⟨_, h⟩

namespace Engine

variable {e : Engine σ}

/-- An engine none of whose callbacks resolves texts. -/
def CallbacksResolveNothing (e : Engine σ) : Prop :=
  ∀ {name callback}, e.callbacks.get? name = some callback → ∀ arguments,
    (callback arguments).ResolvesNothing

theorem CallbacksResolveNothing.callbackOf (h : e.CallbacksResolveNothing) (name : Text)
    (arguments : List Value) : (e.callbackOf name arguments).ResolvesNothing := by
  unfold Engine.callbackOf
  cases hcallback : e.callbacks.get? name with
  | none => trivial
  | some callback => exact h hcallback arguments

theorem runCallbacks_cons (e : Engine σ) (re : Reentry σ) (arguments : List Value) (name : Text)
    (names : List Text) :
    e.runCallbacks re arguments (name :: names) = (do
      match ← (e.callbackOf name arguments).run re with
      | .stop => return false
      | .goOn => e.runCallbacks re arguments names) := by
  rw [runCallbacks, callbackOf]
  cases e.callbacks.get? name <;> rfl

section

variable {re : Reentry σ} {dispatch : Dispatching σ} (he : e.CallbacksResolveNothing)
  (hre : ∀ {name arguments s goesOn s'}, (re.trigger name arguments).on s = (.ok goesOn, s') ↔
    ∃ log, dispatch name arguments s log goesOn s')

include he hre

theorem on_runCallbacks_eq_ok_iff {arguments : List Value} {names : List Text} {s s' : State σ}
    {goesOn : Bool} :
    (e.runCallbacks re arguments names).on s = (.ok goesOn, s') ↔
      ∃ calls log, e.CallsInTurn dispatch arguments names s calls log s' ∧
        goesOn = calls.all (·.2 = .goOn) := by
  induction names generalizing s with
  | nil =>
    constructor
    · intro h
      cases h
      exact ⟨[], [], .nil, rfl⟩
    · rintro ⟨calls, log, ⟨⟩, rfl⟩
      rfl
  | cons name names ih =>
    have hcallback {answer : Propagation} {s₁ : State σ} :
        ((e.callbackOf name arguments).run re).on s = (.ok answer, s₁) ↔
          ∃ log, (e.callbackOf name arguments).Performs dispatch s log answer s₁ :=
      HostProgram.on_run_eq_ok_iff hre (he.callbackOf name arguments)
    rw [runCallbacks_cons, on_bind_eq_ok_iff]
    constructor
    · rintro ⟨answer, s₁, hcall, h⟩
      obtain ⟨log, hcall⟩ := hcallback.1 hcall
      cases answer with
      | stop =>
        cases h
        exact ⟨_, log, .stop hcall, rfl⟩
      | goOn =>
        obtain ⟨calls, log', hcalls, rfl⟩ := ih.1 h
        exact ⟨_, log ++ log', .goOn hcall hcalls, rfl⟩
    · rintro ⟨calls, log, hcalls, rfl⟩
      cases hcalls with
      | stop hcall => exact ⟨.stop, s', hcallback.2 ⟨_, hcall⟩, rfl⟩
      | goOn hcall hcalls =>
        exact ⟨.goOn, _, hcallback.2 ⟨_, hcall⟩, ih.2 ⟨_, _, hcalls, rfl⟩⟩

end

/-- Dispatches that return are those that are made inside each other up to a depth. -/
theorem on_trigger_eq_ok_iff (he : e.CallbacksResolveNothing) (depth : Nat) {name : Text}
    {arguments : List Value} {s s' : State σ} {goesOn : Bool} :
    ((e.reentryWithin depth).trigger name arguments).on s = (.ok goesOn, s') ↔
      ∃ log, e.DispatchesWithin depth name arguments s log goesOn s' := by
  induction depth generalizing name arguments s s' goesOn with
  | zero => exact iff_of_false nofun fun ⟨_, h⟩ => h
  | succ depth ih =>
    refine (on_runCallbacks_eq_ok_iff he ih).trans ⟨?_, ?_⟩
    · rintro ⟨calls, inside, hcalls, hgoesOn⟩
      exact ⟨_, calls, inside, hcalls, hgoesOn, rfl⟩
    · rintro ⟨log, calls, inside, hcalls, hgoesOn, -⟩
      exact ⟨calls, inside, hcalls, hgoesOn⟩

end Engine

/-! ## More room for dispatches -/

section

variable {dispatch dispatch' : Dispatching σ}
  (h : ∀ {name arguments s log goesOn s'}, dispatch name arguments s log goesOn s' →
    dispatch' name arguments s log goesOn s')

include h

theorem HostProgram.Performs.mono {p : HostProgram σ α} {s s' : State σ} {log : List BusEvent}
    {a : α} (hp : p.Performs dispatch s log a s') : p.Performs dispatch' s log a s' := by
  induction hp with
  | done => exact .done
  | readMemory _ ih => exact .readMemory ih
  | writeMemory _ ih => exact .writeMemory ih
  | readFlag _ ih => exact .readFlag ih
  | applyFlags happly _ ih => exact .applyFlags happly ih
  | trigger hdispatch _ ih => exact .trigger (h hdispatch) ih
  | listen _ ih => exact .listen ih
  | unlisten _ ih => exact .unlisten ih

theorem Engine.CallsInTurn.mono {e : Engine σ} {arguments : List Value} {names : List Text}
    {s s' : State σ} {calls : List (Text × Propagation)} {log : List BusEvent}
    (hcalls : e.CallsInTurn dispatch arguments names s calls log s') :
    e.CallsInTurn dispatch' arguments names s calls log s' := by
  induction hcalls with
  | nil => exact .nil
  | stop hcall => exact .stop (hcall.mono h)
  | goOn hcall _ ih => exact .goOn (hcall.mono h) ih

end

theorem Engine.DispatchesWithin.mono {e : Engine σ} {depth depth' : Nat} (hdepth : depth ≤ depth')
    {name : Text} {arguments : List Value} {s s' : State σ} {log : List BusEvent} {goesOn : Bool}
    (h : e.DispatchesWithin depth name arguments s log goesOn s') :
    e.DispatchesWithin depth' name arguments s log goesOn s' := by
  induction depth generalizing depth' name arguments s s' log goesOn with
  | zero => exact h.elim
  | succ depth ih =>
    obtain ⟨depth', rfl⟩ := Nat.exists_eq_succ_of_ne_zero (Nat.ne_zero_of_lt hdepth)
    obtain ⟨calls, inside, hcalls, hgoesOn, hlog⟩ := h
    exact ⟨calls, inside, hcalls.mono (ih (Nat.le_of_succ_le_succ hdepth)), hgoesOn, hlog⟩

/-! ## What logs tell -/

/-- A log that leads from the listeners of one state to those of another, and all of whose
dispatches are ones to those who listen when they begin. -/
structure Tells (s : State σ) (log : List BusEvent) (s' : State σ) : Prop where
  listeners_eq : s'.bus.listeners = replay log s.bus.listeners
  follows : Follows log s.bus.listeners

namespace Tells

variable {s s₁ s' : State σ} {log log' : List BusEvent}

theorem nil (s : State σ) : Tells s [] s := ⟨rfl, trivial⟩

theorem append (h : Tells s log s₁) (h' : Tells s₁ log' s') : Tells s (log ++ log') s' := by
  have hfollows := h'.follows
  rw [h.listeners_eq] at hfollows
  refine ⟨?_, h.follows.append hfollows⟩
  rw [replay_append, ← h.listeners_eq, h'.listeners_eq]

theorem cons {event : BusEvent} (hevent : ∀ trigger arguments calls goesOn,
      event = .dispatched trigger arguments calls goesOn →
        IsDispatch (s.bus.listeners trigger) calls goesOn)
    (hchange : s₁.bus.listeners = event.change s.bus.listeners) (h : Tells s₁ log s') :
    Tells s (event :: log) s' := by
  have hfollows := h.follows
  rw [hchange] at hfollows
  refine ⟨?_, hevent, hfollows⟩
  rw [h.listeners_eq, hchange]
  rfl

end Tells

theorem HostProgram.Performs.tells {dispatch : Dispatching σ}
    (hdispatch : ∀ {name arguments s log goesOn s'}, dispatch name arguments s log goesOn s' →
      Tells s log s')
    {p : HostProgram σ α} {s s' : State σ} {log : List BusEvent} {a : α}
    (h : p.Performs dispatch s log a s') : Tells s log s' := by
  induction h with
  | done => exact .nil _
  | readMemory _ ih | readFlag _ ih => exact ih
  | writeMemory _ ih => exact ⟨ih.listeners_eq, ih.follows⟩
  | @applyFlags _ _ s s₁ _ _ _ happly _ ih =>
    have hbus : s₁.bus = s.bus := by
      rw [on_applyFlags] at happly
      rw [← (Prod.mk.inj happly).2]
    exact ⟨hbus ▸ ih.listeners_eq, hbus ▸ ih.follows⟩
  | trigger h _ ih => exact (hdispatch h).append ih
  | listen _ ih => exact ih.cons nofun (TriggerBus.listeners_on _ _ _)
  | unlisten _ ih => exact ih.cons nofun (TriggerBus.listeners_off _ _ _)

namespace Engine

variable {e : Engine σ} {dispatch : Dispatching σ} {arguments : List Value} {names : List Text}
  {calls : List (Text × Propagation)} {s s' : State σ} {log : List BusEvent}

theorem CallsInTurn.isDispatch (h : e.CallsInTurn dispatch arguments names s calls log s') :
    IsDispatch names calls (calls.all (·.2 = .goOn)) := by
  induction h with
  | nil => exact ⟨List.prefix_rfl, nofun, by simp, fun _ => rfl⟩
  | @stop name names _ _ _ _ =>
    exact ⟨⟨names, rfl⟩, nofun, by simp, nofun⟩
  | @goOn name names _ _ _ _ _ calls _ _ ih =>
    refine ⟨List.cons_prefix_cons.2 ⟨rfl, ih.called⟩, fun call hcall => ?_, ?_, fun hall => ?_⟩
    · cases calls with
      | nil => cases hcall
      | cons first rest =>
        rcases List.mem_cons.1 hcall with rfl | hcall
        · rfl
        · exact ih.goOn call hcall
    · rw [List.all_cons, decide_eq_true rfl, Bool.true_and, ih.stopped]
      simp
    · exact congrArg (name :: ·) (ih.all_called (by simpa using hall))

theorem CallsInTurn.tells
    (hdispatch : ∀ {name arguments s log goesOn s'}, dispatch name arguments s log goesOn s' →
      Tells s log s')
    (h : e.CallsInTurn dispatch arguments names s calls log s') : Tells s log s' := by
  induction h with
  | nil => exact .nil _
  | stop hcall => exact hcall.tells hdispatch
  | goOn hcall _ ih => exact (hcall.tells hdispatch).append ih

theorem DispatchesWithin.tells {depth : Nat} {name : Text} {goesOn : Bool}
    (h : e.DispatchesWithin depth name arguments s log goesOn s') : Tells s log s' := by
  induction depth generalizing name arguments s log goesOn s' with
  | zero => exact h.elim
  | succ depth ih =>
    obtain ⟨calls, inside, hcalls, rfl, rfl⟩ := h
    refine (hcalls.tells ih).cons (fun _ _ _ _ hevent => ?_) rfl
    cases hevent
    exact hcalls.isDispatch

/-- Dispatch works on a snapshot. A program that uses the bus, of an engine whose callbacks may do
so in their turn, ends without failing just if it does what some log tells, with dispatches inside
each other up to a depth, and more room does not change that. Whatever the log is, the listeners at
the end are those that it leaves when callbacks are added and taken away in its order. And each
dispatch in it, inside which others may stand, calls callbacks that listened when it began, in their
order: all of them, or those up to the first that stopped it; and it was stopped just if one of the
called ones did that. -/
theorem run_dispatches_snapshots (he : e.CallbacksResolveNothing) {p : HostProgram σ α}
    (hp : p.ResolvesNothing) (depth : Nat) (s s' : State σ) (a : α) :
    ((p.run (e.reentryWithin depth)).on s = (.ok a, s') ↔
        ∃ log, p.Performs (e.DispatchesWithin depth) s log a s') ∧
      ∀ log, p.Performs (e.DispatchesWithin depth) s log a s' →
        (∀ depth' ≥ depth, (p.run (e.reentryWithin depth')).on s = (.ok a, s')) ∧
        s'.bus.listeners = replay log s.bus.listeners ∧
        ∀ before trigger arguments calls goesOn after,
          log = before ++ .dispatched trigger arguments calls goesOn :: after →
            let present := replay before s.bus.listeners trigger
            calls.map Prod.fst <+: present ∧
              (∀ call ∈ calls.dropLast, call.2 = .goOn) ∧
              (goesOn = false ↔ ∃ call ∈ calls, call.2 = .stop) ∧
              (goesOn = true → calls.map Prod.fst = present) := by
  refine ⟨HostProgram.on_run_eq_ok_iff (on_trigger_eq_ok_iff he depth) hp, fun log h => ?_⟩
  obtain ⟨hlisteners, hfollows⟩ := h.tells DispatchesWithin.tells
  refine ⟨fun depth' hdepth => ?_, hlisteners, ?_⟩
  · refine (HostProgram.on_run_eq_ok_iff (on_trigger_eq_ok_iff he depth') hp).2 ⟨log, ?_⟩
    exact h.mono (.mono hdepth)
  · rintro before trigger arguments calls goesOn after rfl
    have hdispatch := hfollows.isDispatch
    exact ⟨hdispatch.called, hdispatch.goOn, hdispatch.stopped, hdispatch.all_called⟩

/-- A hostel whose doors are barred until somebody is greeted, with a bell that stops whoever rings
it. -/
def hostel : Engine Nat where
  settings := .standard
  sigil := "_"
  repair := id
  fragments := none
  conditions := []
  placeholders := []
  actions := []
  callbacks := [
    ("greet", fun _ => .unlisten "door" "bar" (.listen "door" "lull" (.trigger "bell" []
      fun goesOn => .updating (· + if goesOn then 0 else 10) (.done .goOn)))),
    ("bar", fun _ => .updating (· + 1) (.done .stop)),
    ("ring", fun _ => .listen "bell" "ring" (.done .stop))]

def hostelStart : State Nat :=
  { World.start default 0 with
    bus := [("door", ["greet", "bar", "greet"]), ("bell", ["ring", "hum"])] }

/-- Knocks twice. -/
def knocks : HostProgram Nat (Bool × Bool) :=
  .trigger "door" [] fun first => .trigger "door" [] fun second => .done (first, second)

theorem callbacksResolveNothing_hostel : hostel.CallbacksResolveNothing := by
  intro name callback hcallback arguments
  have hmem := Table.mem_of_get? hcallback
  simp only [hostel, List.mem_cons, Prod.mk.injEq, List.not_mem_nil, or_false] at hmem
  rcases hmem with ⟨-, rfl⟩ | ⟨-, rfl⟩ | ⟨-, rfl⟩
  · exact fun goesOn memory => trivial
  · exact fun memory => trivial
  · trivial

/-- The bar is taken away by the call in front of it, and still stops the first knock; the second
knock passes, and calls who came meanwhile. -/
theorem run_dispatches_snapshots_hostel :
    hostel.CallbacksResolveNothing ∧ knocks.ResolvesNothing ∧
      ∃ s' log, (knocks.run (hostel.reentryWithin 2)).on hostelStart = (.ok (false, true), s') ∧
        knocks.Performs (hostel.DispatchesWithin 2) hostelStart log (false, true) s' ∧
        (knocks.run (hostel.reentryWithin 5)).on hostelStart = (.ok (false, true), s') ∧
        s'.memory = 31 ∧ replay log hostelStart.bus.listeners = s'.bus.listeners ∧
        s'.bus.listeners "door" = ["greet", "greet", "lull", "lull", "lull"] ∧
        ∀ after arguments calls goesOn,
          log = .dispatched "door" arguments calls goesOn :: after →
            calls.map Prod.fst <+: ["greet", "bar", "greet"] := by
  have hknocks : knocks.ResolvesNothing := fun first second => trivial
  have hanswer : ((knocks.run (hostel.reentryWithin 2)).on hostelStart).1.toOption.map id =
      some (false, true) := by decide +kernel
  have hleft : ((knocks.run (hostel.reentryWithin 2)).on hostelStart).2.memory = 31 ∧
      ((knocks.run (hostel.reentryWithin 2)).on hostelStart).2.bus.listeners "door" =
        ["greet", "greet", "lull", "lull", "lull"] := by decide +kernel
  obtain ⟨answer, s', hrun, rfl⟩ := exists_eq_ok_of_map hanswer
  rw [hrun] at hleft
  obtain ⟨hiff, htells⟩ :=
    run_dispatches_snapshots callbacksResolveNothing_hostel hknocks 2 hostelStart s' (false, true)
  obtain ⟨log, hlog⟩ := hiff.1 hrun
  obtain ⟨hmore, hlisteners, hdispatch⟩ := htells log hlog
  exact ⟨callbacksResolveNothing_hostel, hknocks, s', log, hrun, hlog, hmore 5 (by decide), hleft.1,
    hlisteners.symm, hleft.2, fun after arguments calls goesOn h =>
      (hdispatch [] "door" arguments calls goesOn after h).1⟩

end Engine

end StoryScript
