import StoryScript.Host.Bus
import StoryScript.Host.Program
import StoryScript.Store.Flags

/-! Runs of an engine: computations that may fail, over the state that one story session has. What
was changed before a failure stays changed. -/

namespace StoryScript

structure State (σ : Type) where
  flags : FlagStore
  bus : TriggerBus
  talking : Option Text
  /-- How many templates are being resolved inside each other. -/
  depth : Nat
  notices : List Notice
  /-- The memory of the host's programs. -/
  memory : σ

abbrev Run (σ α : Type) := ExceptT Failure (StateM (State σ)) α

namespace Run

variable {σ α : Type}

def ofFunction (f : State σ → Except Failure α × State σ) : Run σ α := ExceptT.mk f

def on (x : Run σ α) (s : State σ) : Except Failure α × State σ := (ExceptT.run x).run s

def ofExcept (x : Except Failure α) : Run σ α := ofFunction fun s => (x, s)

def getState : Run σ (State σ) := ofFunction fun s => (.ok s, s)

def change (f : State σ → State σ) : Run σ Unit := ofFunction fun s => (.ok (), f s)

def notify (n : Notice) : Run σ Unit := change fun s => { s with notices := s.notices ++ [n] }

def notifyAll (ns : List Notice) : Run σ Unit :=
  change fun s => { s with notices := s.notices ++ ns }

/-- The outcome of a computation as an answer; its failure is contained. -/
def attempt (x : Run σ α) : Run σ (Except Failure α) :=
  ofFunction fun s =>
    let (answer, s) := x.on s
    (.ok answer, s)

/-- Runs a computation one template deeper. However it ends, the depth is then as before. -/
def deeper (x : Run σ α) : Run σ α :=
  ofFunction fun s =>
    let (answer, s') := x.on { s with depth := s.depth + 1 }
    (answer, { s' with depth := s'.depth - 1 })

def readFlag (flag : Text) : Run σ Value := do return (← getState).flags.get flag

def applyFlags (data : Value) : Run σ Unit :=
  ofFunction fun s =>
    let applied := s.flags.apply data
    let s := { s with flags := applied.store, notices := s.notices ++ applied.notices }
    match applied.failure with
    | some failure => (.error failure, s)
    | none => (.ok (), s)

theorem on_pure (a : α) (s : State σ) : (pure a : Run σ α).on s = (.ok a, s) := rfl

theorem on_bind {β : Type} (x : Run σ α) (f : α → Run σ β) (s : State σ) :
    (x >>= f).on s =
      match x.on s with
      | (.ok a, s') => (f a).on s'
      | (.error failure, s') => (.error failure, s') := by
  show (x s >>= fun out => ExceptT.bindCont f out.1 out.2 : Id _) = _
  show ExceptT.bindCont f (x.on s).1 (x.on s).2 = _
  rcases x.on s with ⟨answer | answer, s'⟩ <;> rfl

theorem on_attempt (x : Run σ α) (s : State σ) :
    (attempt x).on s = (.ok (x.on s).1, (x.on s).2) := rfl

theorem on_deeper (x : Run σ α) (s : State σ) :
    (deeper x).on s =
      ((x.on { s with depth := s.depth + 1 }).1,
        { (x.on { s with depth := s.depth + 1 }).2 with
          depth := (x.on { s with depth := s.depth + 1 }).2.depth - 1 }) := rfl

end Run

/-- What a host's program may ask an engine to run. -/
structure Reentry (σ : Type) where
  resolve : Text → Run σ Resolution
  trigger : Text → List Value → Run σ Bool

namespace Reentry

/-- Every request fails: nothing may call the engine any more. -/
def none (σ : Type) : Reentry σ :=
  { resolve := fun _ => .ofExcept (.error .exhausted)
    trigger := fun _ _ => .ofExcept (.error .exhausted) }

end Reentry

namespace HostProgram

variable {σ α : Type}

/-- Runs a program, answering its requests in order. -/
def run (re : Reentry σ) : HostProgram σ α → Run σ α
  | done result => pure result
  | fail failure => .ofExcept (.error failure)
  | readMemory next => do run re (next (← Run.getState).memory)
  | writeMemory memory next => do
    Run.change fun s => { s with memory := memory }
    run re next
  | readFlag flag next => do run re (next (← Run.readFlag flag))
  | applyFlags data next => do
    Run.applyFlags data
    run re next
  | resolve text next => do run re (next (← re.resolve text))
  | trigger name arguments next => do run re (next (← re.trigger name arguments))
  | listen name callback next => do
    Run.change fun s => { s with bus := s.bus.on name callback }
    run re next
  | unlisten name callback next => do
    Run.change fun s => { s with bus := s.bus.off name callback }
    run re next

end HostProgram

end StoryScript
