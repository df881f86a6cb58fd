import StoryScript.Host.Resolution

/-! Programs of the host, that is of whatever embeds an engine: the functions behind registered
names. A program is a tree of what it asks of the engine, each request with the program that goes
on with the answer, so an engine can run it and a proof can look into it. It has a memory of type
`σ`, which the engine keeps and never looks at. -/

namespace StoryScript

inductive HostProgram (σ α : Type) where
  | done (result : α)
  | fail (failure : Failure)
  | readMemory (next : σ → HostProgram σ α)
  | writeMemory (memory : σ) (next : HostProgram σ α)
  | readFlag (flag : Text) (next : Value → HostProgram σ α)
  | applyFlags (data : Value) (next : HostProgram σ α)
  | resolve (text : Text) (next : Resolution → HostProgram σ α)
  | trigger (name : Text) (arguments : List Value) (next : Bool → HostProgram σ α)
  | listen (trigger callback : Text) (next : HostProgram σ α)
  | unlisten (trigger callback : Text) (next : HostProgram σ α)

namespace HostProgram

variable {σ α : Type}

/-- A program that changes its memory first. -/
def updating (f : σ → σ) (next : HostProgram σ α) : HostProgram σ α :=
  readMemory fun memory => writeMemory (f memory) next

end HostProgram

/-- Computes the value of a condition or a placeholder from its arguments. -/
abbrev Getter (σ : Type) := List Text → HostProgram σ Value

/-- Whether the callbacks after this one are still run. -/
inductive Propagation where
  | goOn
  | stop
deriving DecidableEq, Repr

abbrev Callback (σ : Type) := List Value → HostProgram σ Propagation

end StoryScript
