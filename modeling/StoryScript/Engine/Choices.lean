import StoryScript.Engine.Actions
import StoryScript.Engine.Gates

/-! Choices as an engine makes them and decides about them. Whether a choice is visible or
available is decided anew each time it is asked for. A choice may also stand alone, and is then
always open. -/

namespace StoryScript

namespace Engine

variable {σ : Type} (e : Engine σ) (re : Reentry σ)

def modify (c : Choice) : List Text → Run σ Choice
  | [] => pure c
  | name :: names => do
    match (e.actions.get? name).bind (·.modifier), c.params.get? name with
    | some modifier, some payload => modify (← (modifier c payload).run re) names
    | _, _ => modify c names

/-- The actions a choice is given; a block that cannot be read is reported and gives none. -/
def choiceActions (id : Text) (params : Params) : Run σ ActionMap :=
  match params.toActions e.repair with
  | .ok m => pure m
  | .error problem => do
    Run.notify (.choiceRejected id (.authoring problem))
    return .empty

def createChoice (id : Text) (name : Value) (params : Params) : Run σ Choice := do
  let m ← choiceActions e id params
  modify e re ⟨id, if name.isTrue then name else .text [], m, none⟩ m.names

def isVisible (c : Choice) : Run σ Bool := opens e re (.ofEntries .visibility c.params.payloads)

def isAvailable (c : Choice) : Run σ Bool :=
  opens e re (.ofEntries .availability c.params.payloads)

/-- Runs the actions of a choice if it is available, and tells whether it did. -/
def selectChoice (c : Choice) : Run σ Bool := do
  if ← isAvailable e re c then
    runActions e re c.params false
    return true
  else return false

end Engine

namespace Choice

variable {σ : Type} (engine : Option (Engine σ × Reentry σ)) (c : Choice)

/-- Whether a choice is visible; one that no engine decides about is. -/
def isVisible : Run σ Bool :=
  match engine with
  | some (e, re) => e.isVisible re c
  | none => pure true

/-- Whether a choice is available; one that no engine decides about is. -/
def isAvailable : Run σ Bool :=
  match engine with
  | some (e, re) => e.isAvailable re c
  | none => pure true

/-- Selects a choice. Without an engine there is nothing to run. -/
def select : Run σ Bool :=
  match engine with
  | some (e, re) => e.selectChoice re c
  | none => pure true

end Choice

end StoryScript
