import StoryScript.Branch.Tree
import StoryScript.Engine.Basic

/-! Conditions, gates and branches as an engine decides them. A branch whose condition fails does
not pass, and the failure is reported and goes no further; everywhere else it stops the run. -/

namespace StoryScript.Engine

variable {σ : Type} (e : Engine σ) (re : Reentry σ)

/-- The value behind a key: of a registered condition if the key begins with the sigil, and of a
flag otherwise. -/
def conditionValue (key : Text) : Run σ Value :=
  match Text.after? e.sigil key with
  | none => Run.readFlag key
  | some _ =>
    match Reference.read? e.sigil key with
    | none => .ofExcept (.error (.authoring (.conditionFormat key)))
    | some r => do
      let getter ← Run.ofExcept (entry .condition e.conditions r.name)
      (getter r.arguments).run re

/-- Whether a single condition holds. One that says nothing sensible is reported and does not. -/
def holds (condition : Text) : Run σ Bool :=
  match Comparison.read? e.sigil (Text.trim condition) with
  | none => do
    Run.notify (.malformedCondition condition)
    return false
  | some c => do
    let actual ← conditionValue e re c.key
    match ← Run.ofExcept (c.holds actual) with
    | some answer => return answer
    | none =>
      Run.notify (.orderedText c.operator.word condition)
      return false

def opens (gate : Gate) : Run σ Bool := gate.passes (holds e re)

def gateOf (b : Branch) : Gate :=
  match b.kind with
  | .ifAll => ⟨some (.conditions b.condition), none⟩
  | .ifAny => ⟨none, some (.conditions b.condition)⟩
  | .otherwise => ⟨none, none⟩

/-- Whether a branch passes; nothing is asked about an empty condition. -/
def passes (b : Branch) : Run σ Bool :=
  if b.condition.isEmpty then pure true
  else do
    match ← Run.attempt (opens e re (gateOf b)) with
    | .ok answer => return answer
    | .error failure =>
      Run.notify <|
        if failure.isOfStory then .branchRejected b.condition failure
        else .branchFailed b.condition failure
      return false

/-- The text with each of its chains replaced by the branch that is shown. -/
def resolveBranches (t : Text) : Run σ Text := do
  Run.notifyAll (Node.reportsOfText t)
  Node.render (passes e re) (Node.ofText t)

end StoryScript.Engine
