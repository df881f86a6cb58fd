import StoryScript.Block.Object
import StoryScript.Block.Piece
import StoryScript.Engine.Basic

/-! Actions as an engine runs them, asked for by a choice or by the blocks of a text. Clauses are no
actions; an action that is not registered is reported and passed over. -/

namespace StoryScript

inductive Params where
  | nothing
  | text (t : Text)
  | entries (entries : Table Text Value)
  | actions (actions : ActionMap)

namespace Params

def toActions (repair : Repair) : Params → Except AuthoringProblem ActionMap
  | nothing => .ok .empty
  | text t => (Block.parse repair t).map ActionMap.ofEntries
  | entries es => .ok (.ofEntries es)
  | actions m => .ok m

end Params

/-- What comes of taking the blocks out of a text. -/
structure Extraction where
  output : Text
  actions : ActionMap
  redirected : Bool

def redirectKey : Text := "redirect"

/-- How a block is read: as an object, or not at all. -/
abbrev BlockReader := Text → Except AuthoringProblem (Table Text Value)

/-- Whether an object sends the reader elsewhere. -/
def redirects (entries : Table Text Value) : Bool :=
  ((entries.get? redirectKey).map Value.isTrue).getD false

/-- An object that another was changed into in place: a list stays a list and a map a map, and
nothing else can be changed. -/
def Value.refilled : (old new : Value) → Value
  | .list _, .list items => .list items
  | .map _, .map entries => .map entries
  | old, _ => old

namespace ActionEntry

variable {σ : Type} (action : ActionEntry σ) (memory : σ)

/-- What the objects of the calls of a payload hold at a memory of the hosts. -/
def leftIn (objects : List Value) : List Value :=
  objects.mapIdx fun i v => v.refilled (action.held memory i v)

/-- What a payload that an action was called with holds at a memory of the hosts. Of a list each
element is given to a call of its own, and the list itself to none. -/
def payloadAt : Value → Value
  | .list items => .list (action.leftIn memory items)
  | v => v.refilled (action.held memory 0 v)

end ActionEntry

namespace Engine

variable {σ : Type} (e : Engine σ) (re : Reentry σ)

def runInvocations (name : Text) (action : ActionEntry σ) : List Value → Run σ Unit
  | [] => pure ()
  | payload :: payloads => do
    Run.notify (.actionRun name payload)
    (action.action payload).run re
    runInvocations name action payloads

/-- Runs the named actions of a map, without those that wait if `skipDelayed` is set. -/
def runNamed (m : ActionMap) (skipDelayed : Bool) : List Text → Run σ Unit
  | [] => pure ()
  | name :: names => do
    if !Gate.isClauseKey name then
      match entry .action e.actions name with
      | .error failure => Run.notify (.actionRejected failure)
      | .ok action =>
        if !(skipDelayed && action.eventDelayed) then
          runInvocations re name action (m.invocations name)
    runNamed m skipDelayed names

def runActions (m : ActionMap) (skipDelayed : Bool) : Run σ Unit :=
  runNamed e re m skipDelayed m.names

/-- Whether the action of a name is run when a map names it. -/
def dispatches (skipDelayed : Bool) (name : Text) : Bool :=
  !Gate.isClauseKey name &&
    ((e.actions.get? name).map fun action => !(skipDelayed && action.eventDelayed)).getD false

/-- What a payload that was named in a block holds at a memory of the hosts. -/
def payloadAt (memory : σ) (name : Text) (payload : Value) : Value :=
  match e.actions.get? name with
  | some action => if e.dispatches true name then action.payloadAt memory payload else payload
  | none => payload

def actionsAt (memory : σ) (m : ActionMap) : ActionMap :=
  { m with payloads := m.payloads.map fun p => (p.1, e.payloadAt memory p.1 p.2) }

/-- Runs what was asked for; a block that cannot be read is reported. -/
def runParams (params : Params) (skipDelayed : Bool) : Run σ Unit :=
  match params.toActions e.repair with
  | .ok m => runActions e re m skipDelayed
  | .error problem => Run.notify (.actionRejected (.authoring problem))

/-- The entries whose actions are registered and have a property. -/
def select (property : ActionEntry σ → Bool) (entries : Table Text Value) : ActionMap :=
  .ofEntries (entries.filter fun p => ((e.actions.get? p.1).map property).getD false)

/-- The entries that must wait for a later trigger. -/
def delayedActions (entries : Table Text Value) : ActionMap := select e (·.eventDelayed) entries

/-- The entries to run again after a saved game is loaded. -/
def reloadActions (entries : Table Text Value) : ActionMap := select e (·.onGameLoad) entries

/-- Takes the blocks out of the pieces of a text and runs their actions, unless it is a dry run,
as they are met. A block that redirects ends the text, and so does an unmatched brace. -/
def extractPiecesWith (read : BlockReader) (dryRun : Bool) (output : Text) (found : ActionMap) :
    List Piece → Run σ Extraction
  | [] => pure ⟨output, found, false⟩
  | .plain t :: pieces => extractPiecesWith read dryRun (output ++ t) found pieces
  | .unmatched rest :: _ => do
    Run.notify (.unmatchedBrace (Piece.unmatched rest).written)
    return ⟨output, found, false⟩
  | .group inner :: pieces =>
    match read (Piece.group inner).written with
    | .error problem => do
      Run.notify (.actionRejected (.authoring problem))
      extractPiecesWith read dryRun output found pieces
    | .ok entries =>
      if redirects entries then pure ⟨[], .ofEntries entries, true⟩
      else do
        if !dryRun then runActions e re (.ofEntries entries) true
        extractPiecesWith read dryRun output (found.insertAll entries) pieces

def readBlock : BlockReader := Block.parse e.repair

def extractPieces : (dryRun : Bool) → Text → ActionMap → List Piece → Run σ Extraction :=
  extractPiecesWith e re e.readBlock

theorem extractPieces_group (dryRun : Bool) (output : Text) (found : ActionMap) (inner : Text)
    (pieces : List Piece) :
    extractPieces e re dryRun output found (.group inner :: pieces) =
      (match e.readBlock (Piece.group inner).written with
      | .error problem => do
        Run.notify (.actionRejected (.authoring problem))
        extractPieces e re dryRun output found pieces
      | .ok entries =>
        if redirects entries then pure ⟨[], .ofEntries entries, true⟩
        else do
          if !dryRun then runActions e re (.ofEntries entries) true
          extractPieces e re dryRun output (found.insertAll entries) pieces) := rfl

def extract (t : Text) (dryRun : Bool) : Run σ Extraction :=
  extractPieces e re dryRun [] .empty (Piece.split t)

end Engine

end StoryScript
