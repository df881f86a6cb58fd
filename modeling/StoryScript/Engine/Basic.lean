import StoryScript.Block.Object
import StoryScript.Condition.Clause
import StoryScript.Condition.Comparison
import StoryScript.Host.Run
import StoryScript.Settings
import StoryScript.Store.Fragments

/-! Engines: the settings, fragments and registered names that a story is resolved with. What
changes while a story runs is kept in the state of the run and not here. Two things that hosts may
change besides, the objects that their actions are given and the style tags, are read off the memory
of the hosts where they matter. -/

namespace StoryScript

structure Choice where
  id : Text
  name : Value
  params : ActionMap
  /-- What is shown for the name, where that is more than the name. -/
  nameComputed : Option (Value → Except Failure Value)

def Choice.displayName (c : Choice) : Except Failure Value :=
  match c.nameComputed with
  | some f => f c.name
  | none => .ok c.name

structure ActionEntry (σ : Type) where
  action : Value → HostProgram σ Unit
  /-- What the action makes of a choice that names it. -/
  modifier : Option (Choice → Value → HostProgram σ Choice)
  eventDelayed : Bool
  /-- Whether the action runs again after a saved game is loaded. -/
  onGameLoad : Bool
  /-- What the object that the action was given in one of the calls of a payload, the calls counted
  from zero, holds once the hosts have come to a memory. An action is given the object itself, which
  a host may change there and then or keep for later. -/
  held : σ → (call : Nat) → Value → Value := fun _ _ v => v

structure Engine (σ : Type) where
  settings : Settings
  /-- The tags once the hosts have come to a memory. -/
  tags : σ → Tags := fun _ => settings.tags
  sigil : Text
  repair : Repair
  fragments : Option FragmentLibrary
  conditions : Table Text (Getter σ)
  placeholders : Table Text (Getter σ)
  actions : Table Text (ActionEntry σ)
  callbacks : Table Text (Callback σ)

namespace ActionEntry

variable {σ : Type}

def plain (action : Value → HostProgram σ Unit) : ActionEntry σ :=
  { action := action, modifier := none, eventDelayed := false, onGameLoad := false }

def nothing (_ : Value) : HostProgram σ Unit := .done ()

def changeFlags (payload : Value) : HostProgram σ Unit := .applyFlags payload (.done ())

end ActionEntry

namespace Engine

variable {σ : Type}

def create (settings : Settings) (repair : Repair) (fragments : Option FragmentLibrary) :
    Except Failure (Engine σ) :=
  match settings.conditionSigil with
  | .text sigil =>
    .ok
      { settings := settings, sigil := sigil, repair := repair, fragments := fragments,
        conditions := [], placeholders := [], actions := [], callbacks := [] }
  | _ => .error (.mismatch .conditionSigil)

/-- What there is to report about writing an entry into a table. -/
def overwriting {ε : Type} (kind : EntryKind) (entries : Table Text ε) (name : Text) :
    List Notice :=
  if entries.contains name then [.overwritten kind name] else []

/-- Registers a condition, whose name has to begin with the sigil. -/
def registerCondition (e : Engine σ) (name : Text) (getter : Getter σ) :
    Except Failure (Engine σ × List Notice) :=
  match Text.after? e.sigil name with
  | some _ =>
    .ok ({ e with conditions := e.conditions.insert name getter },
      overwriting .condition e.conditions name)
  | none => .error (.misnamedCondition e.sigil name)

def registerPlaceholder (e : Engine σ) (name : Text) (getter : Getter σ) :
    Engine σ × List Notice :=
  ({ e with placeholders := e.placeholders.insert name getter },
    overwriting .placeholder e.placeholders name)

def registerAction (e : Engine σ) (name : Text) (entry : ActionEntry σ) :
    Engine σ × List Notice :=
  ({ e with actions := e.actions.insert name entry }, overwriting .action e.actions name)

/-- The entry of a name, or the complaint that there is none. -/
def entry {ε : Type} (kind : EntryKind) (entries : Table Text ε) (name : Text) :
    Except Failure ε :=
  match entries.get? name with
  | some entry => .ok entry
  | none => .error (.unregistered kind name)

/-- The fragment that a reference names while a container is current. -/
def loadFragment (e : Engine σ) (current : Key) (reference : Text) : Except Failure Value :=
  match e.fragments with
  | some library => library.load (some current) reference
  | none => .error (.authoring .noFragmentSource)

/-- Runs the callbacks that listened to a trigger when it began, up to the first that stops it, and
tells whether none did. -/
def runCallbacks (e : Engine σ) (re : Reentry σ) (arguments : List Value) :
    List Text → Run σ Bool
  | [] => pure true
  | name :: names => do
    match e.callbacks.get? name with
    | none => runCallbacks e re arguments names
    | some callback =>
      match ← (callback arguments).run re with
      | .stop => return false
      | .goOn => runCallbacks e re arguments names

/-- Sends a trigger to those who listen to it now. The debug record of which of them stopped it is
left out. -/
def trigger (e : Engine σ) (re : Reentry σ) (name : Text) (arguments : List Value) :
    Run σ Bool := do
  e.runCallbacks re arguments ((← Run.getState).bus.listeners name)

end Engine

end StoryScript
