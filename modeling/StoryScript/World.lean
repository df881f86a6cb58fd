import StoryScript.Engine.Basic
import StoryScript.Json.Reader
import StoryScript.Text.Lines

/-! Worlds: the flags, fragments, constant placeholders and conditions, and settings that a story
starts from, as the members of one object. -/

namespace StoryScript

/-- The text that a file of UTF-8 bytes holds, with its line breaks made line feeds. -/
def textOfFile (bytes : ByteArray) : Except Failure Text :=
  match String.fromUTF8? bytes with
  | some s => .ok (Lines.unify s.toList)
  | none => .error .undecodable

namespace World

def readText (path t : Text) : Except Failure (Table Text Value) :=
  match Json.parse t with
  | .ok (.map entries) => .ok entries
  | .ok _ => .error (.badWorld path .notAnObject)
  | .error e =>
    if e.problem = .integerTooLong then .error .integerTooLong
    else .error (.badWorld path (.invalidJson e))

def read (path : Text) (bytes : ByteArray) : Except Failure (Table Text Value) :=
  (textOfFile bytes).bind (readText path)

/-- A pair of a name and a value, which may also be written as a text or a map of two. -/
def pairOf : Value → Except Failure (Key × Value)
  | .list [k, v] => pair k v
  | .text [k, v] => .ok (.text [k], .text [v])
  | .map [(k, _), (v, _)] => .ok (.text k, .text v)
  | .list _ | .text _ | .map _ => .error .notAPair
  | _ => .error (.mismatch .entries)
where
  pair (k v : Value) : Except Failure (Key × Value) :=
    match k.toKey? with
    | some key => .ok (key, v)
    | none => .error (.mismatch .name)

/-- The entries that a value holds: of a map, or of a list of pairs. -/
def entriesOf : Value → Except Failure (List (Key × Value))
  | .map entries => .ok (entries.map fun e => (.text e.1, e.2))
  | .list items => items.mapM pairOf
  | .text [] => .ok []
  | .text _ => .error .notAPair
  | _ => .error (.mismatch .entries)

def membersOf : Value → Except Failure (Table Text Value)
  | .map entries => .ok entries
  | _ => .error .notAMap

/-- The members of a map that may be left out; whatever counts as false counts as empty. -/
def optionalMembers (world : Table Text Value) (name : Text) : Except Failure (Table Text Value) :=
  match world.get? name with
  | none => .ok []
  | some v => if v.isTrue then membersOf v else .ok []

/-- The members of a map that has to be one if it is given. -/
def members (world : Table Text Value) (name : Text) : Except Failure (Table Text Value) :=
  match world.get? name with
  | none => .ok []
  | some v => membersOf v

def currentOf (world : Table Text Value) : Except Failure Key :=
  match ((world.get? "current").getD (.text "main")).toKey? with
  | some key => .ok key
  | none => .error (.mismatch .name)

def flags (world : Table Text Value) : Except Failure FlagStore := do
  let current ← currentOf world
  let containers ← (← optionalMembers world "flags").mapM fun (name, v) => do
    return ((Key.text name, ← entriesOf v) : Key × Table Key Value)
  return .create current containers

def fragments (world : Table Text Value) : Except Failure FragmentLibrary := do
  (← optionalMembers world "fragments").foldlM
    (fun (all : FragmentLibrary) (name, v) => do
      return Table.insert all (.text name) (Table.ofEntries (← entriesOf v)))
    []

def constant {σ : Type} (v : Value) : Getter σ := fun _ => .done v

variable {σ : Type}

def registerConditions (e : Engine σ) (conditions : Table Text Value) : Except Failure (Engine σ) :=
  conditions.foldlM (fun e p => (e.registerCondition p.1 (constant p.2)).map Prod.fst) e

def registerPlaceholders (e : Engine σ) (placeholders : Table Text Value) : Engine σ :=
  placeholders.foldl (fun e p => (e.registerPlaceholder p.1 (constant p.2)).1) e

/-- The action that every engine of a world knows. -/
def flagAction : Text := "flag"

def build (repair : Repair) (world : Table Text Value) :
    Except Failure (Engine σ × FlagStore) := do
  let store ← flags world
  let library ← fragments world
  let settings := Settings.ofEntries (← members world "settings")
  let e ← Engine.create settings repair (some library)
  let e := (e.registerAction flagAction (.plain ActionEntry.changeFlags)).1
  let e := registerPlaceholders e (← members world "placeholders")
  let e ← registerConditions e (← members world "conditions")
  return (e, store)

/-- What there is to report about an engine that was built. -/
def report (e : Engine σ) (store : FlagStore) : Notice :=
  .worldLoaded store.containers.length e.placeholders.length e.conditions.length

def start (store : FlagStore) (memory : σ) : State σ := ⟨store, [], none, 0, [], memory⟩

end World

end StoryScript
