import StoryScript.Json.Writer
import StoryScript.Store.Flags

/-! Flags as a value that can be written: containers and flags become members, named by the text
of their keys. -/

namespace StoryScript

def Key.toName : Key → Text
  | .text t => t
  | .null => "null"
  | .bool b => if b then "true" else "false"
  | .int n => Text.ofInt n
  | .float x => Json.numberLayout.write x

namespace FlagStore

def named {α : Type} (t : Table Key α) : List (Text × α) := t.map fun e => (e.1.toName, e.2)

def toValue (s : FlagStore) : Value :=
  .map ((named s.containers).map fun c => (c.1, .map (named c.2)))

end FlagStore

end StoryScript
