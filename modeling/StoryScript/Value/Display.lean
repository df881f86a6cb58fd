import StoryScript.Value.Basic
import StoryScript.Number.Shortest
import StoryScript.Text.Quoted

/-! The two ways a value is shown: `display` as messages and attributes show it, and `render` as
readers of a story see it, who get no text for nothing, lower-case truth values and whole numbers
without a fraction. -/

namespace StoryScript.Value

/-- Numbers are shown positionally from `0.0001` up to sixteen digits before the point. -/
def numberLayout : DecimalLayout := ⟨"nan", "inf", -4, 16, 2⟩

mutual

/-- A value as an element of a displayed list or map, where texts are quoted. -/
def displayInside : Value → Text
  | .null => "None"
  | .bool b => if b then "True" else "False"
  | .int n => Text.ofInt n
  | .float x => numberLayout.write x
  | .text t => Quoted.write t
  | .list items => '[' :: displayItems items ++ [']']
  | .map entries => '{' :: displayEntries entries ++ ['}']

def displayItems : List Value → Text
  | [] => []
  | [v] => displayInside v
  | v :: w :: vs => displayInside v ++ ", " ++ displayItems (w :: vs)

def displayEntries : List (Text × Value) → Text
  | [] => []
  | [(k, v)] => Quoted.write k ++ ": " ++ displayInside v
  | (k, v) :: e :: es =>
    Quoted.write k ++ ": " ++ displayInside v ++ ", " ++ displayEntries (e :: es)

end

def display : Value → Text
  | .text t => t
  | v => displayInside v

/-- A value as it appears in a story. -/
def render : Value → Text
  | .null => []
  | .bool b => if b then "true" else "false"
  | .float x =>
    match x.toInt? with
    | some n => Text.ofInt n
    | none => numberLayout.write x
  | v => display v

end StoryScript.Value
