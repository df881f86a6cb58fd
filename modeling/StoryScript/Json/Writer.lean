import StoryScript.Value.Basic
import StoryScript.Value.Display

/-! Writing JSON, either on one line or with one member or element per line. Characters beyond
ASCII stand for themselves. -/

namespace StoryScript.Json

/-- Numbers are laid out as values are displayed, under the names that the reader knows. -/
def numberLayout : DecimalLayout :=
  { Value.numberLayout with nan := "NaN", infinity := "Infinity" }

def escapeChar (c : Char) : Text :=
  if c = '"' then "\\\""
  else if c = '\\' then "\\\\"
  else if c = '\n' then "\\n"
  else if c = '\r' then "\\r"
  else if c = '\t' then "\\t"
  else if c.toNat = 8 then "\\b"
  else if c.toNat = 12 then "\\f"
  else if c.toNat ≤ 0x1F then "\\u" ++ Quoted.hex 4 c.toNat
  else [c]

def writeString (t : Text) : Text := '"' :: t.flatMap escapeChar ++ ['"']

mutual

def write : Value → Text
  | .null => "null"
  | .bool b => if b then "true" else "false"
  | .int n => Text.ofInt n
  | .float x => numberLayout.write x
  | .text t => writeString t
  | .list items => '[' :: writeItems items ++ [']']
  | .map entries => '{' :: writeEntries entries ++ ['}']

def writeItems : List Value → Text
  | [] => []
  | [v] => write v
  | v :: w :: vs => write v ++ ", " ++ writeItems (w :: vs)

def writeEntries : List (Text × Value) → Text
  | [] => []
  | [(k, v)] => writeString k ++ ": " ++ write v
  | (k, v) :: e :: es => writeString k ++ ": " ++ write v ++ ", " ++ writeEntries (e :: es)

end

def newLine (depth : Nat) : Text := '\n' :: List.replicate (2 * depth) ' '

mutual

/-- A value over several lines, the members of a container two columns further to the right. -/
def writeIndented (depth : Nat) : Value → Text
  | .list [] => "[]"
  | .list (v :: vs) =>
    '[' :: indentItems (depth + 1) (v :: vs) ++ newLine depth ++ [']']
  | .map [] => ['{', '}']
  | .map (e :: es) =>
    '{' :: indentEntries (depth + 1) (e :: es) ++ newLine depth ++ ['}']
  | v => write v

def indentItems (depth : Nat) : List Value → Text
  | [] => []
  | [v] => newLine depth ++ writeIndented depth v
  | v :: w :: vs => newLine depth ++ writeIndented depth v ++ "," ++ indentItems depth (w :: vs)

def indentEntries (depth : Nat) : List (Text × Value) → Text
  | [] => []
  | [(k, v)] => newLine depth ++ writeString k ++ ": " ++ writeIndented depth v
  | (k, v) :: e :: es =>
    newLine depth ++ writeString k ++ ": " ++ writeIndented depth v ++ "," ++
      indentEntries depth (e :: es)

end

end StoryScript.Json
