import StoryScript.Text.Basic

/-! What can be wrong with a JSON text, and where. Positions count code points from zero, lines and
columns from one; only a line feed ends a line. -/

namespace StoryScript.Json

inductive Problem where
  | expectingValue
  | expectingName
  | expectingColon
  | expectingComma
  | extraData
  | unterminatedString
  | controlCharacter
  | badEscape
  | badUnicodeEscape
  | byteOrderMark
  /-- An integer of more digits than are read. -/
  | integerTooLong
deriving DecidableEq, Repr

def Problem.message : Problem → Text
  | .expectingValue => "Expecting value"
  | .expectingName => "Expecting property name enclosed in double quotes"
  | .expectingColon => "Expecting ':' delimiter"
  | .expectingComma => "Expecting ',' delimiter"
  | .extraData => "Extra data"
  | .unterminatedString => "Unterminated string starting at"
  | .controlCharacter => "Invalid control character at"
  | .badEscape => "Invalid \\escape"
  | .badUnicodeEscape => "Invalid \\uXXXX escape"
  | .byteOrderMark => "Unexpected UTF-8 BOM (decode using utf-8-sig)"
  | .integerTooLong => "Integer has too many digits"

structure Error where
  problem : Problem
  position : Nat
  line : Nat
  column : Nat
deriving DecidableEq, Repr

namespace Error

/-- A problem found when `remaining` characters of the document were still to be read. -/
def inDocument (document : Text) (problem : Problem) (remaining : Nat) : Error :=
  let before := document.take (document.length - remaining)
  { problem
    position := before.length
    line := before.count '\n' + 1
    column := (before.reverse.takeWhile (· ≠ '\n')).length + 1 }

def message (e : Error) : Text :=
  e.problem.message ++ ": line " ++ Text.ofNat e.line ++ " column " ++ Text.ofNat e.column ++
    " (char " ++ Text.ofNat e.position ++ ")"

end Error

end StoryScript.Json
