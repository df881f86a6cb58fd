import StoryScript.Failure
import StoryScript.Reference
import StoryScript.Value.Compare

/-! Single conditions: a key, an operator and a value, as in `gold >= 10`. The key is a flag or,
after the sigil, a registered condition with its arguments. -/

namespace StoryScript

/-- The value that the right side of a comparison denotes: a truth value, a number, or the text
itself. Nothing denotes zero. -/
def Value.ofLiteral (t : Text) : Value :=
  if t = ("true" : Text) then .bool true
  else if t = ("false" : Text) then .bool false
  else if t.isEmpty then .int 0
  else
    match Numeral.read? t with
    | none => .text t
    | some n =>
      if n.isPlain then
        match n.value.toInt? with
        | some i => .int i
        | none => .float n.value
      else .float n.value

inductive Operator where
  | equal
  | notEqual
  | atLeast
  | atMost
  | greater
  | less
deriving DecidableEq, Repr

namespace Operator

/-- The spellings of the operators, in the order in which they are looked for. -/
def spellings : List (Text × Operator) :=
  [("==", equal), ("!=", notEqual), (">=", atLeast), ("<=", atMost), (">", greater),
    ("<", less), ("=", equal)]

def word : Operator → Text
  | equal => "=="
  | notEqual => "!="
  | atLeast => ">="
  | atMost => "<="
  | greater => ">"
  | less => "<"

def isOrdering : Operator → Bool
  | equal | notEqual => false
  | _ => true

def orders (operator : Operator) (x y : Binary64) : Bool :=
  match operator with
  | greater => Binary64.lt y x
  | less => Binary64.lt x y
  | atLeast => Binary64.le y x
  | atMost => Binary64.le x y
  | equal => Binary64.eq x y
  | notEqual => !Binary64.eq x y

end Operator

structure Comparison where
  key : Text
  operator : Operator
  value : Text
deriving DecidableEq, Repr

namespace Comparison

def isKeyChar (c : Char) : Bool := Letter.isNameChar c || c == '.'

/-- The key at the front of a text, with its arguments in parentheses if it has any. -/
def readKey (t : Text) : Option (Text × Text) :=
  let (name, rest) := t.span isKeyChar
  if name.isEmpty then none
  else
    match Reference.parenthesised? rest with
    | some (inner, rest) => some (name ++ '(' :: inner ++ [')'], rest)
    | none => some (name, rest)

/-- The first operator that begins a text and leaves a value after it. -/
def readOperator (t : Text) : Option (Operator × Text) :=
  Operator.spellings.findSome? fun s =>
    (Text.after? s.1 t).bind fun rest =>
      let value := Text.trimLeft rest
      if value.isEmpty then none else some (s.2, value)

def readFrom (start t : Text) : Option Comparison := do
  let t ← Text.after? start t
  let (key, t) ← readKey t
  let (operator, value) ← readOperator (Text.trimLeft t)
  return ⟨start ++ key, operator, value⟩

/-- Reads a trimmed text as a comparison; the sigil counts as part of a key's beginning. -/
def read? (sigil t : Text) : Option Comparison := readFrom sigil t <|> readFrom [] t

/-- Whether the comparison holds of the key's value. There is no answer for an ordering against a
text, and a failure for an integer too large to count as a number. -/
def holds (c : Comparison) (actual : Value) : Except Failure (Option Bool) :=
  let expected := Value.ofLiteral c.value
  let answer (b : Option Bool) : Except Failure (Option Bool) :=
    match b with
    | some b => .ok (some b)
    | none => .error .integerTooLarge
  match c.operator with
  | .equal => answer (Value.looselyEqual? actual expected)
  | .notEqual => answer ((Value.looselyEqual? actual expected).map (!·))
  | operator =>
    if expected.isText then .ok none
    else answer (actual.toNumber?.bind fun x => expected.toNumber?.map (operator.orders x))

end Comparison

end StoryScript
