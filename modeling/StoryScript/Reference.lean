import StoryScript.Text.Basic
import StoryScript.Text.Letter

/-! References to registered names: a name, possibly with arguments in parentheses, as in `name` or
`name(first, second)`. -/

namespace StoryScript

structure Reference where
  name : Text
  arguments : List Text
deriving DecidableEq, Repr

namespace Reference

/-- What stands between an opening parenthesis and the first closing one, and what follows. -/
def parenthesised? : Text → Option (Text × Text)
  | '(' :: cs => Text.cut? ')' cs
  | _ => none

/-- The arguments that a text lists; an empty text lists none. -/
def argumentsOf (t : Text) : List Text :=
  if t.isEmpty then [] else (Text.fields ',' t).map Text.trim

/-- Whether a text ends here, but for a single line break. -/
def isEnd (t : Text) : Bool := t.isEmpty || t == ['\n']

def read? (start t : Text) : Option Reference :=
  (Text.after? start t).bind fun t =>
    let (name, rest) := t.span Letter.isNameChar
    if name.isEmpty then none
    else if isEnd rest then some ⟨start ++ name, []⟩
    else
      match parenthesised? rest with
      | some (inner, rest) =>
        if isEnd rest then some ⟨start ++ name, argumentsOf inner⟩ else none
      | none => none

end Reference

end StoryScript
