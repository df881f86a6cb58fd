import StoryScript.Text.Basic

/-! Lines of a text, in the two senses that are in use. Positions count line feeds alone; the lines
that are shown also end at every other line break of the Unicode standard. -/

namespace StoryScript.Lines

/-- The characters that end a shown line; a carriage return and a line feed after it end one. -/
def breaks : List Nat := [0x0A, 0x0B, 0x0C, 0x0D, 0x1C, 0x1D, 0x1E, 0x85, 0x2028, 0x2029]

def isBreak (c : Char) : Bool := breaks.contains c.toNat

/-- The lines of a text of which the last one was begun already; it is given in reverse. -/
def splitFrom : (read : Text) → Text → List Text
  | [], [] => []
  | c :: read, [] => [(c :: read).reverse]
  | read, '\r' :: '\n' :: cs => read.reverse :: splitFrom [] cs
  | read, c :: cs =>
    if isBreak c then read.reverse :: splitFrom [] cs else splitFrom (c :: read) cs

/-- The lines that are shown; a break at the very end begins no line. -/
def split (t : Text) : List Text := splitFrom [] t

/-- The line and the column of a position, counted from one. -/
def position (t : Text) (offset : Nat) : Nat × Nat :=
  let before := t.take offset
  (before.count '\n' + 1, (before.reverse.takeWhile (· ≠ '\n')).length + 1)

/-- The text with every line break of a file, be it a line feed, a carriage return or both, made a
line feed. -/
def unify : Text → Text
  | [] => []
  | '\r' :: '\n' :: cs => '\n' :: unify cs
  | c :: cs => (if c = '\r' then '\n' else c) :: unify cs

end StoryScript.Lines
