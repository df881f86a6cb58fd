import StoryScript.Text.Basic

/-! The brace that closes an open one. The depth counts the braces opened less those closed, so it
is below zero after a closing brace that nothing opened. -/

namespace StoryScript.Block

/-- How far into a text, and at which closing brace, a depth first comes back to zero. -/
def closingFrom : (depth : Int) → Text → Option Nat
  | _, [] => none
  | depth, c :: cs =>
    if c = '{' then (closingFrom (depth + 1) cs).map (· + 1)
    else if c = '}' then
      if depth = 1 then some 0 else (closingFrom (depth - 1) cs).map (· + 1)
    else (closingFrom depth cs).map (· + 1)

theorem closingFrom_cons_open (cs : Text) :
    closingFrom 0 ('{' :: cs) = (closingFrom 1 cs).map (· + 1) := by
  simp [closingFrom]

/-- The index of the brace that closes the one at an index, if there is one. -/
def closing? (t : Text) (start : Nat) : Option Nat :=
  (closingFrom 0 (t.drop start)).map (start + ·)

end StoryScript.Block
