import StoryScript.Failure
import StoryScript.Value.Compare

/-! Sums of values. Integers are added exactly; a sum with a floating-point number is rounded;
texts and lists are joined; other values have no sum. -/

namespace StoryScript.Value

/-- The floating-point number that a number becomes part of a sum as. -/
def toSummand : Value → Except Failure Binary64
  | .float x => .ok x
  | v =>
    match v.toExact? with
    | none => .error (.mismatch .sum)
    | some n =>
      match Binary64.ofInt? n with
      | some x => .ok x
      | none => .error .integerTooLarge

def isNumber : Value → Bool
  | .bool _ | .int _ | .float _ => true
  | _ => false

def plus (v w : Value) : Except Failure Value :=
  match v.toExact?, w.toExact? with
  | some m, some n => .ok (.int (m + n))
  | _, _ =>
    if v.isNumber && w.isNumber then do
      let x ← v.toSummand
      let y ← w.toSummand
      return .float (x.add y)
    else
      match v, w with
      | .text s, .text t => .ok (.text (s ++ t))
      | .list xs, .list ys => .ok (.list (xs ++ ys))
      | _, _ => .error (.mismatch .sum)

end StoryScript.Value
