import StoryScript.Value.Basic
import StoryScript.Number.Literal

/-! The two equalities of values and the number a value counts as. `same` is structural up to the
kind of a number; `looselyEqual` also takes a truth value or a numeral for the number it counts as,
and is what conditions compare with. -/

namespace StoryScript.Value

/-- A truth value or an integer as an integer. -/
def toExact? : Value → Option Int
  | .bool b => some (if b then 1 else 0)
  | .int n => some n
  | _ => none

/-- Equality of numbers of either kind, without rounding. -/
def sameNumber (v w : Value) : Bool :=
  match v.toExact?, w.toExact? with
  | some m, some n => m == n
  | some m, none =>
    match w with
    | .float y => y.toInt? == some m
    | _ => false
  | none, some n =>
    match v with
    | .float x => x.toInt? == some n
    | _ => false
  | none, none =>
    match v, w with
    | .float x, .float y => x.eq y
    | _, _ => false

mutual

/-- Equality up to the kind of a number and the order of a map. -/
def same : Value → Value → Bool
  | .null, .null => true
  | .text s, .text t => s == t
  | .list xs, .list ys => sameList xs ys
  | .map xs, .map ys => xs.length == ys.length && sameEntries xs ys
  | v, w => sameNumber v w

def sameList : List Value → List Value → Bool
  | [], [] => true
  | x :: xs, y :: ys => same x y && sameList xs ys
  | _, _ => false

def sameEntries : List (Text × Value) → List (Text × Value) → Bool
  | [], _ => true
  | (k, x) :: rest, ys =>
    (match Table.get? ys k with
      | some y => same x y
      | none => false) && sameEntries rest ys

end

/-- The number that a text counts as: nothing counts as zero, and what is no numeral as none. -/
def numberOfText (t : Text) : Binary64 :=
  let t := t.trim
  if t.isEmpty then .zero false
  else
    match Numeral.read? t with
    | some n => n.value
    | none => .nan

/-- The number that a value counts as, unless it is an integer too large for one. -/
def toNumber? : Value → Option Binary64
  | .null => some (.zero false)
  | .bool b => some (if b then .ofNat 1 else .zero false)
  | .int n => Binary64.ofInt? n
  | .float x => some x
  | .text t => some (numberOfText t)
  | .list _ | .map _ => some .nan

def isScalar : Value → Bool
  | .bool _ | .int _ | .float _ | .text _ => true
  | _ => false

/-- Equality as conditions mean it, unless an integer is too large to count as a number. -/
def looselyEqual? (v w : Value) : Option Bool :=
  match v, w with
  | .null, .null => some true
  | .null, _ | _, .null => some false
  | .text s, .text t => some (s == t)
  | v, w =>
    if v.isScalar && w.isScalar then
      v.toNumber?.bind fun x => w.toNumber?.map fun y => x.eq y
    else some (same v w)

end StoryScript.Value
