import StoryScript.Text.Basic
import StoryScript.Number.Binary64

/-! The shortest decimal text of a floating-point number: the fewest digits that read back as the
number, and of those the nearest to it. A finite number is the centre of the interval of reals that
round to it; the digits are the first decimal grid that has a point in that interval. -/

namespace StoryScript

structure DecimalLayout where
  nan : Text
  infinity : Text
  /-- Decimal exponents from this one on are written positionally, -/
  positionalFrom : Int
  /-- up to this one exclusively. -/
  scientificFrom : Int
  /-- The least number of digits of a written exponent. -/
  exponentDigits : Nat

namespace Binary64

/-- The interval of reals that round to a positive number, over a common denominator: lower end,
centre, upper end and denominator. The gap below a power of two is half as wide. -/
def neighbourhood (m : Nat) (e : Int) : Nat × Nat × Nat × Nat :=
  let unit := Nat.pow 2 e.toNat
  let centre := 4 * m * unit
  let below := if m = Nat.pow 2 52 ∧ -1074 < e then unit else 2 * unit
  (centre - below, centre, centre + 2 * unit, 4 * Nat.pow 2 (-e).toNat)

/-- The exponent of the first decimal digit of a positive quotient. -/
def decimalExponent (n d : Nat) : Int :=
  if d ≤ n then ((Nat.toDigits 10 (n / d)).length : Int) - 1
  else
    let k := (Nat.toDigits 10 (d / n)).length
    if d ≤ n * Nat.pow 10 (k - 1) then -((k : Int) - 1) else -(k : Int)

/-- The point of the decimal grid of spacing `10 ^ p` that reads back as the number, if there is
one, and of two such points the nearer. -/
def gridPoint? (m : Nat) (e p : Int) : Option Nat :=
  let (low, centre, high, den) := neighbourhood m e
  let up := Nat.pow 10 (-p).toNat
  let (low, centre, high, den) := (low * up, centre * up, high * up, den * Nat.pow 10 p.toNat)
  let inside (x : Nat) : Bool :=
    if m % 2 = 0 then low ≤ x * den && x * den ≤ high else low < x * den && x * den < high
  let d := centre / den
  match inside d, inside (d + 1) with
  | true, false => some d
  | false, true => some (d + 1)
  | true, true => some (roundDiv centre den)
  | false, false => none

/-- The digits of the shortest decimal of a positive number and the exponent of the last one. -/
def shortest (m : Nat) (e : Int) : Nat × Int :=
  let (_, centre, _, den) := neighbourhood m e
  let k := decimalExponent centre den
  ((List.range 17).findSome? fun (i : Nat) =>
    (gridPoint? m e (k - i)).map fun d => (d, k - (i : Int))).getD (0, 0)

end Binary64

namespace DecimalLayout

open Binary64

private def dropZeros : Text → Text
  | [] => []
  | c :: cs =>
    match dropZeros cs with
    | [] => if c = '0' then [] else [c]
    | d :: ds => c :: d :: ds

private def zeros (n : Nat) : Text := List.replicate n '0'

/-- Writes the digits of a number whose first digit has decimal exponent `x`. -/
def place (layout : DecimalLayout) (digits : Text) (x : Int) : Text :=
  if layout.positionalFrom ≤ x && x < layout.scientificFrom then
    if x < 0 then "0." ++ zeros (-x - 1).toNat ++ digits
    else
      let whole := (x + 1).toNat
      if digits.length ≤ whole then digits ++ zeros (whole - digits.length) ++ ".0"
      else digits.take whole ++ "." ++ digits.drop whole
  else
    let size := Text.ofNat x.natAbs
    let power := (if x < 0 then "-" else "+") ++ zeros (layout.exponentDigits - size.length) ++ size
    match digits with
    | [] => "e" ++ power
    | [d] => d :: ("e" ++ power)
    | d :: ds => d :: ("." ++ ds ++ "e" ++ power)

/-- The shortest text that reads back as the number. -/
def write (layout : DecimalLayout) : Binary64 → Text
  | .nan => layout.nan
  | .infinite s => (if s then ['-'] else []) ++ layout.infinity
  | .finite s m e _ =>
    let sign : Text := if s then ['-'] else []
    if m = 0 then sign ++ "0.0"
    else
      let (d, p) := shortest m e
      let all := Text.ofNat d
      sign ++ layout.place (dropZeros all) (p + all.length - 1)

end DecimalLayout

end StoryScript
