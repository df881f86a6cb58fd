/-! Binary floating-point numbers of 64 bits as exact values: a finite number is a signed integer
significand times a power of two, and every operation rounds its exact result to the nearest
representable number, a tie to the even significand. Nothing here rests on the machine's own
floating-point type, so sums and comparisons are facts about integers. -/

namespace StoryScript

/-- A quotient rounded to the nearest natural number, a tie to the even one. -/
def roundDiv (n d : Nat) : Nat :=
  if 2 * (n % d) < d then n / d
  else if d < 2 * (n % d) then n / d + 1
  else n / d + n / d % 2

namespace Binary64

/-- The pairs of significand and exponent that stand for finite numbers: 53 bits with the leading
one set, except at the least exponent. -/
def Canonical (significand : Nat) (exponent : Int) : Prop :=
  significand < Nat.pow 2 53 ∧ -1074 ≤ exponent ∧ exponent ≤ 971 ∧
    (Nat.pow 2 52 ≤ significand ∨ exponent = -1074)

instance (m : Nat) (e : Int) : Decidable (Canonical m e) :=
  inferInstanceAs (Decidable (_ ∧ _ ∧ _ ∧ _))

end Binary64

inductive Binary64 where
  | nan
  | infinite (negative : Bool)
  | finite (negative : Bool) (significand : Nat) (exponent : Int)
      (canonical : Binary64.Canonical significand exponent)
deriving DecidableEq, Repr

namespace Binary64

def zero (negative : Bool) : Binary64 := .finite negative 0 (-1074) (by decide)

instance : Inhabited Binary64 := ⟨zero false⟩

/-- A significand and exponent beyond the finite range stand for an infinity. -/
def ofParts (negative : Bool) (significand : Nat) (exponent : Int) : Binary64 :=
  if h : Canonical significand exponent then .finite negative significand exponent h
  else .infinite negative

/-- Numerator and denominator of `n / d / 2 ^ e`. -/
def scaled (n d : Nat) (e : Int) : Nat × Nat :=
  if 0 ≤ e then (n, d * Nat.pow 2 e.toNat) else (n * Nat.pow 2 (-e).toNat, d)

/-- The exponent at which a positive quotient has a significand of 53 bits, or the least one. -/
def exponentOf (n d : Nat) : Int :=
  let e := max ((n.log2 : Int) - d.log2 - 53) (-1074)
  let s := scaled n d e
  if Nat.pow 2 53 ≤ s.1 / s.2 then e + 1 else e

/-- The number nearest to a quotient. -/
def ofRatio (negative : Bool) (n d : Nat) : Binary64 :=
  if n = 0 then zero negative
  else
    let e := exponentOf n d
    let s := scaled n d e
    let m := roundDiv s.1 s.2
    if m = Nat.pow 2 53 then ofParts negative (Nat.pow 2 52) (e + 1) else ofParts negative m e

/-- The number nearest to `n * 10 ^ e`. Beyond 400 decimal places either way the answer is an
infinity or a zero whatever the digits are. -/
def ofDecimal (negative : Bool) (n : Nat) (e : Int) : Binary64 :=
  let size := e + (Nat.toDigits 10 n).length
  if n = 0 || size < -400 then zero negative
  else if 400 < size then .infinite negative
  else if 0 ≤ e then ofRatio negative (n * Nat.pow 10 e.toNat) 1
  else ofRatio negative n (Nat.pow 10 (-e).toNat)

/-- The number nearest to an integer, unless that is an infinity. -/
def ofInt? (n : Int) : Option Binary64 :=
  match ofRatio (n < 0) n.natAbs 1 with
  | .infinite _ => none
  | x => some x

def ofNat (n : Nat) : Binary64 := ofRatio false n 1

/-- A signed significand moved to the left. -/
def signed (negative : Bool) (significand : Nat) (shift : Nat) : Int :=
  if negative then -((significand * Nat.pow 2 shift : Nat) : Int)
  else (significand * Nat.pow 2 shift : Nat)

/-- The integer that a number is, if it is one. -/
def toInt? : Binary64 → Option Int
  | .finite s m e _ =>
    if 0 ≤ e then some (signed s m e.toNat)
    else if m % Nat.pow 2 (-e).toNat = 0 then some (signed s (m / Nat.pow 2 (-e).toNat) 0)
    else none
  | _ => none

/-- A number without its fraction. -/
def truncate? : Binary64 → Option Int
  | .finite s m e _ =>
    if 0 ≤ e then some (signed s m e.toNat) else some (signed s (m / Nat.pow 2 (-e).toNat) 0)
  | _ => none

def isZero : Binary64 → Bool
  | .finite _ m _ _ => m == 0
  | _ => false

def neg : Binary64 → Binary64
  | .nan => .nan
  | .infinite s => .infinite !s
  | .finite s m e h => .finite (!s) m e h

/-- The order of numbers; a number that is none is not below anything. -/
def lt : Binary64 → Binary64 → Bool
  | .nan, _ | _, .nan => false
  | .infinite s, .infinite t => s && !t
  | .infinite s, .finite .. => s
  | .finite .., .infinite t => !t
  | .finite s m e _, .finite t n f _ =>
    signed s m (e - min e f).toNat < signed t n (f - min e f).toNat

/-- Equality of numbers: both zeros are equal, and a number that is none equals nothing. -/
def eq : Binary64 → Binary64 → Bool
  | .nan, _ | _, .nan => false
  | .infinite s, .infinite t => s == t
  | .finite s m e _, .finite t n f _ =>
    signed s m (e - min e f).toNat == signed t n (f - min e f).toNat
  | _, _ => false

def le (x y : Binary64) : Bool := lt x y || eq x y

def add : Binary64 → Binary64 → Binary64
  | .nan, _ | _, .nan => .nan
  | .infinite s, .infinite t => if s == t then .infinite s else .nan
  | .infinite s, .finite .. => .infinite s
  | .finite .., .infinite t => .infinite t
  | .finite s m e _, .finite t n f _ =>
    let base := min e f
    let sum := signed s m (e - base).toNat + signed t n (f - base).toNat
    if sum = 0 then zero (s && t)
    else if 0 ≤ base then ofRatio (sum < 0) (sum.natAbs * Nat.pow 2 base.toNat) 1
    else ofRatio (sum < 0) sum.natAbs (Nat.pow 2 (-base).toNat)

end Binary64

end StoryScript
