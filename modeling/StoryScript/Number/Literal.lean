import StoryScript.Text.Basic
import StoryScript.Text.Digit
import StoryScript.Number.Binary64

/-! Reading numbers that authors write. A numeral is an optional sign, digits of any script with at
most one point, and an optional exponent. A quantity is what a flag may be set to: a numeral with
blanks around it and single underscores between its digits, or a name of an infinity or of the
number that is none. -/

namespace StoryScript

/-- The parts of a numeral. -/
structure Numeral where
  negative : Bool
  whole : List Nat
  /-- The digits after the point, if there is a point. -/
  fraction : Option (List Nat)
  exponent : Option Int
deriving DecidableEq, Repr

namespace Numeral

/-- Whether the numeral has neither point nor exponent. -/
def isPlain (n : Numeral) : Bool := n.fraction.isNone && n.exponent.isNone

def value (n : Numeral) : Binary64 :=
  let fraction := n.fraction.getD []
  .ofDecimal n.negative (Digit.ofDigits (n.whole ++ fraction))
    (n.exponent.getD 0 - fraction.length)

def readSign : Text → Bool × Text
  | '-' :: cs => (true, cs)
  | '+' :: cs => (false, cs)
  | cs => (false, cs)

/-- An exponent mark, a sign and at least one digit, if they are there. -/
def readExponent (t : Text) : Option Int × Text :=
  match t with
  | c :: cs =>
    if c = 'e' || c = 'E' then
      let (negative, rest) := readSign cs
      match Digit.run rest with
      | ([], _) => (none, t)
      | (ds, rest) =>
        let n : Int := Digit.ofDigits ds
        (some (if negative then -n else n), rest)
    else (none, t)
  | [] => (none, [])

def readFront (t : Text) : Option (Numeral × Text) :=
  let (negative, t) := readSign t
  let (whole, t) := Digit.run t
  let (fraction, t) :=
    match t with
    | '.' :: cs => let (ds, rest) := Digit.run cs; (some ds, rest)
    | _ => (none, t)
  if whole.isEmpty && (fraction.getD []).isEmpty then none
  else
    let (exponent, t) := readExponent t
    some (⟨negative, whole, fraction, exponent⟩, t)

/-- A text that is one numeral; a single line break may end it. -/
def read? (t : Text) : Option Numeral :=
  match readFront t with
  | some (n, []) => some n
  | some (n, ['\n']) => some n
  | _ => none

end Numeral

namespace Quantity

/-- Blanks that may surround a quantity: the ASCII separators are not among them. -/
def isMargin (c : Char) : Bool :=
  if c.toNat < 0x80 then c.toNat == 0x20 || (0x09 ≤ c.toNat && c.toNat ≤ 0x0D)
  else Blank.isBlank c

/-- Takes the underscores out, each of which must stand between two digits. -/
def ungroup : (afterDigit : Bool) → Text → Option Text
  | _, [] => some []
  | afterDigit, c :: cs =>
    if c = '_' then
      if afterDigit && (cs.head?.map Digit.isDigit).getD false then ungroup false cs else none
    else (ungroup (Digit.isDigit c) cs).map (c :: ·)

private def named? (negative : Bool) (name : Text) : Option Binary64 :=
  let name := name.map Char.toLower
  if name = ("inf" : Text) || name = ("infinity" : Text) then some (.infinite negative)
  else if name = ("nan" : Text) then some .nan
  else none

def read? (t : Text) : Option Binary64 :=
  let t := ((t.dropWhile isMargin).reverse.dropWhile isMargin).reverse
  let (negative, name) := Numeral.readSign t
  match named? negative name with
  | some x => some x
  | none => (ungroup false t).bind fun t => (Numeral.read? t).map Numeral.value

/-- The names of quantities begin with letters, so a text that has something else behind its sign
is read as a numeral. -/
theorem read?_of_not_named {t name : Text} {c : Char}
    (hmargin : ((t.dropWhile isMargin).reverse.dropWhile isMargin).reverse = t)
    (hname : (Numeral.readSign t).2 = c :: name) (hi : c.toLower ≠ 'i') (hn : c.toLower ≠ 'n') :
    read? t = (ungroup false t).bind fun t => (Numeral.read? t).map Numeral.value := by
  have hnamed (negative : Bool) : named? negative (c :: name) = none := by
    simp [named?, hi, hn]
  simp only [read?, hmargin, hname, hnamed]

/-- A quantity is a name behind a sign, or a numeral once its underscores are taken out. -/
theorem read?_cases {t : Text} {x : Binary64} (h : read? t = some x) :
    let u := ((t.dropWhile isMargin).reverse.dropWhile isMargin).reverse
    (Numeral.readSign u).2.map Char.toLower ∈ (["inf", "infinity", "nan"] : List Text) ∨
      ∃ v n, ungroup false u = some v ∧ Numeral.read? v = some n := by
  intro u
  unfold read? at h
  dsimp only at h
  split at h
  · next y hy =>
    unfold named? at hy
    dsimp only at hy
    split at hy
    · next hname =>
      rcases Bool.or_eq_true_iff.1 hname with hname | hname
      · exact .inl (by simp [u, of_decide_eq_true hname])
      · exact .inl (by simp [u, of_decide_eq_true hname])
    · split at hy
      · next hname => exact .inl (by simp [u, hname])
      · cases hy
  · obtain ⟨v, hv, hread⟩ := Option.bind_eq_some_iff.1 h
    obtain ⟨n, hn, -⟩ := Option.map_eq_some_iff.1 hread
    exact .inr ⟨v, n, hv, hn⟩

end Quantity

end StoryScript
