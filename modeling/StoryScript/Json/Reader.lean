import StoryScript.Json.Error
import StoryScript.Value.Basic
import StoryScript.Text.Digit

/-! Reading JSON. The accepted texts are those of the standard together with the three names `NaN`,
`Infinity` and `-Infinity`; of the members of an object with one name the last counts, at the place
of the first. A failed step carries the text from which it could not go on, so that the error can
be placed in the document. Values nest as deep and numbers are as long as they like: the limits of
a runtime are no part of this. -/

namespace StoryScript.Json

/-- Where reading cannot go on: the problem and the text it stands before. -/
structure Stop where
  problem : Problem
  rest : Text
deriving DecidableEq, Repr

def isSpace (c : Char) : Bool := c == ' ' || c == '\t' || c == '\n' || c == '\r'

def skipSpace (t : Text) : Text := t.dropWhile isSpace

def hexValue? (c : Char) : Option Nat :=
  if '0' ≤ c && c ≤ '9' then some (c.toNat - 48)
  else if 'a' ≤ c && c ≤ 'f' then some (c.toNat - 87)
  else if 'A' ≤ c && c ≤ 'F' then some (c.toNat - 55)
  else none

/-- The number that the first four characters denote in hexadecimal, and what follows them. -/
def hexFour? : Text → Option (Nat × Text)
  | a :: b :: c :: d :: rest =>
    match hexValue? a, hexValue? b, hexValue? c, hexValue? d with
    | some a, some b, some c, some d => some (((a * 16 + b) * 16 + c) * 16 + d, rest)
    | _, _, _, _ => none
  | _ => none

def isHighSurrogate (n : Nat) : Bool := 0xD800 ≤ n && n ≤ 0xDBFF

def isLowSurrogate (n : Nat) : Bool := 0xDC00 ≤ n && n ≤ 0xDFFF

/-- The character of a code point; a surrogate on its own has none and is replaced. -/
def charOf (n : Nat) : Char :=
  if isHighSurrogate n || isLowSurrogate n then Char.ofNat 0xFFFD else Char.ofNat n

/-- Reads what follows the `u` of an escape: four hexadecimal digits that do not end the document,
and a second escape when the two are a surrogate pair. -/
def unicodeEscape (u : Char) (t : Text) : Except Stop (Char × Text) :=
  match hexFour? t with
  | some (n, rest) =>
    if rest.isEmpty then .error ⟨.badUnicodeEscape, u :: t⟩
    else if isHighSurrogate n && 6 < rest.length then
      match rest with
      | '\\' :: 'u' :: tail =>
        match hexFour? tail with
        | some (m, rest') =>
          if isLowSurrogate m then
            .ok (Char.ofNat (0x10000 + (n - 0xD800) * 0x400 + (m - 0xDC00)), rest')
          else .ok (charOf n, rest)
        | none => .error ⟨.badUnicodeEscape, 'u' :: tail⟩
      | _ => .ok (charOf n, rest)
    else .ok (charOf n, rest)
  | none => .error ⟨.badUnicodeEscape, u :: t⟩

def simpleEscape? (c : Char) : Option Char :=
  if c = '"' || c = '\\' || c = '/' then some c
  else if c = 'b' then some (Char.ofNat 8)
  else if c = 'f' then some (Char.ofNat 12)
  else if c = 'n' then some '\n'
  else if c = 'r' then some '\r'
  else if c = 't' then some '\t'
  else none

/-- Reads a string after its opening quotation mark, at which `start` begins. -/
def stringBody (start : Text) : (fuel : Nat) → Text → Except Stop (Text × Text)
  | 0, _ => .error ⟨.unterminatedString, start⟩
  | fuel + 1, t =>
    match t with
    | [] => .error ⟨.unterminatedString, start⟩
    | '"' :: rest => .ok ([], rest)
    | '\\' :: [] => .error ⟨.unterminatedString, start⟩
    | '\\' :: 'u' :: rest => do
      let (c, rest) ← unicodeEscape 'u' rest
      let (s, rest) ← stringBody start fuel rest
      return (c :: s, rest)
    | '\\' :: e :: rest =>
      match simpleEscape? e with
      | some c => do
        let (s, rest) ← stringBody start fuel rest
        return (c :: s, rest)
      | none => .error ⟨.badEscape, t⟩
    | c :: rest =>
      if c.toNat ≤ 0x1F then .error ⟨.controlCharacter, t⟩
      else do
        let (s, rest) ← stringBody start fuel rest
        return (c :: s, rest)

def string (start : Text) : Except Stop (Text × Text) := stringBody start start.length start.tail

def digits (t : Text) : Text × Text := t.span Char.isDigit

def ofDigits (ds : Text) : Nat := ds.foldl (fun n c => n * 10 + (c.toNat - 48)) 0

/-- A fraction, if a point and a digit are there. -/
def fraction (t : Text) : Option Text × Text :=
  match t with
  | '.' :: rest =>
    match digits rest with
    | ([], _) => (none, t)
    | (ds, rest) => (some ds, rest)
  | _ => (none, t)

/-- An exponent, if its mark and a digit are there. -/
def exponent (t : Text) : Option Int × Text :=
  match t with
  | e :: rest =>
    if e = 'e' || e = 'E' then
      let (negative, rest) : Bool × Text :=
        match rest with
        | '-' :: rest => (true, rest)
        | '+' :: rest => (false, rest)
        | rest => (false, rest)
      match digits rest with
      | ([], _) => (none, t)
      | (ds, rest) => (some (if negative then -(ofDigits ds : Int) else ofDigits ds), rest)
    else (none, t)
  | [] => (none, t)

/-- Integers of more digits than this are not read. -/
def maxDigits : Nat := 4300

/-- Reads a number; `start` is the text from its sign on. -/
def number (start : Text) : Except Stop (Value × Text) :=
  let (negative, t) : Bool × Text :=
    match start with
    | '-' :: rest => (true, rest)
    | _ => (false, start)
  let whole : Text × Text :=
    match t with
    | '0' :: rest => (['0'], rest)
    | _ => digits t
  if whole.1.isEmpty then .error ⟨.expectingValue, start⟩
  else
    let (frac, t) := fraction whole.2
    let (exp, t) := exponent t
    match frac, exp with
    | none, none =>
      if maxDigits < whole.1.length then .error ⟨.integerTooLong, start⟩
      else .ok (.int (if negative then -(ofDigits whole.1 : Int) else ofDigits whole.1), t)
    | _, _ =>
      let ds := frac.getD []
      .ok (.float (.ofDecimal negative (ofDigits (whole.1 ++ ds)) (exp.getD 0 - ds.length)), t)

def named : List (Text × Value) :=
  [("null", .null), ("true", .bool true), ("false", .bool false), ("NaN", .float .nan),
    ("Infinity", .float (.infinite false)), ("-Infinity", .float (.infinite true))]

def named? (t : Text) : Option (Value × Text) :=
  named.findSome? fun n => (Text.after? n.1 t).map fun rest => (n.2, rest)

mutual

def value : (fuel : Nat) → Text → Except Stop (Value × Text)
  | 0, t => .error ⟨.expectingValue, t⟩
  | fuel + 1, t =>
    match t with
    | '"' :: _ => do
      let (s, rest) ← string t
      return (.text s, rest)
    | '{' :: rest =>
      match skipSpace rest with
      | '}' :: rest => .ok (.map [], rest)
      | rest => do
        let (entries, rest) ← members fuel [] rest
        return (.map entries, rest)
    | '[' :: rest =>
      match skipSpace rest with
      | ']' :: rest => .ok (.list [], rest)
      | rest => do
        let (items, rest) ← elements fuel rest
        return (.list items, rest)
    | _ =>
      match named? t with
      | some found => .ok found
      | none => number t

/-- The members of an object from a name on, added to those already read. -/
def members : (fuel : Nat) → Table Text Value → Text → Except Stop (Table Text Value × Text)
  | 0, _, t => .error ⟨.expectingName, t⟩
  | fuel + 1, entries, t =>
    match t with
    | '"' :: _ => do
      let (name, rest) ← string t
      match skipSpace rest with
      | ':' :: rest => do
        let (v, rest) ← value fuel (skipSpace rest)
        match skipSpace rest with
        | '}' :: rest => return (entries.insert name v, rest)
        | ',' :: rest => members fuel (entries.insert name v) (skipSpace rest)
        | rest => .error ⟨.expectingComma, rest⟩
      | rest => .error ⟨.expectingColon, rest⟩
    | _ => .error ⟨.expectingName, t⟩

def elements : (fuel : Nat) → Text → Except Stop (List Value × Text)
  | 0, t => .error ⟨.expectingValue, t⟩
  | fuel + 1, t => do
    let (v, rest) ← value fuel t
    match skipSpace rest with
    | ']' :: rest => return ([v], rest)
    | ',' :: rest => do
      let (vs, rest) ← elements fuel (skipSpace rest)
      return (v :: vs, rest)
    | rest => .error ⟨.expectingComma, rest⟩

end

/-- One value with white space around it. -/
def document (t : Text) : Except Stop Value :=
  match t with
  | '\uFEFF' :: _ => .error ⟨.byteOrderMark, t⟩
  | _ => do
    let (v, rest) ← value (2 * t.length + 2) (skipSpace t)
    match skipSpace rest with
    | [] => return v
    | rest => .error ⟨.extraData, rest⟩

/-- Reads a JSON text, or tells what is wrong with it and where. -/
def parse (t : Text) : Except Error Value :=
  match document t with
  | .ok v => .ok v
  | .error stop => .error (.inDocument t stop.problem stop.rest.length)

end StoryScript.Json
