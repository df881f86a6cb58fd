import StoryScript.Block.Object
import StoryScript.Json.Writer
import StoryScript.Text.Letter
import StoryScript.Value.Compare

/-! The library that the program repairs action blocks with. Strict JSON is read as that, and what
authors write instead is read leniently: bare keys and values, other quotation marks, commas missing
or too many, comments, and ends left out. Lenient reading never fails; what can begin nothing is
passed over. Nothing that is proved about engines is about this library. -/

namespace StoryScript.Lenient

open Blank (isBlank)
open Letter (isLetter isLetterOrNumeral isWord)

/-- What encloses a place of the text, each of which ends a line comment in its own way. -/
structure Surroundings where
  inElement : Bool
  inMember : Bool

namespace Surroundings

def outside : Surroundings := ⟨false, false⟩

def endsComment (s : Surroundings) (atKey : Bool) (c : Char) : Bool :=
  c == '\n' || c == '\r' || (s.inElement && c == ']') || (s.inMember && c == '}') ||
    (atKey && c == ':')

end Surroundings

/-- What follows a comment in a pair of marks; one that is not closed runs to the end. -/
def afterComment (t : Text) : Text := ((Text.cutAt? "*/" t).map Prod.snd).getD []

/-- Passes over blanks and comments. -/
def skipFiller (ends : Char → Bool) : (fuel : Nat) → Text → Text
  | 0, t => t
  | fuel + 1, t =>
    match Text.trimLeft t with
    | '#' :: rest => skipFiller ends fuel (rest.dropWhile fun c => !ends c)
    | '/' :: '/' :: rest => skipFiller ends fuel (rest.dropWhile fun c => !ends c)
    | '/' :: '*' :: rest => skipFiller ends fuel (afterComment rest)
    | rest => rest

def skip (s : Surroundings) (atKey : Bool) (t : Text) : Text :=
  skipFiller (s.endsComment atKey) t.length t

def closingMark? (c : Char) : Option Char :=
  if c = '"' then some '"'
  else if c = '\'' then some '\''
  else if c = '“' ∨ c = '”' then some '”'
  else none

def isMark (c : Char) : Bool := (closingMark? c).isSome

def hexValue? (c : Char) : Option Nat :=
  if '0' ≤ c ∧ c ≤ '9' then some (c.toNat - 48)
  else if 'a' ≤ c ∧ c ≤ 'f' then some (c.toNat - 87)
  else if 'A' ≤ c ∧ c ≤ 'F' then some (c.toNat - 55)
  else none

def hexNumber? (n : Nat) (t : Text) : Option Nat :=
  if t.length < n then none
  else (t.take n).foldlM (fun m c => (hexValue? c).map (m * 16 + ·)) 0

/-- The character that an escape stands for and what follows it, where the escape begins after a
backslash; of an unknown escape the backslash stays. -/
def escape? (close : Char) : Text → Option (Char × Text)
  | [] => none
  | c :: rest =>
    if c = 't' then some ('\t', rest)
    else if c = 'n' then some ('\n', rest)
    else if c = 'r' then some ('\r', rest)
    else if c = 'b' then some (Char.ofNat 8, rest)
    else if c = '\\' ∨ c = close ∨ isMark c then some (c, rest)
    else if c = 'u' then (hexNumber? 4 rest).map fun n => (Char.ofNat n, rest.drop 4)
    else if c = 'x' then (hexNumber? 2 rest).map fun n => (Char.ofNat n, rest.drop 2)
    else none

/-- The inside of a quotation up to its closing mark, and what follows, or nothing when the text
ends first. -/
def quoted? (close : Char) : (fuel : Nat) → Text → Option (Text × Text)
  | 0, _ => none
  | fuel + 1, t =>
    match t with
    | [] => none
    | '\\' :: rest =>
      match escape? close rest with
      | some (c, rest) => (quoted? close fuel rest).map fun q => (c :: q.1, q.2)
      | none => (quoted? close fuel rest).map fun q => ('\\' :: q.1, q.2)
    | c :: rest =>
      if c = close then some ([], rest)
      else (quoted? close fuel rest).map fun q => (c :: q.1, q.2)

/-- Reads a quotation after its opening mark. One that nothing closes ends, in an object, before
the first closing brace, and otherwise with the text. -/
def quoted (close : Char) (inObject : Bool) (t : Text) : Text × Text :=
  match quoted? close (t.length + 1) t with
  | some q => q
  | none =>
    if inObject then (Text.trimRight (t.takeWhile (· ≠ '}')), t.dropWhile (· ≠ '}'))
    else (t, [])

/-- The characters that a bare key ends at when it is looked for behind a bare value. -/
def endsBareKey (c : Char) : Bool := [',', '{', '}', '[', ']', '"', '\'', ':'].contains c

def beginsMember (t : Text) : Bool :=
  match Text.trimLeft t with
  | [] => false
  | c :: rest =>
    match closingMark? c with
    | some close =>
      match quoted? close (rest.length + 1) rest with
      | some (_, rest) => (Text.trimLeft rest).head? == some ':'
      | none => false
    | none =>
      c != ':' && ((c :: rest).dropWhile fun c => !endsBareKey c).head? == some ':'

/-- Whether nothing but blanks stands before the next closing brace. -/
def beforeBrace (t : Text) : Bool := (Text.trimLeft t).head? == some '}'

/-- An unquoted value of an object: up to a closing brace, or a comma that ends the member. -/
def bareMember : Text → Text × Text
  | [] => ([], [])
  | c :: rest =>
    if c = '}' ∨ (c = ',' ∧ (beginsMember rest ∨ beforeBrace rest)) then ([], c :: rest)
    else
      let (more, rest) := bareMember rest
      (c :: more, rest)

/-- Unquoted text where a value is expected, without the blanks at its end. -/
def bare (inObject : Bool) (t : Text) : Text × Text :=
  if inObject then
    let (s, rest) := bareMember t
    (Text.trimRight s, rest)
  else
    let ends (c : Char) : Bool := c == ',' || c == ']'
    (Text.trimRight (t.takeWhile fun c => !ends c), t.dropWhile fun c => !ends c)

def words : List (Text × Value) :=
  [("true", .bool true), ("false", .bool false), ("null", .null), ("none", .null)]

/-- A word that stands for a value and is not part of a longer one. -/
def word? (t : Text) : Option (Value × Text) :=
  let letters := t.takeWhile isWord
  (words.find? fun w => w.1 == letters.map Char.toLower).map fun w =>
    (w.2, t.dropWhile isWord)

def isNumberChar (c : Char) : Bool :=
  c.isDigit || c == '-' || c == '.' || c == 'e' || c == 'E'

/-- What a run of number characters stands for: a number if it is one, and otherwise itself. -/
def numberOf (run : Text) : Value :=
  match Numeral.readFront run with
  | some (n, []) =>
    if n.isPlain then
      let size : Int := Digit.ofDigits n.whole
      .int (if n.negative then -size else size)
    else .float n.value
  | _ => .text run

def number (inObject : Bool) (t : Text) : Value × Text :=
  let (run, rest) := t.span isNumberChar
  match rest.head? with
  | some c =>
    if isLetter c || c == '_' then
      let (s, rest) := bare inObject t
      (.text s, rest)
    else finish run rest
  | none => finish run rest
where
  /-- A sign or exponent mark at the end belongs to what follows. -/
  finish (run rest : Text) : Value × Text :=
    match run.getLast? with
    | some c =>
      if c = '-' ∨ c = 'e' ∨ c = 'E' then (numberOf run.dropLast, c :: rest)
      else (numberOf run, rest)
    | none => (.text run, rest)

/-- A key, quoted or bare, and what follows it; what can begin none is passed over. A bare key is
given up when another word follows it. -/
def key (s : Surroundings) : (fuel : Nat) → Text → Text × Text
  | 0, t => ([], t)
  | fuel + 1, t =>
    match skip s true t with
    | [] => ([], [])
    | c :: rest =>
      match closingMark? c with
      | some close => quoted close false rest
      | none =>
        if isLetterOrNumeral c then
          let ends (c : Char) : Bool := c == ':' || isBlank c
          let name := (c :: rest).takeWhile fun c => !ends c
          let rest := (c :: rest).dropWhile fun c => !ends c
          match rest with
          | [] => (name, [])
          | ':' :: _ => (name, rest)
          | _ =>
            let next := skip s true rest
            match next with
            | [] => ([], [])
            | c :: _ =>
              if c = ':' ∨ c = ',' then (name, next)
              else if c = '}' then ([], next)
              else key s fuel next
        else key s fuel rest

mutual

def value (s : Surroundings) (inObject : Bool) : (fuel : Nat) → Text → Value × Text
  | 0, t => (.text [], t)
  | fuel + 1, t =>
    match skip s false t with
    | [] => (.text [], [])
    | '{' :: rest => object s fuel rest
    | '[' :: rest =>
      let (items, rest) := elements { s with inElement := true } fuel rest
      (.list items, rest)
    | c :: rest =>
      match closingMark? c with
      | some close =>
        let (q, rest) := quoted close inObject rest
        (.text q, rest)
      | none =>
        if isLetter c then
          match word? (c :: rest) with
          | some found => found
          | none =>
            let (b, rest) := bare inObject (c :: rest)
            (.text b, rest)
        else if c.isDigit || c == '-' || c == '.' then number inObject (c :: rest)
        else value s inObject fuel rest

/-- An object after its opening brace. One in which no member is found although something stands
in it is read as a list. -/
def object (s : Surroundings) : (fuel : Nat) → Text → Value × Text
  | 0, t => (.map [], t)
  | fuel + 1, t =>
    let (entries, rest) := members { s with inMember := true } fuel [] t
    if entries.isEmpty && 1 < t.length - rest.length then
      let (items, rest) := elements { s with inElement := true } fuel t
      (.list items, rest)
    else (.map entries, rest.drop 1)

/-- The members of an object, added to those read before, up to its closing brace. -/
def members (s : Surroundings) : (fuel : Nat) → Table Text Value → Text → Table Text Value × Text
  | 0, entries, t => (entries, t)
  | fuel + 1, entries, t =>
    match skip s true t with
    | [] => (entries, [])
    | '}' :: rest => (entries, '}' :: rest)
    | t =>
      let (name, rest) := key s t.length t
      match skip s true rest with
      | [] => (entries, [])
      | '}' :: rest => (entries, '}' :: rest)
      | _ :: rest =>
        match skip s false rest with
        | [] => (entries.insert name (.text []), [])
        | c :: rest =>
          if c = ',' ∨ c = '}' then
            afterMember s fuel (entries.insert name (.text [])) (c :: rest)
          else
            let (v, rest) := value s true fuel (c :: rest)
            afterMember s fuel (entries.insert name v) rest

/-- Goes on after a member, past a comma or a stray quotation mark. -/
def afterMember (s : Surroundings) :
    (fuel : Nat) → Table Text Value → Text → Table Text Value × Text
  | 0, entries, t => (entries, t)
  | fuel + 1, entries, t =>
    match skip s true t with
    | ',' :: rest => members s fuel entries rest
    | rest => members s fuel entries rest

/-- The elements of a list up to the bracket or brace that ends it. -/
def elements (s : Surroundings) : (fuel : Nat) → Text → List Value × Text
  | 0, t => ([], t)
  | fuel + 1, t =>
    match (skip s false t).dropWhile fun c => c == ',' || isBlank c with
    | [] => ([], [])
    | c :: rest =>
      if c = ']' ∨ c = '}' then ([], rest)
      else
        let (v, rest) := value s false fuel (c :: rest)
        let (vs, rest) := elements s fuel rest
        (v :: vs, rest)

end

def read? (t : Text) : Option Value :=
  match t.dropWhile fun c => c != '{' && c != '[' with
  | [] => none
  | start => some (value .outside false (4 * t.length + 4) start).1

/-- The JSON text of what was read, where an empty text stands for nothing. -/
def written : Value → Text
  | .text [] => []
  | v => Json.write v

/-- Restates a text as strict JSON; empty if it holds neither object nor list. -/
def repair : Repair := fun t =>
  match Json.parse t with
  | .ok v => written v
  | .error _ => ((read? t).map written).getD []

end StoryScript.Lenient
