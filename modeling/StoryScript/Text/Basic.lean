import StoryScript.Text.Blank

/-! Text as a list of code points, with the cuts that authored text is taken apart by: trimming,
splitting at a character, and cutting at the first or last occurrence of something. Each cut loses
nothing but the separator it is named for. -/

namespace StoryScript

/-- Text is a list of code points; positions, lengths and columns count its elements. -/
abbrev Text := List Char

instance : Coe String Text := ⟨String.toList⟩

namespace Text

open Blank (isBlank)

def trimLeft (t : Text) : Text := t.dropWhile isBlank

def trimRight (t : Text) : Text := (t.reverse.dropWhile isBlank).reverse

/-- Text without the blanks at both ends. -/
def trim (t : Text) : Text := trimRight (trimLeft t)

/-- The last `n` characters, or all of them when there are fewer. -/
def takeEnd (n : Nat) (t : Text) : Text := t.drop (t.length - n)

/-- Text without its last `n` characters. -/
def dropEnd (n : Nat) (t : Text) : Text := t.take (t.length - n)

/-- The fields between the occurrences of a separator; there is always at least one. -/
def fields (sep : Char) : Text → List Text
  | [] => [[]]
  | c :: cs =>
    if c = sep then [] :: fields sep cs
    else
      match fields sep cs with
      | [] => [[c]]
      | f :: fs => (c :: f) :: fs

/-- The text around the first occurrence of a character. -/
def cut? (sep : Char) : Text → Option (Text × Text)
  | [] => none
  | c :: cs =>
    if c = sep then some ([], cs)
    else (cut? sep cs).map fun p => (c :: p.1, p.2)

/-- The text around the last occurrence of a character. -/
def cutLast? (sep : Char) : Text → Option (Text × Text)
  | [] => none
  | c :: cs =>
    match cutLast? sep cs with
    | some p => some (c :: p.1, p.2)
    | none => if c = sep then some ([], cs) else none

/-- What follows a given beginning. -/
def after? : (start : Text) → Text → Option Text
  | [], t => some t
  | _ :: _, [] => none
  | s :: ss, c :: cs => if s = c then after? ss cs else none

/-- The text around the first occurrence of a phrase. -/
def cutAt? (phrase : Text) : Text → Option (Text × Text)
  | [] => if phrase.isEmpty then some ([], []) else none
  | c :: cs =>
    match after? phrase (c :: cs) with
    | some rest => some ([], rest)
    | none => (cutAt? phrase cs).map fun p => (c :: p.1, p.2)

/-- Replaces the occurrences of a nonempty phrase, leftmost first and without overlap; `skip`
counts the characters of an occurrence that are still to be passed over. -/
def replaceFrom (phrase replacement : Text) : (skip : Nat) → Text → Text
  | _, [] => []
  | skip + 1, _ :: cs => replaceFrom phrase replacement skip cs
  | 0, c :: cs =>
    match after? phrase (c :: cs) with
    | some _ => replacement ++ replaceFrom phrase replacement (phrase.length - 1) cs
    | none => c :: replaceFrom phrase replacement 0 cs

def replace (phrase replacement t : Text) : Text := replaceFrom phrase replacement 0 t

/-- Text pieces written one after another with a separator between neighbours. -/
def join (sep : Text) : List Text → Text
  | [] => []
  | [t] => t
  | t :: u :: ts => t ++ sep ++ join sep (u :: ts)

def ofNat (n : Nat) : Text := Nat.toDigits 10 n

def ofInt (n : Int) : Text := if n < 0 then '-' :: ofNat n.natAbs else ofNat n.natAbs

/-- Text written to the right edge of a column of the given width. -/
def padLeft (width : Nat) (t : Text) : Text := List.replicate (width - t.length) ' ' ++ t

/-- Text is ordered by code points, the shorter first when one begins the other. -/
def le : Text → Text → Bool
  | [], _ => true
  | _ :: _, [] => false
  | a :: as, b :: bs => if a = b then le as bs else a.toNat < b.toNat

end Text

end StoryScript
