import StoryScript.Text.Letter
import StoryScript.Text.Basic

/-! The speaker of a text: a word and a colon at its beginning. What is said stands on one line,
though blanks before it and one line break after it count for nothing. -/

namespace StoryScript.Speaker

/-- What is said after the colon, unless it runs over several lines. -/
def speech? (t : Text) : Option Text :=
  let t := Text.trimLeft t
  let line := t.takeWhile (· ≠ '\n')
  let rest := t.dropWhile (· ≠ '\n')
  if rest.isEmpty || rest == ['\n'] then some line else none

/-- The speaker and what is said, or the whole text without a speaker. -/
def split (t : Text) : Option Text × Text :=
  let name := t.takeWhile Letter.isWord
  match t.dropWhile Letter.isWord with
  | ':' :: rest =>
    if name.isEmpty then (none, t)
    else
      match speech? rest with
      | some speech => (some name, speech)
      | none => (none, t)
  | _ => (none, t)

end StoryScript.Speaker
