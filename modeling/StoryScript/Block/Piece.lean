import StoryScript.Text.Basic

/-! Text cut at its outermost brace groups. Main statement: the pieces of a text, written one after
another, are the text again (`written_split`). -/

namespace StoryScript

inductive Piece where
  /-- Text outside all groups. -/
  | plain (text : Text)
  /-- What stands between a brace and the one that closes it. -/
  | group (inner : Text)
  /-- What follows a brace that nothing closes. -/
  | unmatched (rest : Text)
deriving DecidableEq, Repr

namespace Piece

def written : Piece → Text
  | plain text => text
  | group inner => '{' :: inner ++ ['}']
  | unmatched rest => '{' :: rest

def ofPlain : Text → List Piece
  | [] => []
  | c :: cs => [plain (c :: cs)]

/-- Cuts a text of which the front was read already: `depth` braces are open, and `read` holds
what was read since the outermost of them, or since the last group, in reverse. -/
def splitFrom : (depth : Nat) → (read : Text) → Text → List Piece
  | 0, read, [] => ofPlain read.reverse
  | _ + 1, read, [] => [unmatched read.reverse]
  | 0, read, c :: cs =>
    if c = '{' then ofPlain read.reverse ++ splitFrom 1 [] cs else splitFrom 0 (c :: read) cs
  | depth + 1, read, c :: cs =>
    if c = '{' then splitFrom (depth + 2) (c :: read) cs
    else if c = '}' then
      match depth with
      | 0 => group read.reverse :: splitFrom 0 [] cs
      | depth + 1 => splitFrom (depth + 1) (c :: read) cs
    else splitFrom (depth + 1) (c :: read) cs

def split (t : Text) : List Piece := splitFrom 0 [] t

theorem written_ofPlain (t : Text) : (ofPlain t).flatMap written = t := by
  cases t <;> simp [ofPlain, written]

theorem written_splitFrom (depth : Nat) (read t : Text) :
    (splitFrom depth read t).flatMap written =
      (if depth = 0 then read.reverse else '{' :: read.reverse) ++ t := by
  fun_induction splitFrom depth read t <;> simp_all [written, written_ofPlain]

theorem written_split (t : Text) : (split t).flatMap written = t := by
  simp [split, written_splitFrom]

end Piece

end StoryScript
