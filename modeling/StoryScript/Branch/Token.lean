import StoryScript.Block.Piece
import StoryScript.Branch.Basic

/-! Conditional text as tokens. A brace group with a keyword in front of it is a keyword token;
every other group is kept in the text around it. -/

namespace StoryScript

inductive Token where
  | literal (text : Text)
  /-- A keyword with its condition, and the position of its opening brace. -/
  | keyword (keyword : Keyword) (condition : Text) (position : Nat)
deriving DecidableEq, Repr

namespace Token

/-- A literal token, unless there is no text for one. -/
def ofLiteral : Text → List Token
  | [] => []
  | c :: cs => [literal (c :: cs)]

/-- The tokens of pieces that begin at a position, after text that no keyword has ended yet. -/
def ofPieces : (position : Nat) → (pending : Text) → List Piece → List Token
  | _, pending, [] => ofLiteral pending
  | position, pending, .group inner :: pieces =>
    let next := position + (Piece.group inner).written.length
    match Keyword.before? pending with
    | some k =>
      ofLiteral (pending.dropEnd k.word.length) ++
        keyword k inner.trim position :: ofPieces next [] pieces
    | none => ofPieces next (pending ++ (Piece.group inner).written) pieces
  | position, pending, piece :: pieces =>
    ofPieces (position + piece.written.length) (pending ++ piece.written) pieces

def ofText (t : Text) : List Token := ofPieces 0 [] (Piece.split t)

end Token

end StoryScript
