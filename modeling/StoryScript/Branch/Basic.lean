import StoryScript.Text.Basic

/-! Conditional text as a list of nodes: text that is always shown, and chains of branches of which
at most one is shown. -/

namespace StoryScript

inductive BranchKind where
  | ifAll
  | ifAny
  | otherwise
deriving DecidableEq, Repr

def BranchKind.word : BranchKind → Text
  | ifAll => "if"
  | ifAny => "ifOr"
  | otherwise => "else"

/-- What may stand in front of a brace group: the start of a branch, or the end of a chain. -/
inductive Keyword where
  | opens (kind : BranchKind)
  | ends
deriving DecidableEq, Repr

namespace Keyword

def word : Keyword → Text
  | opens kind => kind.word
  | ends => "fi"

def all : List Keyword := [.opens .ifAll, .ends, .opens .otherwise, .opens .ifAny]

/-- The keyword that a text ends in; one of two letters is looked for first. -/
def before? (t : Text) : Option Keyword :=
  all.find? fun k => k.word == t.takeEnd k.word.length

end Keyword

structure Branch where
  kind : BranchKind
  /-- The clause the branch depends on; nothing depends on an empty one. -/
  condition : Text
  body : Text
deriving DecidableEq, Repr

structure Chain where
  branches : List Branch
  terminated : Bool
deriving DecidableEq, Repr

inductive Node where
  | literal (text : Text)
  | chain (chain : Chain)
deriving DecidableEq, Repr

end StoryScript
