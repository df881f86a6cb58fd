import StoryScript.Branch.Token
import StoryScript.Notice

/-! Tokens as a tree of chains. A chain that was closed right before a branch goes on with it,
unless that is an `else`; an `else` outside all chains opens one; a stray end is dropped. -/

namespace StoryScript

namespace Node

inductive Cursor where
  | outside
  /-- In the last branch of an open chain. -/
  | inside (earlier : List Branch) (last : Branch)
  /-- Directly after the end of a chain. -/
  | after (branches : List Branch)
deriving Repr

/-- The branch that a keyword opens; an `else` has no condition. -/
def branchOf (kind : BranchKind) (condition : Text) : Branch :=
  ⟨kind, if kind = .otherwise then [] else condition, []⟩

/-- The nodes of the tokens that follow a cursor. -/
def ofTokensFrom : Cursor → List Token → List Node
  | .outside, [] => []
  | .inside earlier last, [] => [chain ⟨earlier ++ [last], false⟩]
  | .after branches, [] => [chain ⟨branches, true⟩]
  | .outside, .literal t :: rest => literal t :: ofTokensFrom .outside rest
  | .inside earlier last, .literal t :: rest =>
    ofTokensFrom (.inside earlier { last with body := last.body ++ t }) rest
  | .after branches, .literal t :: rest =>
    chain ⟨branches, true⟩ :: literal t :: ofTokensFrom .outside rest
  | .outside, .keyword .ends _ _ :: rest => ofTokensFrom .outside rest
  | .inside earlier last, .keyword .ends _ _ :: rest =>
    ofTokensFrom (.after (earlier ++ [last])) rest
  | .after branches, .keyword .ends _ _ :: rest => ofTokensFrom (.after branches) rest
  | .outside, .keyword (.opens kind) condition _ :: rest =>
    ofTokensFrom (.inside [] (branchOf kind condition)) rest
  | .inside earlier last, .keyword (.opens kind) condition _ :: rest =>
    ofTokensFrom (.inside (earlier ++ [last]) (branchOf kind condition)) rest
  | .after branches, .keyword (.opens kind) condition _ :: rest =>
    if kind = .otherwise then
      chain ⟨branches, true⟩ :: ofTokensFrom (.inside [] (branchOf kind condition)) rest
    else ofTokensFrom (.inside branches (branchOf kind condition)) rest

def ofText (t : Text) : List Node := ofTokensFrom .outside (Token.ofText t)

/-- What there is to report about tokens: ends outside all chains, and a chain left open. -/
def reports : (isOpen : Bool) → List Token → List Notice
  | isOpen, [] => if isOpen then [.unterminatedChain] else []
  | isOpen, .literal _ :: rest => reports isOpen rest
  | true, .keyword .ends _ _ :: rest => reports false rest
  | false, .keyword .ends _ position :: rest => .strayEnd position :: reports false rest
  | _, .keyword (.opens _) _ _ :: rest => reports true rest

def reportsOfText (t : Text) : List Notice := reports false (Token.ofText t)

variable {m : Type → Type} [Monad m]

/-- The body of the first branch that passes a test. -/
def firstPassing (test : Branch → m Bool) : List Branch → m Text
  | [] => pure []
  | b :: bs => do
    if ← test b then return b.body
    else firstPassing test bs

/-- The text that is shown, testing branches from left to right. -/
def render (test : Branch → m Bool) : List Node → m Text
  | [] => pure []
  | literal t :: nodes => do return t ++ (← render test nodes)
  | chain c :: nodes => do
    let shown ← firstPassing test c.branches
    return shown ++ (← render test nodes)

end Node

end StoryScript
