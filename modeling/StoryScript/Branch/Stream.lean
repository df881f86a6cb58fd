import StoryScript.Branch.Tree

/-! Conditional text read in one pass over its tokens, without a tree: four truth values tell where
in a chain the pass is, and each literal is shown or dropped as it is met. -/

namespace StoryScript.Stream

structure Standing where
  isOpen : Bool
  /-- Whether a branch of the chain was shown already. -/
  fired : Bool
  /-- Whether the branch that the pass is in is shown. -/
  live : Bool
  /-- Whether a chain ended right before. -/
  adjacent : Bool
deriving DecidableEq, Repr

def start : Standing := ⟨false, false, false, false⟩

def afterLiteral (s : Standing) : Standing := { s with adjacent := false }

/-- The standing behind the end of a chain; a stray end changes nothing. -/
def afterEnd (s : Standing) : Standing :=
  if s.isOpen then { s with isOpen := false, adjacent := true } else s

/-- The standing in which a branch of a kind is met: outside all chains it begins a new one, unless
it goes on with the chain that ended right before. -/
def atBranch (kind : BranchKind) (s : Standing) : Standing :=
  if s.isOpen then s
  else { s with isOpen := true, fired := s.fired && s.adjacent && kind != .otherwise }

def inBranch (passes : Bool) (s : Standing) : Standing :=
  { s with live := passes, fired := s.fired || passes, adjacent := false }

variable {m : Type → Type} [Monad m]

/-- The text that is shown of tokens. A branch is tested only if none of its chain was shown. -/
def render (test : Branch → m Bool) : Standing → List Token → m Text
  | _, [] => pure []
  | s, .literal t :: rest => do
    let shown ← render test (afterLiteral s) rest
    return if !s.isOpen || s.live then t ++ shown else shown
  | s, .keyword .ends _ _ :: rest => render test (afterEnd s) rest
  | s, .keyword (.opens kind) condition _ :: rest => do
    let s := atBranch kind s
    let passes ← if s.fired then pure false else test (Node.branchOf kind condition)
    render test (inBranch passes s) rest

end StoryScript.Stream
