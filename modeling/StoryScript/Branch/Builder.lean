import StoryScript.Branch.Tree

/-! Conditional text built token by token into a list of nodes. A chain is in the list from its
first branch on, and what follows is written to it through references into the list: one to the
chain that is open, and one to a chain that ended right before, which a branch may open again. -/

namespace StoryScript

namespace Chain

/-- Writes on in the last branch of a chain, if it has one. -/
def write? (t : Text) (c : Chain) : Option Chain :=
  c.branches.getLast?.map fun last =>
    { c with branches := c.branches.dropLast ++ [{ last with body := last.body ++ t }] }

def addBranch (b : Branch) (c : Chain) : Chain := { c with branches := c.branches ++ [b] }

end Chain

structure Builder where
  nodes : List Node
  /-- Where the chain is that is open. -/
  opened : Option Nat
  /-- Where the chain is that ended right before. -/
  closed : Option Nat
deriving DecidableEq, Repr

namespace Builder

def start : Builder := ⟨[], none, none⟩

/-- Changes the chain at an index; there is no answer if no chain is there or it cannot be
changed so. -/
def change? (f : Chain → Option Chain) (nodes : List Node) (i : Nat) : Option (List Node) :=
  match nodes[i]? with
  | some (.chain c) => (f c).map fun c => nodes.set i (.chain c)
  | _ => none

/-- Where the chain is that a branch opens again outside all chains; an `else` opens none. -/
def reopened? (b : Builder) (kind : BranchKind) : Option Nat :=
  if kind = .otherwise then none else b.closed

/-- The nodes with the chain that a branch belongs to, opened again or begun if need be, and where
that chain is. -/
def target? (b : Builder) (kind : BranchKind) : Option (List Node × Nat) :=
  match b.opened, b.reopened? kind with
  | some i, _ => some (b.nodes, i)
  | none, some i =>
    (change? (fun c => some { c with terminated := false }) b.nodes i).map fun nodes => (nodes, i)
  | none, none => some (b.nodes ++ [.chain ⟨[], false⟩], b.nodes.length)

/-- Takes in a token; there is no answer if a reference is to no chain, or text is to be written
to a chain without branches. -/
def step? (b : Builder) : Token → Option Builder
  | .literal t =>
    match b.opened with
    | some i => (change? (Chain.write? t) b.nodes i).map fun nodes => ⟨nodes, some i, none⟩
    | none => some ⟨b.nodes ++ [.literal t], none, none⟩
  | .keyword .ends _ _ =>
    match b.opened with
    | some i =>
      (change? (fun c => some { c with terminated := true }) b.nodes i).map fun nodes =>
        ⟨nodes, none, some i⟩
    | none => some b
  | .keyword (.opens kind) condition _ => do
    let (nodes, i) ← b.target? kind
    let nodes ← change? (fun c => some (c.addBranch (Node.branchOf kind condition))) nodes i
    return ⟨nodes, some i, none⟩

def run? (tokens : List Token) (b : Builder) : Option Builder := tokens.foldlM step? b

end Builder

end StoryScript
