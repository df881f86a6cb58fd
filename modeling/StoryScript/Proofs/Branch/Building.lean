import StoryScript.Branch.Builder
import StoryScript.Proofs.Branch.Shown

/-!
# The tree of a text, built through references

A builder writes to chains that are in its list already. It never fails, because a reference is
always to the last node, which is a chain with a branch (`Builder.Stands`), and it builds the tree
that the tokens are read as. Main statement: the tree has the literals and the branches of the
tokens in their order, every chain has a branch, and only the last node may be left open
(`Node.ofText_keeps_order`).
-/

namespace StoryScript

/-! ## What stands in tokens and in nodes -/

/-- A branch as it is opened, before there is anything in it. -/
def Branch.opening (b : Branch) : Branch := { b with body := [] }

theorem Branch.opening_append (b : Branch) (t : Text) :
    Branch.opening { b with body := b.body ++ t } = b.opening := rfl

namespace Token

def text : Token → Text
  | literal t => t
  | keyword .. => []

/-- The branch that a token opens. -/
def opening? : Token → Option Branch
  | keyword (.opens kind) condition _ => some (Node.branchOf kind condition)
  | _ => none

end Token

namespace Node

/-- The text in a node, of which a chain has that of all its branches. -/
def text : Node → Text
  | literal t => t
  | chain c => c.branches.flatMap Branch.body

def branches : Node → List Branch
  | literal _ => []
  | chain c => c.branches

/-- Whether a node has everything it needs without what follows: a chain has a branch and is
closed. -/
def Settled : Node → Prop
  | literal _ => True
  | chain c => c.branches ≠ [] ∧ c.terminated

theorem text_ofTokensFrom (cursor : Cursor) (tokens : List Token) :
    (ofTokensFrom cursor tokens).flatMap text =
      cursor.branches.flatMap Branch.body ++ tokens.flatMap Token.text := by
  fun_induction ofTokensFrom cursor tokens <;>
    simp_all [text, Token.text]

theorem opening_branchOf (kind : BranchKind) (condition : Text) :
    (branchOf kind condition).opening = branchOf kind condition := rfl

theorem branches_ofTokensFrom (cursor : Cursor) (tokens : List Token) :
    ((ofTokensFrom cursor tokens).flatMap branches).map Branch.opening =
      cursor.branches.map Branch.opening ++ tokens.filterMap Token.opening? := by
  fun_induction ofTokensFrom cursor tokens <;>
    simp_all [branches, Token.opening?, opening_branchOf, Branch.opening_append,
      List.filterMap_cons]

end Node

namespace Builder

open Node

@[simp] theorem change?_append (f : Chain → Option Chain) (nodes : List Node) (c : Chain) :
    change? f (nodes ++ [.chain c]) nodes.length = (f c).map fun c => nodes ++ [.chain c] := by
  simp [change?]

@[simp] theorem write?_append (t : Text) (earlier : List Branch) (last : Branch)
    (terminated : Bool) :
    Chain.write? t ⟨earlier ++ [last], terminated⟩ =
      some ⟨earlier ++ [{ last with body := last.body ++ t }], terminated⟩ := by
  simp [Chain.write?]

/-- What a builder holds at a cursor behind nodes that are done: a reference is to the last node,
which is a chain with a branch. -/
inductive Stands (nodes : List Node) : Cursor → Builder → Prop
  | outside : Stands nodes .outside ⟨nodes, none, none⟩
  | inside (earlier : List Branch) (last : Branch) :
    Stands nodes (.inside earlier last)
      ⟨nodes ++ [.chain ⟨earlier ++ [last], false⟩], some nodes.length, none⟩
  | after {branches : List Branch} (h : branches ≠ []) :
    Stands nodes (.after branches) ⟨nodes ++ [.chain ⟨branches, true⟩], none, some nodes.length⟩

variable {nodes : List Node} {cursor : Cursor} {b : Builder}

/-- A branch is added to the chain that it belongs to. -/
theorem step?_opens {kind : BranchKind} {branches : List Branch}
    (h : b.target? kind = some (nodes ++ [.chain ⟨branches, false⟩], nodes.length))
    (condition : Text) (position : Nat) :
    b.step? (.keyword (.opens kind) condition position) =
      some ⟨nodes ++ [.chain ⟨branches ++ [branchOf kind condition], false⟩], some nodes.length,
        none⟩ := by
  simp [step?, h, Chain.addBranch]

/-- A token is taken in without fail, and what follows it is read from where the builder then
stands. -/
theorem Stands.step (hb : Stands nodes cursor b) (hnodes : ∀ n ∈ nodes, n.Settled)
    (token : Token) :
    ∃ b' nodes' cursor', b.step? token = some b' ∧ Stands nodes' cursor' b' ∧
      (∀ n ∈ nodes', n.Settled) ∧
      ∀ rest, nodes ++ ofTokensFrom cursor (token :: rest) =
        nodes' ++ ofTokensFrom cursor' rest := by
  cases hb with
  | outside =>
    match token with
    | .literal t =>
      have hsettled : ∀ n ∈ nodes ++ [.literal t], n.Settled :=
        List.forall_mem_append.2 ⟨hnodes, List.forall_mem_singleton.2 trivial⟩
      exact ⟨_, _, _, rfl, .outside, hsettled, by simp [ofTokensFrom]⟩
    | .keyword .ends condition position =>
      exact ⟨_, _, _, rfl, .outside, hnodes, by simp [ofTokensFrom]⟩
    | .keyword (.opens kind) condition position =>
      have htarget : target? ⟨nodes, none, none⟩ kind =
          some (nodes ++ [.chain ⟨[], false⟩], nodes.length) := by
        simp [target?, reopened?]
      exact ⟨_, _, _, step?_opens htarget condition position, .inside [] _, hnodes,
        by simp [ofTokensFrom]⟩
  | inside earlier last =>
    match token with
    | .literal t =>
      refine ⟨_, _, .inside earlier { last with body := last.body ++ t }, ?_, .inside _ _, hnodes,
        by simp [ofTokensFrom]⟩
      simp [step?]
    | .keyword .ends condition position =>
      have hne : earlier ++ [last] ≠ [] := by simp
      refine ⟨_, _, .after (earlier ++ [last]), ?_, .after hne, hnodes, by simp [ofTokensFrom]⟩
      simp [step?]
    | .keyword (.opens kind) condition position =>
      exact ⟨_, _, _, step?_opens rfl condition position, .inside (earlier ++ [last]) _, hnodes,
        by simp [ofTokensFrom]⟩
  | @after branches h =>
    have hclosed : ∀ n ∈ nodes ++ [.chain ⟨branches, true⟩], n.Settled :=
      List.forall_mem_append.2 ⟨hnodes, List.forall_mem_singleton.2 ⟨h, rfl⟩⟩
    match token with
    | .literal t =>
      have hsettled : ∀ n ∈ nodes ++ [.chain ⟨branches, true⟩] ++ [.literal t], n.Settled :=
        List.forall_mem_append.2 ⟨hclosed, List.forall_mem_singleton.2 trivial⟩
      exact ⟨_, _, _, rfl, .outside, hsettled, by simp [ofTokensFrom]⟩
    | .keyword .ends condition position =>
      exact ⟨_, _, _, rfl, .after h, hnodes, by simp [ofTokensFrom]⟩
    | .keyword (.opens kind) condition position =>
      by_cases hkind : kind = .otherwise
      · subst hkind
        exact ⟨_, _, _, step?_opens rfl condition position, .inside [] _, hclosed,
          by simp [ofTokensFrom]⟩
      · have htarget : target? ⟨nodes ++ [.chain ⟨branches, true⟩], none, some nodes.length⟩ kind =
            some (nodes ++ [.chain ⟨branches, false⟩], nodes.length) := by
          simp [target?, reopened?, hkind]
        exact ⟨_, _, _, step?_opens htarget condition position, .inside branches _, hnodes,
          by simp [ofTokensFrom, hkind]⟩

theorem Stands.run (hb : Stands nodes cursor b) (hnodes : ∀ n ∈ nodes, n.Settled)
    (tokens : List Token) :
    ∃ b' nodes' cursor', run? tokens b = some b' ∧ Stands nodes' cursor' b' ∧
      (∀ n ∈ nodes', n.Settled) ∧
      ∀ rest, nodes ++ ofTokensFrom cursor (tokens ++ rest) =
        nodes' ++ ofTokensFrom cursor' rest := by
  induction tokens generalizing nodes cursor b with
  | nil => exact ⟨b, nodes, cursor, rfl, hb, hnodes, fun _ => rfl⟩
  | cons token tokens ih =>
    obtain ⟨b₁, nodes₁, cursor₁, hstep, hb₁, hnodes₁, hread₁⟩ := hb.step hnodes token
    obtain ⟨b', nodes', cursor', hrun, hb', hnodes', hread⟩ := ih hb₁ hnodes₁
    refine ⟨b', nodes', cursor', ?_, hb', hnodes', fun rest => ?_⟩
    · simpa [run?, hstep] using hrun
    · rw [List.cons_append, hread₁, hread]

/-- The nodes of a builder are those that are read when no more tokens follow. -/
theorem Stands.nodes_eq (hb : Stands nodes cursor b) :
    b.nodes = nodes ++ ofTokensFrom cursor [] := by
  cases hb <;> simp [ofTokensFrom]

/-- Only the last node can be open, and none is without a branch. -/
theorem Stands.dropLast_settled (hb : Stands nodes cursor b) (hnodes : ∀ n ∈ nodes, n.Settled) :
    ∀ n ∈ b.nodes.dropLast, n.Settled := by
  cases hb with
  | outside => exact fun n hn => hnodes n (List.dropLast_subset _ hn)
  | inside | after => simpa using hnodes

theorem Stands.branches_ne_nil (hb : Stands nodes cursor b) (hnodes : ∀ n ∈ nodes, n.Settled)
    {c : Chain} (hc : .chain c ∈ b.nodes) : c.branches ≠ [] := by
  have hbefore : .chain c ∈ nodes → c.branches ≠ [] := fun h => (hnodes _ h).1
  cases hb with
  | outside => exact hbefore hc
  | inside earlier last =>
    rcases List.mem_append.1 hc with hc | hc
    · exact hbefore hc
    · simp_all
  | after h =>
    rcases List.mem_append.1 hc with hc | hc
    · exact hbefore hc
    · simp_all

theorem Stands.reopened?_eq_some (hb : Stands nodes cursor b) {kind : BranchKind} {i : Nat}
    (hi : b.reopened? kind = some i) : i + 1 = b.nodes.length := by
  cases hb <;> simp_all [reopened?]

/-- What tokens lead a fresh builder to: it holds the nodes of their tree so far, each of them with
a branch if it is a chain, and all but the last settled. -/
theorem run?_start (tokens : List Token) :
    ∃ b, run? tokens start = some b ∧ b.nodes = ofTokensFrom .outside tokens ∧
      (∀ c, .chain c ∈ b.nodes → c.branches ≠ []) ∧ (∀ n ∈ b.nodes.dropLast, n.Settled) ∧
      ∀ kind i, b.reopened? kind = some i → i + 1 = b.nodes.length := by
  obtain ⟨b, nodes, cursor, hrun, hb, hnodes, hread⟩ :=
    Stands.run .outside (List.forall_mem_nil _) tokens
  refine ⟨b, hrun, ?_, fun c hc => hb.branches_ne_nil hnodes hc, hb.dropLast_settled hnodes,
    fun kind i hi => hb.reopened?_eq_some hi⟩
  have htree := hread []
  rw [List.append_nil, List.nil_append] at htree
  rw [hb.nodes_eq, htree]

end Builder

namespace Node

theorem condition_of_otherwise {c : Chain} {tokens : List Token}
    (hc : .chain c ∈ ofTokensFrom .outside tokens) {b : Branch} (hb : b ∈ c.branches)
    (hkind : b.kind = .otherwise) : b.condition = [] := by
  have hall : ∀ n ∈ ofTokensFrom .outside tokens,
      n.All (fun _ => True) fun b => b.kind = .otherwise → b.condition = [] := by
    refine all_ofTokensFrom (fun b t h _ => h) (List.forall_mem_nil _) fun token _ => ?_
    rcases token with t | ⟨kind | _, condition, position⟩
    · trivial
    · exact fun h => if_pos h
    · trivial
  exact hall _ hc b hb hkind

/-- Reading a text as a tree keeps all of it in order: a builder that takes in its tokens one after
another never writes to a chain that is not there or has no branch, and it ends with the tree of the
text. The text of the tree is that of the literals, its branches are those that the keywords open,
and an `else` has no condition. At every moment each chain has a branch, a chain that would be
opened again is the last node, and no node before the last is open. -/
theorem ofText_keeps_order (t : Text) :
    (∃ b, Builder.run? (Token.ofText t) .start = some b ∧ b.nodes = ofText t) ∧
    (ofText t).flatMap text = (Token.ofText t).flatMap Token.text ∧
    ((ofText t).flatMap branches).map Branch.opening =
      (Token.ofText t).filterMap Token.opening? ∧
    (∀ c, .chain c ∈ ofText t →
      c.branches ≠ [] ∧ ∀ b ∈ c.branches, b.kind = .otherwise → b.condition = []) ∧
    (∀ c, .chain c ∈ (ofText t).dropLast → c.terminated) ∧
    ∀ front, front <+: Token.ofText t → ∃ b, Builder.run? front .start = some b ∧
      (∀ c, .chain c ∈ b.nodes → c.branches ≠ []) ∧
      (∀ c, .chain c ∈ b.nodes.dropLast → c.terminated) ∧
      ∀ kind i, b.reopened? kind = some i → i + 1 = b.nodes.length := by
  obtain ⟨b, hrun, htree, hbranches, hsettled, -⟩ := Builder.run?_start (Token.ofText t)
  have htree : b.nodes = ofText t := htree
  rw [htree] at hbranches hsettled
  refine ⟨⟨b, hrun, htree⟩, text_ofTokensFrom .outside (Token.ofText t),
    branches_ofTokensFrom .outside (Token.ofText t),
    fun c hc => ⟨hbranches c hc, fun b hb => condition_of_otherwise hc hb⟩,
    fun c hc => (hsettled _ hc).2, fun front _ => ?_⟩
  obtain ⟨b, hrun, -, hbranches, hsettled, hlast⟩ := Builder.run?_start front
  exact ⟨b, hrun, hbranches, fun c hc => (hsettled _ hc).2, hlast⟩

end Node

end StoryScript
