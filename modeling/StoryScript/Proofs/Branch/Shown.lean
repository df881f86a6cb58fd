import StoryScript.Branch.Tree

/-!
# What a tree shows, node by node

The branch of a chain that is shown is the first that passes. Main statements: rendering writes
what the nodes show one after another (`Node.render_eq_shown`), and what holds of all tokens holds
of their tree (`Node.all_ofTokensFrom`).
-/

namespace StoryScript.Node

variable {m : Type → Type} [Monad m]

/-- The first branch that passes a test, if one does. -/
def fired? (test : Branch → m Bool) : List Branch → m (Option Branch)
  | [] => pure none
  | b :: bs => do
    if ← test b then return some b
    else fired? test bs

/-- A test that is made only if no branch fired before. -/
def unlessFired (fired : Bool) (test : m Bool) : m Bool := if fired then pure false else test

@[simp] theorem unlessFired_true (test : m Bool) : unlessFired true test = pure false := rfl

@[simp] theorem unlessFired_false (test : m Bool) : unlessFired false test = test := rfl

def bodyOf (b : Option Branch) : Text := (b.map Branch.body).getD []

@[simp] theorem bodyOf_none : bodyOf none = [] := rfl

@[simp] theorem bodyOf_some (b : Branch) : bodyOf (some b) = b.body := rfl

@[simp] theorem body_branchOf (kind : BranchKind) (condition : Text) :
    (branchOf kind condition).body = [] := rfl

/-- What the nodes show, one text for each. -/
def shown (test : Branch → m Bool) : List Node → m (List Text)
  | [] => pure []
  | literal t :: nodes => do return t :: (← shown test nodes)
  | chain c :: nodes => do
    let b ← fired? test c.branches
    return bodyOf b :: (← shown test nodes)

/-- Whether a node is a literal of one kind or a chain of branches of another. -/
def All (onLiteral : Text → Prop) (onBranch : Branch → Prop) : Node → Prop
  | literal t => onLiteral t
  | chain c => ∀ b ∈ c.branches, onBranch b

/-- Whether a token is a literal of one kind or begins a branch of another. -/
def TokenAll (onLiteral : Text → Prop) (onBranch : Branch → Prop) : Token → Prop
  | .literal t => onLiteral t
  | .keyword (.opens kind) condition _ => onBranch (branchOf kind condition)
  | .keyword .ends _ _ => True

def Cursor.branches : Cursor → List Branch
  | .outside => []
  | .inside earlier last => earlier ++ [last]
  | .after branches => branches

@[simp] theorem Cursor.branches_outside : Cursor.outside.branches = [] := rfl

@[simp] theorem Cursor.branches_inside (earlier : List Branch) (last : Branch) :
    (Cursor.inside earlier last).branches = earlier ++ [last] := rfl

@[simp] theorem Cursor.branches_after (bs : List Branch) : (Cursor.after bs).branches = bs := rfl

variable [LawfulMonad m]

theorem firstPassing_eq (test : Branch → m Bool) (bs : List Branch) :
    firstPassing test bs = bodyOf <$> fired? test bs := by
  induction bs with
  | nil => simp [firstPassing, fired?]
  | cons b bs ih =>
    simp only [firstPassing, fired?, map_bind]
    apply bind_congr
    intro passes
    cases passes <;> simp [ih]

/-- A last branch is tested only if none of the others passed. -/
theorem fired?_append_singleton (test : Branch → m Bool) (bs : List Branch) (b : Branch) :
    fired? test (bs ++ [b]) = do
      let fired ← fired? test bs
      let passes ← unlessFired fired.isSome (test b)
      return if passes then some b else fired := by
  induction bs with
  | nil =>
    simp only [List.nil_append, fired?, pure_bind, Option.isSome_none, unlessFired_false]
    apply bind_congr
    intro passes
    cases passes <;> rfl
  | cons b' bs ih =>
    simp only [List.cons_append, fired?, bind_assoc]
    apply bind_congr
    intro passes
    cases passes <;> simp [ih]

theorem render_eq_shown (test : Branch → m Bool) (nodes : List Node) :
    render test nodes = List.flatten <$> shown test nodes := by
  induction nodes with
  | nil => simp [render, shown]
  | cons n nodes ih =>
    cases n with
    | literal t => simp [render, shown, ih]
    | chain c => simp [render, shown, ih, firstPassing_eq]

omit [Monad m] [LawfulMonad m] in
/-- What holds of the literals and of the branches that tokens begin, and of a branch whose body
goes on with a literal, holds of the whole tree. -/
theorem all_ofTokensFrom {onLiteral : Text → Prop} {onBranch : Branch → Prop}
    (hbody : ∀ b t, onBranch b → onLiteral t → onBranch { b with body := b.body ++ t })
    {cursor : Cursor} {tokens : List Token} (hcursor : ∀ b ∈ cursor.branches, onBranch b)
    (htokens : ∀ token ∈ tokens, TokenAll onLiteral onBranch token) :
    ∀ n ∈ ofTokensFrom cursor tokens, n.All onLiteral onBranch := by
  fun_induction ofTokensFrom cursor tokens with
  | case1 => simp
  | case2 earlier last => simpa [All] using hcursor
  | case3 branches => simpa [All] using hcursor
  | case4 t rest ih =>
    obtain ⟨ht, hrest⟩ := List.forall_mem_cons.1 htokens
    exact List.forall_mem_cons.2 ⟨ht, ih hcursor hrest⟩
  | case5 earlier last t rest ih =>
    obtain ⟨ht, hrest⟩ := List.forall_mem_cons.1 htokens
    obtain ⟨hearlier, hlast⟩ := List.forall_mem_append.1 hcursor
    have hlast := hbody last t (List.forall_mem_singleton.1 hlast) ht
    exact ih (List.forall_mem_append.2 ⟨hearlier, List.forall_mem_singleton.2 hlast⟩) hrest
  | case6 branches t rest ih =>
    obtain ⟨ht, hrest⟩ := List.forall_mem_cons.1 htokens
    exact List.forall_mem_cons.2 ⟨hcursor, List.forall_mem_cons.2 ⟨ht, ih (by simp) hrest⟩⟩
  | case7 _ _ rest ih | case8 _ _ _ _ rest ih | case9 _ _ _ rest ih =>
    exact ih hcursor (List.forall_mem_cons.1 htokens).2
  | case10 kind condition _ rest ih =>
    obtain ⟨hkeyword, hrest⟩ := List.forall_mem_cons.1 htokens
    exact ih (by simpa [TokenAll] using hkeyword) hrest
  | case11 earlier last kind condition _ rest ih =>
    obtain ⟨hkeyword, hrest⟩ := List.forall_mem_cons.1 htokens
    exact ih (List.forall_mem_append.2 ⟨hcursor, List.forall_mem_singleton.2 hkeyword⟩) hrest
  | case12 branches condition _ rest ih =>
    obtain ⟨hkeyword, hrest⟩ := List.forall_mem_cons.1 htokens
    exact List.forall_mem_cons.2 ⟨hcursor, ih (by simpa [TokenAll] using hkeyword) hrest⟩
  | case13 branches kind condition _ rest hkind ih =>
    obtain ⟨hkeyword, hrest⟩ := List.forall_mem_cons.1 htokens
    exact ih (List.forall_mem_append.2 ⟨hcursor, List.forall_mem_singleton.2 hkeyword⟩) hrest

end StoryScript.Node
