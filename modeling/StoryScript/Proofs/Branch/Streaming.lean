import StoryScript.Branch.Stream
import StoryScript.Engine.Gates
import StoryScript.Proofs.Branch.Shown

/-!
# One pass over the tokens shows what the tree shows

The tree of a text, rendered, writes the same text as one pass over its tokens and makes the same
tests in the same order (`Node.render_ofText_eq_stream`). The invariant is `resumed`: what a cursor
of the reader still has to render is what the pass writes on from a standing, behind the body of the
branch that fired so far.
-/

namespace StoryScript

variable {m : Type → Type} [Monad m]

namespace Stream

/-- Outside all chains a pass depends only on whether it may go on with a chain that fired. -/
theorem render_of_not_open [LawfulMonad m] (test : Branch → m Bool) {s s' : Standing}
    (tokens : List Token) (hs : s.isOpen = false) (hs' : s'.isOpen = false)
    (h : (s.fired && s.adjacent) = (s'.fired && s'.adjacent)) :
    render test s tokens = render test s' tokens := by
  induction tokens generalizing s s' with
  | nil => rfl
  | cons token rest ih =>
    match token with
    | .literal t =>
      have hrest := @ih (afterLiteral s) (afterLiteral s') hs hs' (by simp [afterLiteral])
      simp [render, hs, hs', hrest]
    | .keyword .ends _ _ =>
      simp only [render, afterEnd, hs, hs']
      exact ih hs hs' h
    | .keyword (.opens kind) condition _ =>
      have hfired : (atBranch kind s).fired = (atBranch kind s').fired := by
        simp [atBranch, hs, hs', h]
      have hopen : (atBranch kind s).isOpen = (atBranch kind s').isOpen := by
        simp [atBranch, hs, hs']
      have hin (passes : Bool) :
          inBranch passes (atBranch kind s) = inBranch passes (atBranch kind s') := by
        simp only [inBranch, hfired, hopen]
      simp [render, hfired, hin]

theorem render_opens [LawfulMonad m] (test : Branch → m Bool) (s : Standing) (kind : BranchKind)
    (condition : Text) (position : Nat) (rest : List Token) :
    render test s (.keyword (.opens kind) condition position :: rest) =
      Node.unlessFired (atBranch kind s).fired (test (Node.branchOf kind condition)) >>=
        fun passes => render test (inBranch passes (atBranch kind s)) rest := by
  cases h : (atBranch kind s).fired <;> simp [render, h]

end Stream

namespace Node

/-- A test that depends on the kind and the condition of a branch alone, as conditions are asked
about before the body of the branch is read. -/
def asking (ask : BranchKind → Text → m Bool) (b : Branch) : m Bool := ask b.kind b.condition

/-- What a pass writes on of tokens that follow a cursor: it tests the branches behind the cursor
first, and in an open chain the last of them decides whether the pass is live. -/
def resumed (test : Branch → m Bool) : Cursor → List Token → m Text
  | .outside, tokens => Stream.render test Stream.start tokens
  | .inside earlier last, tokens => do
    let fired ← fired? test earlier
    let passes ← unlessFired fired.isSome (test last)
    let rest ← Stream.render test ⟨true, fired.isSome || passes, passes, false⟩ tokens
    return bodyOf (if passes then some last else fired) ++ rest
  | .after branches, tokens => do
    let fired ← fired? test branches
    let rest ← Stream.render test ⟨false, fired.isSome, false, true⟩ tokens
    return bodyOf fired ++ rest

variable [LawfulMonad m] (ask : BranchKind → Text → m Bool)

/-- A branch is tested, and goes on with the chain, as the pass does from its standing there. -/
theorem resumed_branch (fired : Option Branch) {s : Stream.Standing} {kind : BranchKind}
    (hopen : (Stream.atBranch kind s).isOpen = true)
    (hfired : (Stream.atBranch kind s).fired = fired.isSome) (condition : Text) (position : Nat)
    (rest : List Token) :
    (do
      let passes ← unlessFired fired.isSome (asking ask (branchOf kind condition))
      let text ← Stream.render (asking ask) ⟨true, fired.isSome || passes, passes, false⟩ rest
      return bodyOf (if passes then some (branchOf kind condition) else fired) ++ text) =
    (do
      let text ← Stream.render (asking ask) s (.keyword (.opens kind) condition position :: rest)
      return bodyOf fired ++ text) := by
  simp only [Stream.render_opens, Stream.inBranch, hopen, hfired, bind_assoc]
  cases fired with
  | some b => simp
  | none =>
    apply bind_congr
    intro passes
    cases passes <;> simp

/-- A branch begins a chain where the pass has none to go on with. -/
theorem resumed_first (s : Stream.Standing) (kind : BranchKind)
    (hopen : (Stream.atBranch kind s).isOpen = true)
    (hfired : (Stream.atBranch kind s).fired = false) (condition : Text) (position : Nat)
    (rest : List Token) :
    resumed (asking ask) (.inside [] (branchOf kind condition)) rest =
      Stream.render (asking ask) s (.keyword (.opens kind) condition position :: rest) := by
  have h := resumed_branch ask none hopen hfired condition position rest
  simpa [resumed, fired?] using h

theorem render_ofTokensFrom (cursor : Cursor) (tokens : List Token) :
    render (asking ask) (ofTokensFrom cursor tokens) = resumed (asking ask) cursor tokens := by
  -- The reader carries the branches of a chain that the pass has tested already, so each case
  -- compares their tests, made behind the cursor, with those that the pass makes at once.
  fun_induction ofTokensFrom cursor tokens with
  | case1 => simp [render, resumed, Stream.render]
  | case2 earlier last =>
    simp [render, resumed, Stream.render, firstPassing_eq, fired?_append_singleton]
  | case3 branches => simp [render, resumed, Stream.render, firstPassing_eq]
  | case4 t rest ih => simp [render, resumed, Stream.render, ih, Stream.start, Stream.afterLiteral]
  | case5 earlier last t rest ih =>
    rw [ih]
    apply bind_congr
    intro fired
    apply bind_congr
    intro passes
    cases passes <;> simp [Stream.render, Stream.afterLiteral]
  | case6 branches t rest ih =>
    simp only [render, firstPassing_eq, bind_map_left, ih]
    apply bind_congr
    intro fired
    -- Behind the literal the chain cannot go on, so it does not matter whether it fired.
    have hstart : Stream.render (asking ask) ⟨false, fired.isSome, false, false⟩ rest =
        Stream.render (asking ask) Stream.start rest :=
      Stream.render_of_not_open _ rest rfl rfl (by simp [Stream.start])
    simp [resumed, Stream.render, Stream.afterLiteral, hstart]
  | case7 _ _ rest ih =>
    rw [ih]
    simp [resumed, Stream.render, Stream.afterEnd, Stream.start]
  | case8 earlier last _ _ rest ih =>
    rw [ih]
    simp only [resumed, fired?_append_singleton, bind_assoc, pure_bind]
    apply bind_congr
    intro fired
    apply bind_congr
    intro passes
    -- The pass is still live behind the end of a chain, but is nowhere asked whether it is.
    have hlive : Stream.render (asking ask) ⟨false, fired.isSome || passes, passes, true⟩ rest =
        Stream.render (asking ask) ⟨false, fired.isSome || passes, false, true⟩ rest :=
      Stream.render_of_not_open _ rest rfl rfl rfl
    cases passes <;> simp_all [Stream.render, Stream.afterEnd]
  | case9 branches _ _ rest ih =>
    rw [ih]
    simp [resumed, Stream.render, Stream.afterEnd]
  | case10 kind condition position rest ih =>
    rw [ih]
    exact resumed_first ask Stream.start kind rfl rfl condition position rest
  | case11 earlier last kind condition _ rest ih =>
    rw [ih]
    simp only [resumed, fired?_append_singleton, bind_assoc, pure_bind]
    apply bind_congr
    intro fired
    apply bind_congr
    intro passes
    refine resumed_branch ask (if passes then some last else fired) rfl ?_ condition _ rest
    cases passes <;> simp [Stream.atBranch]
  | case12 branches condition _ rest ih =>
    simp only [render, firstPassing_eq, bind_map_left, ih]
    apply bind_congr
    intro fired
    -- An `else` begins another chain here, of which nothing fired.
    have hfirst := resumed_first ask ⟨false, fired.isSome, false, true⟩ .otherwise rfl
      (by simp [Stream.atBranch]) condition
    rw [hfirst]
  | case13 branches kind condition _ rest hkind ih =>
    rw [ih]
    apply bind_congr
    intro fired
    exact resumed_branch ask fired rfl (by simp [Stream.atBranch, hkind]) condition _ rest

end Node

namespace Engine

variable {σ : Type}

/-- Whether a branch passes is asked of its kind and its condition alone. -/
theorem passes_eq_asking (e : Engine σ) (re : Reentry σ) :
    e.passes re = Node.asking fun kind condition => e.passes re ⟨kind, condition, []⟩ := by
  funext b
  rfl

end Engine

namespace Node

/-- The tree of a text, rendered, is one pass over the tokens of the text: it writes the same and
makes the same tests in the same order, in whatever computations tests are made. What an engine
makes of the branches of a text is that pass, behind the reports on the chains. -/
theorem render_ofText_eq_stream (t : Text) :
    (∀ {m : Type → Type} [Monad m] [LawfulMonad m] (ask : BranchKind → Text → m Bool),
      render (asking ask) (ofText t) =
        Stream.render (asking ask) Stream.start (Token.ofText t)) ∧
    ∀ {σ : Type} (e : Engine σ) (re : Reentry σ),
      e.resolveBranches re t =
        Run.notifyAll (reportsOfText t) >>= fun _ =>
          Stream.render (e.passes re) Stream.start (Token.ofText t) := by
  have hstream {m : Type → Type} [Monad m] [LawfulMonad m]
      (ask : BranchKind → Text → m Bool) : render (asking ask) (ofText t) =
        Stream.render (asking ask) Stream.start (Token.ofText t) :=
    render_ofTokensFrom ask .outside (Token.ofText t)
  refine ⟨hstream, fun e re => ?_⟩
  rw [Engine.resolveBranches, Engine.passes_eq_asking, hstream]

/-- Lets a branch pass if it has no condition or the condition `y`, and keeps a record of the
conditions that were asked about. -/
def recording (_ : BranchKind) (condition : Text) : StateM (List Text) Bool :=
  fun asked => (condition.isEmpty || condition == ("y" : Text), asked ++ [condition])

/-- Nothing that goes on with a chain that fired is asked about, and an `else` goes on with none. -/
theorem render_reopened_chain :
    Id.run ((render (asking recording) (ofText ("fi\x7b\x7dif\x7bx\x7d1ifOr\x7by\x7d2fi\x7b\x7d" ++
        "if\x7bz\x7d3fi\x7b\x7delse\x7b\x7d4"))).run []) =
      (("24" : Text), [("x" : Text), ("y" : Text), []]) := by
  rw [(render_ofText_eq_stream _).1 recording]
  decide +kernel

end Node

end StoryScript
