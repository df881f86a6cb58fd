import StoryScript.Engine.Actions
import StoryScript.Proofs.Branch.Shown
import StoryScript.Proofs.Branch.Tokens

/-!
# Branches gate blocks

All texts in the tree of a closed text are closed (`Node.all_isClosed`), so the blocks of what the
tree shows are the blocks of the literals and of the branches that fired, in their order
(`Node.render_gates_blocks`).
-/

namespace StoryScript

namespace Node

/-- The texts in the tree of a closed text are closed. -/
theorem all_isClosed {u : Text} (hu : u.isClosed) :
    ∀ n ∈ ofText u, n.All (fun t => t.isClosed) (fun b => Text.isClosed b.body) := by
  apply all_ofTokensFrom (fun b t => Text.isClosed_append_self) (by simp)
  intro token htoken
  match token with
  | .literal t => exact Token.isClosed_of_mem_ofText hu htoken
  | .keyword (.opens kind) condition position => rfl
  | .keyword .ends condition position => trivial

section
variable {m : Type → Type} [Monad m] [LawfulMonad m]

/-- Computations that agree on every body of a chain, and where none is shown, agree behind it. -/
theorem fired?_bind_congr {α : Type} (test : Branch → m Bool) {bs : List Branch}
    {f g : Option Branch → m α} (hnone : f none = g none)
    (hsome : ∀ b ∈ bs, f (some b) = g (some b)) :
    (fired? test bs >>= f) = (fired? test bs >>= g) := by
  induction bs with
  | nil => simpa [fired?] using hnone
  | cons b bs ih =>
    simp only [fired?, bind_assoc]
    apply bind_congr
    intro passes
    have hbs := ih fun b hb => hsome b (List.mem_cons_of_mem _ hb)
    have hb := hsome b List.mem_cons_self
    cases passes <;> simpa

/-- Computations that agree on all lists of texts of a kind agree behind what a tree of such texts
shows. -/
theorem shown_bind_congr {α : Type} {P : Text → Prop} (test : Branch → m Bool)
    {nodes : List Node} (h : ∀ n ∈ nodes, n.All P fun b => P b.body) (hnil : P [])
    {f g : List Text → m α} (hfg : ∀ texts, (∀ t ∈ texts, P t) → f texts = g texts) :
    (shown test nodes >>= f) = (shown test nodes >>= g) := by
  induction nodes generalizing f g with
  | nil => simpa [shown] using hfg [] (by simp)
  | cons n nodes ih =>
    obtain ⟨hn, hnodes⟩ := List.forall_mem_cons.1 h
    have hrest (t : Text) (ht : P t) :
        (shown test nodes >>= fun rest => f (t :: rest)) =
          (shown test nodes >>= fun rest => g (t :: rest)) :=
      ih hnodes fun texts htexts => hfg _ (List.forall_mem_cons.2 ⟨ht, htexts⟩)
    cases n with
    | literal t => simpa [shown] using hrest t hn
    | chain c =>
      simp only [shown, bind_assoc, pure_bind]
      exact fired?_bind_congr test (hrest [] hnil) fun b hb => hrest b.body (hn b hb)

end

end Node

/-- What the blocks that were taken out ask for, and whether they send the reader elsewhere. -/
def Extraction.asked (x : Extraction) : ActionMap × Bool := (x.actions, x.redirected)

namespace Engine

variable {σ : Type} (e : Engine σ) (re : Reentry σ)

/-- Of closed pieces, extraction runs the groups and nothing else. -/
theorem asked_extractPieces (dryRun : Bool) (output output' : Text) (found : ActionMap)
    {pieces : List Piece} (h : Piece.allClosed pieces) :
    Extraction.asked <$> e.extractPieces re dryRun output found pieces =
      Extraction.asked <$>
        e.extractPieces re dryRun output' found ((Piece.groups pieces).map .group) := by
  induction pieces generalizing output output' found with
  | nil => rfl
  | cons p pieces ih =>
    cases p with
    | plain t => exact ih (output ++ t) output' found h
    | unmatched rest => simp at h
    | group inner =>
      simp only [Piece.groups_group, List.map_cons, extractPieces_group]
      -- A block that cannot be read is passed over in both, and one that redirects ends both.
      split
      · simp only [map_bind]
        exact bind_congr fun _ => ih output output' found h
      · split
        · rfl
        · next entries _ _ =>
          cases dryRun with
          | true => exact ih output output' (found.insertAll entries) h
          | false =>
            simp only [Bool.not_false, if_true, map_bind]
            exact bind_congr fun _ => ih output output' (found.insertAll entries) h

end Engine

namespace Node

/-- Branches gate blocks: whatever a test of branches does and answers, the groups of what is
rendered of a closed text are those of its literals and of the branches that fired, in their order,
and none is left open. So extraction runs the blocks of what is shown, all of them, and nothing
else. -/
theorem render_gates_blocks {σ : Type} (test : Branch → Run σ Bool) {u : Text} (hu : u.isClosed)
    (e : Engine σ) (re : Reentry σ) (dryRun : Bool) :
    (fun t => (t.groups, t.isClosed)) <$> render test (ofText u) =
        (fun texts => (texts.flatMap Text.groups, true)) <$> shown test (ofText u) ∧
      (render test (ofText u) >>= fun t => Extraction.asked <$> e.extract re t dryRun) =
        shown test (ofText u) >>= fun texts =>
          Extraction.asked <$> e.extractPieces re dryRun [] .empty
            ((texts.flatMap Text.groups).map .group) := by
  have hnodes := all_isClosed hu
  constructor
  · simp only [render_eq_shown, ← bind_pure_comp, bind_assoc, pure_bind]
    apply shown_bind_congr test hnodes rfl
    intro texts htexts
    obtain ⟨hgroups, hclosed⟩ := Text.groups_flatten htexts
    rw [hgroups, hclosed]
  · simp only [render_eq_shown, bind_map_left]
    apply shown_bind_congr test hnodes rfl
    intro texts htexts
    obtain ⟨hgroups, hclosed⟩ := Text.groups_flatten htexts
    rw [Engine.extract, Engine.asked_extractPieces e re dryRun [] [] .empty hclosed, ← hgroups]
    rfl

/-- Blocks in and around two branches, with closing braces that close nothing. -/
def gatedText : Text :=
  "a\x7d\x7bp\x7dif\x7bx\x7db\x7d\x7bq\x7difOr\x7by\x7d\x7d\x7br\x7bs\x7d\x7d" ++
    "fi\x7b\x7d\x7bt\x7d"

/-- Lets a branch pass if its condition is `y`. -/
def passesY (b : Branch) : Run Unit Bool := pure (b.condition == ("y" : Text))

def bareEngine : Engine Unit where
  settings := .standard
  sigil := "_"
  repair := id
  fragments := none
  conditions := []
  placeholders := []
  actions := []
  callbacks := []

/-- Where the second branch fires, the block of the first is gone. -/
theorem render_gatedText :
    gatedText.isClosed ∧
      (fun t => (t.groups, t.isClosed)) <$> render passesY (ofText gatedText) =
        pure ([("p" : Text), ("r\x7bs\x7d" : Text), ("t" : Text)], true) := by
  have hclosed : gatedText.isClosed := by decide +kernel
  have htree : ofText gatedText =
      [.literal "a\x7d\x7bp\x7d",
        .chain ⟨[⟨.ifAll, "x", "b\x7d\x7bq\x7d"⟩, ⟨.ifAny, "y", "\x7d\x7br\x7bs\x7d\x7d"⟩], true⟩,
        .literal "\x7bt\x7d"] := by
    decide +kernel
  refine ⟨hclosed, ?_⟩
  have h := (render_gates_blocks passesY hclosed bareEngine (.none Unit) false).1
  rw [h, htree]
  rfl

end Node

end StoryScript
