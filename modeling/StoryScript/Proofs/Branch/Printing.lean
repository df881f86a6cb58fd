import Mathlib.Data.List.Chain
import StoryScript.Branch.Printer
import StoryScript.Branch.Tree
import StoryScript.Proofs.Branch.Tokens

/-!
# Reading printed nodes

Behind a passage each printed keyword is the next token, with the condition that was printed
(`Token.ofPieces_printed`), so a printed chain is read branch by branch
(`Node.ofTokensFrom_branches`). Main statement: nodes that are told apart where they meet are read
back from the text that they are printed as (`Node.ofText_printAll`).
-/

namespace StoryScript

/-- A text that is one literal: no keyword stands in front of one of its groups, and no brace that
it opens is left open. -/
structure Text.IsPassage (t : Text) : Prop where
  ofText_eq : Token.ofText t = [.literal t]
  isClosed : t.isClosed

theorem Text.IsPassage.ofLiteral_eq {t : Text} (h : t.IsPassage) :
    Token.ofLiteral t = [.literal t] := by
  cases t with
  | nil => cases h.ofText_eq
  | cons c cs => rfl

namespace Token

variable {s condition : Text}

/-- A passage, which may be empty, is pending when what follows it is read. -/
theorem ofPieces_passage (hs : s = [] ∨ s.IsPassage) (u : Text) (position : Nat) :
    ∃ position', ofPieces position [] (Piece.split (s ++ u)) =
      ofPieces position' s (Piece.split u) := by
  rcases hs with rfl | hs
  · exact ⟨position, rfl⟩
  · have hplain : (ofPieces 0 [] (Piece.split s)).filter isKeyword = [] :=
      congrArg (List.filter isKeyword) hs.ofText_eq
    exact ofPieces_splitFrom_append u hs.isClosed hplain position

theorem ofPieces_passage_nil (hs : s = [] ∨ s.IsPassage) (position : Nat) :
    ofPieces position [] (Piece.split s) = ofLiteral s := by
  obtain ⟨position', h⟩ := ofPieces_passage hs [] position
  rwa [List.append_nil] at h

/-- A keyword that is printed with its condition is a token with that condition, and what is pending
in front of it a literal. -/
theorem ofPieces_keyword_append (k : Keyword) (hcondition : condition.Balanced)
    (htrim : condition.trim = condition) (pending rest : Text) (position : Nat) :
    ofPieces position pending (Piece.split (k.word ++ '{' :: (condition ++ '}' :: rest))) =
      ofLiteral pending ++ keyword k condition (position + k.word.length) ::
        ofPieces (position + k.word.length + (Piece.group condition).written.length) []
          (Piece.split rest) := by
  have hsplit : Piece.split (k.word ++ '{' :: (condition ++ '}' :: rest)) =
      Piece.ofPlain k.word ++ Piece.split ('{' :: (condition ++ '}' :: rest)) :=
    Piece.splitFrom_zero_append k.brace_not_mem_word.1 [] _
  have hfront : Text.dropEnd k.word.length (pending ++ k.word) = pending := by
    simp [Text.dropEnd]
  rw [hsplit, hcondition.split_append, ofPieces_ofPlain_append,
    ofPieces_keyword (Keyword.before?_append_word pending k), hfront, htrim]

/-- Behind a passage a printed keyword is the next token. -/
theorem ofPieces_printed (k : Keyword) (hs : s = [] ∨ s.IsPassage)
    (hcondition : condition.Balanced) (htrim : condition.trim = condition) (rest : Text)
    (position : Nat) :
    ∃ position' next, ofPieces position []
        (Piece.split (s ++ (k.word ++ '{' :: (condition ++ '}' :: rest)))) =
      ofLiteral s ++ keyword k condition position' :: ofPieces next [] (Piece.split rest) := by
  obtain ⟨position', h⟩ := ofPieces_passage hs _ position
  exact ⟨_, _, h.trans (ofPieces_keyword_append k hcondition htrim s rest position')⟩

end Token

/-- A branch that can be read back: its condition is what is read between braces, and its body is
empty or one literal. -/
structure Branch.Readable (b : Branch) : Prop where
  balanced : b.condition.Balanced
  trimmed : b.condition.trim = b.condition
  otherwise : b.kind = .otherwise → b.condition = []
  body : b.body = [] ∨ b.body.IsPassage

theorem Branch.Readable.branchOf_eq {b : Branch} (h : b.Readable) :
    Node.branchOf b.kind b.condition = { b with body := [] } := by
  unfold Node.branchOf
  split
  · next hkind => rw [h.otherwise hkind]
  · rfl

namespace Node

/-- A node that can be read back on its own. -/
def Readable : Node → Prop
  | literal t => t.IsPassage
  | chain c => c.branches ≠ [] ∧ ∀ b ∈ c.branches, b.Readable

/-- Whether a node does not go on with a chain that ends right before it. -/
def BeginsAnew : Node → Prop
  | literal _ => True
  | chain c => c.branches.head?.map Branch.kind = some .otherwise

/-- Whether two nodes are told apart where the second follows the first. -/
def Parted : Node → Node → Prop
  | literal _, literal _ => False
  | literal _, chain _ => True
  | chain c, n => c.terminated ∧ n.BeginsAnew

/-- Nodes that can be read back, each on its own and where they meet. -/
structure AllReadable (nodes : List Node) : Prop where
  readable : ∀ n ∈ nodes, n.Readable
  parted : nodes.IsChain Parted

/-! ## Chains -/

/-- A body is read into the branch that it is printed behind. -/
theorem ofTokensFrom_body (earlier : List Branch) (b : Branch) (tokens : List Token) :
    ofTokensFrom (.inside earlier { b with body := [] }) (Token.ofLiteral b.body ++ tokens) =
      ofTokensFrom (.inside earlier b) tokens := by
  obtain ⟨kind, condition, body⟩ := b
  cases body <;> rfl

theorem ofTokensFrom_branch {b b' : Branch} (hb : b.Readable) (hb' : b'.Readable)
    (earlier : List Branch) (rest : Text) (position : Nat) :
    ∃ next, ofTokensFrom (.inside earlier { b with body := [] })
        (Token.ofPieces position [] (Piece.split (b.body ++ (b'.print ++ rest)))) =
      ofTokensFrom (.inside (earlier ++ [b]) { b' with body := [] })
        (Token.ofPieces next [] (Piece.split (b'.body ++ rest))) := by
  have hprint : b'.print ++ rest = (Keyword.opens b'.kind).word ++
      '{' :: (b'.condition ++ '}' :: (b'.body ++ rest)) := by
    simp [Branch.print, Keyword.word]
  obtain ⟨position', next, htokens⟩ := Token.ofPieces_printed (.opens b'.kind) hb.body
    hb'.balanced hb'.trimmed (b'.body ++ rest) position
  refine ⟨next, ?_⟩
  rw [hprint, htokens, ofTokensFrom_body, ofTokensFrom, hb'.branchOf_eq]

/-- The printed rest of a chain is read into it: a chain that is left open is there to the end, and
behind the end of another one reading goes on. -/
theorem ofTokensFrom_branches {b : Branch} {bs : List Branch} (hb : b.Readable)
    (hbs : ∀ b ∈ bs, b.Readable) (earlier : List Branch) (position : Nat) :
    ofTokensFrom (.inside earlier { b with body := [] })
        (Token.ofPieces position [] (Piece.split (b.body ++ bs.flatMap Branch.print))) =
      [chain ⟨earlier ++ b :: bs, false⟩] ∧
    ∀ rest, ∃ next, ofTokensFrom (.inside earlier { b with body := [] })
        (Token.ofPieces position []
          (Piece.split (b.body ++ (bs.flatMap Branch.print ++ (Chain.ending ++ rest))))) =
      ofTokensFrom (.after (earlier ++ b :: bs)) (Token.ofPieces next [] (Piece.split rest)) := by
  induction bs generalizing b earlier position with
  | nil =>
    constructor
    · rw [List.flatMap_nil, List.append_nil, Token.ofPieces_passage_nil hb.body position]
      simpa [ofTokensFrom] using ofTokensFrom_body earlier b []
    · intro rest
      obtain ⟨position', next, htokens⟩ :=
        Token.ofPieces_printed .ends hb.body .nil rfl rest position
      refine ⟨next, ?_⟩
      show ofTokensFrom _ (Token.ofPieces position [] (Piece.split
        (b.body ++ (Keyword.ends.word ++ '{' :: ([] ++ '}' :: rest))))) = _
      rw [htokens, ofTokensFrom_body, ofTokensFrom]
  | cons b' bs ih =>
    obtain ⟨hb', hbs⟩ := List.forall_mem_cons.1 hbs
    have happend : earlier ++ b :: b' :: bs = earlier ++ [b] ++ b' :: bs := by simp
    rw [List.flatMap_cons, happend]
    constructor
    · obtain ⟨next, hbranch⟩ :=
        ofTokensFrom_branch hb hb' earlier (bs.flatMap Branch.print) position
      rw [hbranch]
      exact (ih hb' hbs (earlier ++ [b]) next).1
    · intro rest
      rw [List.append_assoc]
      obtain ⟨next, hbranch⟩ := ofTokensFrom_branch hb hb' earlier
        (bs.flatMap Branch.print ++ (Chain.ending ++ rest)) position
      rw [hbranch]
      exact (ih hb' hbs (earlier ++ [b]) next).2 rest

/-! ## Nodes -/

theorem printAll_chain_cons (b : Branch) (bs : List Branch) (terminated : Bool)
    (nodes : List Node) :
    printAll (chain ⟨b :: bs, terminated⟩ :: nodes) =
      (Keyword.opens b.kind).word ++ '{' :: (b.condition ++ '}' :: (b.body ++
        (bs.flatMap Branch.print ++
          ((if terminated then Chain.ending else []) ++ printAll nodes)))) := by
  simp [print, Chain.print, Branch.print, Keyword.word]

/-- A printed literal is a token in front of those of the nodes behind it. -/
theorem ofPieces_literal {s : Text} {nodes : List Node} (h : AllReadable (literal s :: nodes))
    (position : Nat) :
    ∃ next, Token.ofPieces position [] (Piece.split (s ++ printAll nodes)) =
      .literal s :: Token.ofPieces next [] (Piece.split (printAll nodes)) := by
  obtain ⟨hs, hnodes⟩ := List.forall_mem_cons.1 h.readable
  have hs : s.IsPassage := hs
  obtain ⟨next, hpassage⟩ := Token.ofPieces_passage (.inr hs) (printAll nodes) position
  refine ⟨next, hpassage.trans ?_⟩
  rw [← List.singleton_append, ← hs.ofLiteral_eq]
  match nodes with
  | [] => exact (List.append_nil _).symm
  | literal t :: nodes => exact (List.isChain_cons_cons.1 h.parted).1.elim
  | chain ⟨[], terminated⟩ :: nodes => exact absurd rfl (hnodes _ List.mem_cons_self).1
  | chain ⟨b :: bs, terminated⟩ :: nodes =>
    have hb := (hnodes _ List.mem_cons_self).2 b List.mem_cons_self
    rw [printAll_chain_cons, Token.ofPieces_keyword_append _ hb.balanced hb.trimmed s,
      Token.ofPieces_keyword_append _ hb.balanced hb.trimmed []]
    rfl

/-- A printed chain is read from its first keyword on, and then what is printed behind it, if that
is read as it should be behind the end of a chain. -/
theorem ofTokensFrom_chain {b : Branch} {bs : List Branch} {terminated : Bool} {nodes : List Node}
    (h : AllReadable (chain ⟨b :: bs, terminated⟩ :: nodes))
    (hnodes : ∀ position bs, (∀ n ∈ nodes.head?, n.BeginsAnew) →
      ofTokensFrom (.after bs) (Token.ofPieces position [] (Piece.split (printAll nodes))) =
        chain ⟨bs, true⟩ :: nodes) (position : Nat) :
    ∃ position' tokens,
      Token.ofPieces position []
          (Piece.split (printAll (chain ⟨b :: bs, terminated⟩ :: nodes))) =
        .keyword (.opens b.kind) b.condition position' :: tokens ∧
      ofTokensFrom (.inside [] (branchOf b.kind b.condition)) tokens =
        chain ⟨b :: bs, terminated⟩ :: nodes := by
  obtain ⟨hb, hbs⟩ := List.forall_mem_cons.1 (h.readable _ List.mem_cons_self).2
  rw [printAll_chain_cons, hb.branchOf_eq]
  obtain ⟨position', next, htokens⟩ := Token.ofPieces_printed (.opens b.kind) (.inl rfl)
    hb.balanced hb.trimmed _ position
  refine ⟨position', _, htokens, ?_⟩
  obtain ⟨hopen, hended⟩ := ofTokensFrom_branches hb hbs [] next
  cases nodes with
  | nil =>
    cases terminated with
    | false => simpa using hopen
    | true =>
      obtain ⟨next', hended⟩ := hended []
      exact hended.trans (hnodes next' (b :: bs) nofun)
  | cons n nodes =>
    -- Only a chain that is closed has something behind it.
    obtain ⟨rfl, hanew⟩ : terminated = true ∧ n.BeginsAnew := (List.isChain_cons_cons.1 h.parted).1
    obtain ⟨next', hended⟩ := hended (printAll (n :: nodes))
    refine hended.trans (hnodes next' (b :: bs) fun n' hn' => ?_)
    obtain rfl := Option.some.inj hn'
    exact hanew

/-- Printed nodes are read back outside all chains and, if they begin anew, directly behind one. -/
theorem ofTokensFrom_printAll {nodes : List Node} (h : AllReadable nodes) (position : Nat) :
    ofTokensFrom .outside (Token.ofPieces position [] (Piece.split (printAll nodes))) = nodes ∧
      ∀ bs, (∀ n ∈ nodes.head?, n.BeginsAnew) →
        ofTokensFrom (.after bs) (Token.ofPieces position [] (Piece.split (printAll nodes))) =
          chain ⟨bs, true⟩ :: nodes := by
  induction nodes generalizing position with
  | nil => exact ⟨rfl, fun _ _ => rfl⟩
  | cons n nodes ih =>
    have ih := ih ⟨fun n hn => h.readable n (List.mem_cons_of_mem _ hn), h.parted.tail⟩
    match n with
    | literal s =>
      obtain ⟨next, htokens⟩ := ofPieces_literal h position
      rw [printAll_cons, print, htokens]
      exact ⟨congrArg (literal s :: ·) (ih next).1,
        fun bs _ => congrArg (chain ⟨bs, true⟩ :: literal s :: ·) (ih next).1⟩
    | chain ⟨[], terminated⟩ => exact absurd rfl (h.readable _ List.mem_cons_self).1
    | chain ⟨b :: bs, terminated⟩ =>
      obtain ⟨position', tokens, htokens, hchain⟩ :=
        ofTokensFrom_chain h (fun position => (ih position).2) position
      rw [htokens]
      refine ⟨hchain, fun bs' hanew => ?_⟩
      have hkind : b.kind = .otherwise := Option.some.inj (hanew _ rfl)
      rw [ofTokensFrom, if_pos hkind, hchain]

/-- Reading undoes printing: nodes that are told apart where they meet, of which the literals and
the bodies are passages and the conditions balanced and trimmed, are the nodes of the text that they
are printed as. -/
theorem ofText_printAll {nodes : List Node} (h : AllReadable nodes) :
    ofText (printAll nodes) = nodes :=
  (ofTokensFrom_printAll h 0).1

/-- A literal with a block, a chain with blocks and braces in its branches, another one directly
behind it, and one that is left open. -/
def forkedNodes : List Node :=
  [.literal "a\x7d \x7bx: 1\x7d or ",
    .chain ⟨[⟨.ifAll, "\x7bb\x7d=1", "\x7by: \x7bz: 2\x7d\x7d"⟩, ⟨.ifAny, "c, d", []⟩,
      ⟨.otherwise, [], "\x7d if"⟩], true⟩,
    .chain ⟨[⟨.otherwise, [], "e"⟩], true⟩,
    .literal "\x7bf\x7d",
    .chain ⟨[⟨.ifAll, "g", "h"⟩], false⟩]

theorem ofText_printAll_forkedNodes :
    AllReadable forkedNodes ∧ ofText (printAll forkedNodes) = forkedNodes ∧
      printAll forkedNodes =
        ("a\x7d \x7bx: 1\x7d or if\x7b\x7bb\x7d=1\x7d\x7by: \x7bz: 2\x7d\x7difOr\x7bc, d\x7d" ++
          "else\x7b\x7d\x7d iffi\x7b\x7delse\x7b\x7defi\x7b\x7d\x7bf\x7dif\x7bg\x7dh").toList := by
  have hplain {t : Text} (h : '{' ∉ t ∧ '}' ∉ t) : t.Balanced := .of_not_mem h.1 h.2
  have hinner : Text.Balanced "b" := hplain (by decide)
  have hbehind : Text.Balanced "=1" := hplain (by decide)
  have hnested : Text.Balanced "\x7bb\x7d=1" := .group hinner hbehind
  have hpassage {t : Text} (h : Token.ofText t = [.literal t] ∧ t.isClosed) : t.IsPassage :=
    ⟨h.1, h.2⟩
  have hreadable : ∀ n ∈ forkedNodes, n.Readable := by
    simp only [forkedNodes, List.forall_mem_cons, Readable]
    refine ⟨hpassage (by decide +kernel), ⟨nofun, ?_, ?_, ?_, nofun⟩, ⟨nofun, ?_, nofun⟩,
      hpassage (by decide +kernel), ⟨nofun, ?_, nofun⟩, nofun⟩
    · exact ⟨hnested, rfl, nofun, .inr (hpassage (by decide +kernel))⟩
    · exact ⟨hplain (by decide), rfl, nofun, .inl rfl⟩
    · exact ⟨.nil, rfl, fun _ => rfl, .inr (hpassage (by decide +kernel))⟩
    · exact ⟨.nil, rfl, fun _ => rfl, .inr (hpassage (by decide +kernel))⟩
    · exact ⟨hplain (by decide), rfl, nofun, .inr (hpassage (by decide +kernel))⟩
  have hparted : forkedNodes.IsChain Parted := by simp [forkedNodes, Parted, BeginsAnew]
  have h : AllReadable forkedNodes := ⟨hreadable, hparted⟩
  exact ⟨h, ofText_printAll h, by decide +kernel⟩

end Node

end StoryScript
