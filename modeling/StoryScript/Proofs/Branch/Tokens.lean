import StoryScript.Branch.Token
import StoryScript.Proofs.Block.Groups

/-!
# The tokens of a text

A keyword is the end of what was read in front of its group, and has no braces itself. Main
statement: the literals of a closed text are closed, whatever keywords were cut out between them
(`Token.isClosed_of_mem_ofText`).
-/

namespace StoryScript

theorem Text.takeEnd_eq (n : Nat) (t : Text) : t.takeEnd n = (t.reverse.take n).reverse := by
  rw [Text.takeEnd, List.take_reverse, List.reverse_reverse]

theorem Text.takeEnd_append {n : Nat} {t u : Text} (h : n ≤ u.length) :
    Text.takeEnd n (t ++ u) = u.takeEnd n := by
  have hlength : n ≤ u.reverse.length := by rwa [List.length_reverse]
  rw [takeEnd_eq, takeEnd_eq, List.reverse_append, List.take_append_of_le_length hlength]

namespace Keyword

theorem eq_append_of_before? {t : Text} {k : Keyword} (h : before? t = some k) :
    t = t.dropEnd k.word.length ++ k.word := by
  have hk : k.word = t.takeEnd k.word.length := by simpa using List.find?_some h
  calc
    t = t.take (t.length - k.word.length) ++ t.drop (t.length - k.word.length) :=
      (List.take_append_drop ..).symm
    _ = t.dropEnd k.word.length ++ k.word := congrArg (t.dropEnd k.word.length ++ ·) hk.symm

theorem brace_not_mem_word (k : Keyword) : '{' ∉ k.word ∧ '}' ∉ k.word := by
  cases k with
  | ends => decide
  | opens kind => cases kind <;> decide

theorem bar_not_mem_word (k : Keyword) : '|' ∉ k.word := by
  cases k with
  | ends => decide
  | opens kind => cases kind <;> decide

/-- The text in front of a keyword is closed if the keyword is at the end of a closed text, and has
the groups of that text. -/
theorem groups_of_before? {t : Text} {k : Keyword} (h : before? t = some k) (ht : t.isClosed) :
    (t.dropEnd k.word.length).isClosed ∧ t.groups = Text.groups (t.dropEnd k.word.length) := by
  have hword := k.brace_not_mem_word
  have heq := eq_append_of_before? h
  have hfront : Text.isClosed (t.dropEnd k.word.length) := by
    rw [heq] at ht
    exact Text.isClosed_of_append ht hword.1 hword.2
  refine ⟨hfront, ?_⟩
  calc
    t.groups = Text.groups (t.dropEnd k.word.length) ++ k.word.groups := by
      rw [← Text.groups_append hfront, ← heq]
    _ = Text.groups (t.dropEnd k.word.length) := by
      rw [Text.groups_of_not_mem hword.1, List.append_nil]

/-- A closing brace stays in front of a keyword that is cut off behind it. -/
theorem prefix_dropEnd_of_before? {t closed : Text} {k : Keyword} (h : before? t = some k)
    (ht : closed ++ ['}'] <+: t) : closed ++ ['}'] <+: t.dropEnd k.word.length := by
  obtain ⟨u, hu⟩ := ht
  have heq := hu.trans (eq_append_of_before? h)
  rcases List.append_eq_append_iff.1 heq with ⟨v, hv, -⟩ | ⟨v, hv, hword⟩
  · exact ⟨v, hv.symm⟩
  · -- The brace would be in the keyword.
    rcases List.eq_nil_or_concat v with rfl | ⟨v, c, rfl⟩
    · exact ⟨[], by rw [hv, List.append_nil, List.append_nil]⟩
    · rw [List.concat_eq_append, ← List.append_assoc] at hv
      obtain ⟨-, hc⟩ := List.append_inj' hv rfl
      obtain rfl := (List.cons.inj hc).1
      exact absurd (by rw [hword]; simp) k.brace_not_mem_word.2

theorem length_word_le (k : Keyword) : k.word.length ≤ 4 := by
  cases k with
  | ends => decide
  | opens kind => cases kind <;> decide

/-- A keyword is found at the end of a text, whatever is in front of it. -/
theorem before?_append_word (t : Text) (k : Keyword) : before? (t ++ k.word) = some k := by
  -- What is looked for before a keyword is no longer than it is, and not the end of it.
  have hall : k.word.takeEnd k.word.length = k.word ∧ ∃ front rest, all = front ++ k :: rest ∧
      ∀ k' ∈ front, k'.word.length ≤ k.word.length ∧ k'.word ≠ k.word.takeEnd k'.word.length := by
    match k with
    | .opens .ifAll => exact ⟨rfl, [], _, rfl, by decide⟩
    | .ends => exact ⟨rfl, [.opens .ifAll], _, rfl, by decide⟩
    | .opens .otherwise => exact ⟨rfl, [.opens .ifAll, .ends], _, rfl, by decide⟩
    | .opens .ifAny => exact ⟨rfl, [.opens .ifAll, .ends, .opens .otherwise], _, rfl, by decide⟩
  obtain ⟨hself, front, rest, hall, hfront⟩ := hall
  refine List.find?_eq_some_iff_append.2 ⟨?_, front, rest, hall, fun k' hk' => ?_⟩
  · rw [Text.takeEnd_append (Nat.le_refl _), hself, beq_self_eq_true]
  · obtain ⟨hlength, hne⟩ := hfront k' hk'
    rw [Text.takeEnd_append hlength, beq_eq_false_iff_ne.2 hne]
    rfl

end Keyword

namespace Token

def isKeyword : Token → Bool
  | literal _ => false
  | keyword .. => true

/-- The blocks that are kept in a token. -/
def groups : Token → List Text
  | literal t => t.groups
  | keyword .. => []

@[simp] theorem filter_ofLiteral (t : Text) : (ofLiteral t).filter isKeyword = [] := by
  cases t <;> rfl

@[simp] theorem flatMap_groups_ofLiteral (t : Text) : (ofLiteral t).flatMap groups = t.groups := by
  cases t <;> simp [ofLiteral, groups]

theorem ofPieces_plain (position : Nat) (pending t : Text) (pieces : List Piece) :
    ofPieces position pending (.plain t :: pieces) =
      ofPieces (position + t.length) (pending ++ t) pieces := rfl

theorem ofPieces_block {pending : Text} (h : Keyword.before? pending = none) (position : Nat)
    (inner : Text) (pieces : List Piece) :
    ofPieces position pending (.group inner :: pieces) =
      ofPieces (position + (Piece.group inner).written.length)
        (pending ++ (Piece.group inner).written) pieces := by
  rw [ofPieces, h]

theorem ofPieces_keyword {pending : Text} {k : Keyword} (h : Keyword.before? pending = some k)
    (position : Nat) (inner : Text) (pieces : List Piece) :
    ofPieces position pending (.group inner :: pieces) =
      ofLiteral (pending.dropEnd k.word.length) ++ keyword k inner.trim position ::
        ofPieces (position + (Piece.group inner).written.length) [] pieces := by
  rw [ofPieces, h]

theorem mem_ofLiteral {token : Token} {t : Text} :
    token ∈ ofLiteral t ↔ t ≠ [] ∧ token = literal t := by
  cases t <;> simp [ofLiteral]

/-- A literal is made of whole pieces, less a keyword at its end. -/
theorem literal_of_mem_ofPieces {P : Text → Prop} {pieces : List Piece} (hnil : P [])
    (hpiece : ∀ p ∈ pieces, ∀ t, P t → P (t ++ p.written))
    (hword : ∀ t k, Keyword.before? t = some k → P t → P (t.dropEnd k.word.length))
    {position : Nat} {pending : Text} (hpending : P pending) {t : Text}
    (h : literal t ∈ ofPieces position pending pieces) : P t := by
  fun_induction ofPieces position pending pieces with
  | case1 position pending =>
    obtain ⟨-, rfl⟩ : _ ∧ t = pending := by simpa [mem_ofLiteral] using h
    exact hpending
  | case2 position pending inner pieces next k hk ih =>
    obtain ⟨-, hpieces⟩ := List.forall_mem_cons.1 hpiece
    rcases List.mem_append.1 h with h | h
    · obtain ⟨-, rfl⟩ : _ ∧ t = _ := by simpa [mem_ofLiteral] using h
      exact hword pending k hk hpending
    · have h : literal t ∈ ofPieces next [] pieces := by simpa using h
      exact ih hpieces hnil h
  | case3 position pending inner pieces next _ ih =>
    obtain ⟨hgroup, hpieces⟩ := List.forall_mem_cons.1 hpiece
    exact ih hpieces (hgroup pending hpending) h
  | case4 position pending piece pieces _ ih =>
    obtain ⟨hp, hpieces⟩ := List.forall_mem_cons.1 hpiece
    exact ih hpieces (hp pending hpending) h

/-- A closing brace and what is in front of it stay in the literal that they are read into, as no
keyword has a brace. -/
theorem exists_ofPieces_of_closing {closed : Text} (position : Nat) {pending : Text}
    (h : closed ++ ['}'] <+: pending) (pieces : List Piece) :
    ∃ t tokens, closed ++ ['}'] <+: t ∧ ofPieces position pending pieces = literal t :: tokens := by
  have hliteral {t : Text} (ht : closed ++ ['}'] <+: t) (tokens : List Token) :
      ofLiteral t ++ tokens = literal t :: tokens := by
    cases t with
    | nil => simp at ht
    | cons c cs => rfl
  fun_induction ofPieces position pending pieces with
  | case1 position pending => exact ⟨pending, [], h, by simpa using hliteral h []⟩
  | case2 position pending inner pieces next k hk ih =>
    have hfront := Keyword.prefix_dropEnd_of_before? hk h
    exact ⟨_, _, hfront, hliteral hfront _⟩
  | case3 position pending inner pieces next _ ih => exact ih (h.trans (List.prefix_append _ _))
  | case4 position pending piece pieces _ ih => exact ih (h.trans (List.prefix_append _ _))

/-! ## Text without keywords -/

theorem ofPieces_ofPlain_append (position : Nat) (pending t : Text) (pieces : List Piece) :
    ofPieces position pending (Piece.ofPlain t ++ pieces) =
      ofPieces (position + t.length) (pending ++ t) pieces := by
  cases t with
  | nil => simp
  | cons c cs => exact ofPieces_plain position pending (c :: cs) pieces

/-- What was read outside all groups is pending when the rest is. -/
theorem ofPieces_splitFrom_zero (position : Nat) (pending read t : Text) :
    ofPieces position pending (Piece.splitFrom 0 read t) =
      ofPieces (position + read.length) (pending ++ read.reverse) (Piece.split t) := by
  induction t generalizing position pending read with
  | nil =>
    simpa [Piece.splitFrom, Piece.split] using
      ofPieces_ofPlain_append position pending read.reverse []
  | cons c cs ih =>
    by_cases hc : c = '{'
    · simpa [Piece.splitFrom, Piece.split, hc] using
        ofPieces_ofPlain_append position pending read.reverse (Piece.splitFrom 1 [] cs)
    · have hread := ih position pending (c :: read)
      have hrest := ih (position + read.length) (pending ++ read.reverse) [c]
      simp only [Piece.splitFrom, Piece.split, hc, if_false]
      rw [hread, hrest]
      simp [Nat.add_assoc]

/-- A text that leaves no brace open and has no keyword in front of a group is pending, all of it,
when what follows is read. -/
theorem ofPieces_splitFrom_append {depth : Nat} {read t : Text} (u : Text)
    (hclosed : Piece.allClosed (Piece.splitFrom depth read t)) {start : Nat} {pending : Text}
    (hplain : (ofPieces start pending (Piece.splitFrom depth read t)).filter isKeyword = [])
    (position : Nat) :
    ∃ position', ofPieces position pending (Piece.splitFrom depth read (t ++ u)) =
      ofPieces position'
        (pending ++ ((if depth = 0 then read.reverse else '{' :: read.reverse) ++ t))
        (Piece.split u) := by
  fun_induction Piece.splitFrom depth read t generalizing start pending position with
  | case1 read => exact ⟨_, by simpa using ofPieces_splitFrom_zero position pending read u⟩
  | case2 depth read => simp at hclosed
  | case3 read cs ih =>
    rw [ofPieces_ofPlain_append] at hplain
    have hclosed : Piece.allClosed (Piece.splitFrom 1 [] cs) := by
      simpa [Piece.allClosed_append] using hclosed
    obtain ⟨position', hrest⟩ := ih hclosed hplain (position + read.reverse.length)
    refine ⟨position', ?_⟩
    simpa [Piece.splitFrom, ofPieces_ofPlain_append] using hrest
  | case4 read c cs hc ih => simpa [Piece.splitFrom, hc] using ih hclosed hplain position
  | case5 depth read cs ih => simpa [Piece.splitFrom] using ih hclosed hplain position
  | case6 read cs _ ih =>
    -- The group is kept in the text, as a keyword in front of it would be among the tokens.
    cases hkeyword : Keyword.before? pending with
    | some k =>
      rw [ofPieces_keyword hkeyword] at hplain
      simp [isKeyword] at hplain
    | none =>
      rw [ofPieces_block hkeyword] at hplain
      obtain ⟨position', hrest⟩ := ih hclosed hplain _
      refine ⟨position', ?_⟩
      simpa [Piece.splitFrom, ofPieces_block hkeyword, Piece.written] using hrest
  | case7 read cs depth _ ih => simpa [Piece.splitFrom] using ih hclosed hplain position
  | case8 depth read c cs hc hc' ih =>
    simpa [Piece.splitFrom, hc, hc'] using ih hclosed hplain position

/-! ## Texts in the tokens of another -/

theorem isClosed_of_mem_ofText {t u : Text} (hu : u.isClosed) (h : literal t ∈ ofText u) :
    t.isClosed := by
  refine literal_of_mem_ofPieces (P := (Text.isClosed ·)) rfl (fun p hp t ht => ?_)
    (fun t k hk ht => (Keyword.groups_of_before? hk ht).1) rfl h
  have hclosed : Piece.allClosed [p] := by simpa [Piece.allClosed] using List.all_eq_true.1 hu p hp
  have hwritten := (Text.isClosed_written (Piece.split_written hp)).trans hclosed
  exact Text.isClosed_append_self ht hwritten

/-- The characters of a literal are characters of the text. -/
theorem mem_of_mem_ofText {t u : Text} (h : literal t ∈ ofText u) {c : Char} (hc : c ∈ t) :
    c ∈ u := by
  refine literal_of_mem_ofPieces (P := (∀ c ∈ ·, c ∈ u)) (by simp) (fun p hp t ht c hc => ?_)
    (fun t k _ ht c hc => ht c (List.mem_of_mem_take hc)) (by simp) h c hc
  rcases List.mem_append.1 hc with hc | hc
  · exact ht c hc
  · rw [← Piece.written_split u]
    exact List.mem_flatMap.2 ⟨p, hp, hc⟩

end Token

end StoryScript
