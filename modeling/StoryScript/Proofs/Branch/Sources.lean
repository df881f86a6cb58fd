import Mathlib.Data.List.Chain
import StoryScript.Proofs.Block.Outline
import StoryScript.Proofs.Branch.Tokens

/-!
# What tokens are read from

A literal is read from the text it holds, and a keyword from its first letter to the brace that
closes its group. `Token.Reads` tells how tokens take up a text from left to right; the tokens of a
text do (`Token.reads_ofText`). Main statement: what the tokens of a text were read from is, one
after another, the text (`Token.ofText_lossless`).
-/

namespace StoryScript

/-- The brace that closes a group is found, whatever is in front of the group and behind it. -/
theorem Block.closing?_of_isGroup {inner : Text} (h : Text.IsGroup (Piece.group inner).written)
    (front rest : Text) :
    closing? (front ++ (Piece.group inner).written ++ rest) front.length =
      some (front.length + (inner.length + 1)) := by
  have hwritten : (Piece.group inner).written ++ rest = '{' :: (inner ++ '}' :: rest) := by
    simp [Piece.written]
  have hdrop : (front ++ (Piece.group inner).written ++ rest).drop front.length =
      '{' :: (inner ++ '}' :: rest) := by
    rw [List.append_assoc, List.drop_left, hwritten]
  have hsplit : Piece.split ('{' :: (inner ++ '}' :: rest)) = .group inner :: Piece.split rest := by
    obtain ⟨inner', hinner, hcut⟩ := h.split
    obtain rfl : inner = inner' := by simpa [Piece.written] using hinner
    have happend := @Piece.split_append_of_group [] _ inner List.not_mem_nil hcut rest
    rwa [List.nil_append, hwritten] at happend
  have hclosing : closingFrom 1 (inner ++ '}' :: rest) = some inner.length := by
    rcases Piece.split_cons_open (inner ++ '}' :: rest) with
      ⟨inner', rest', -, hclosing, hcut⟩ | ⟨-, hcut⟩
    · obtain rfl : inner = inner' := by
        rw [hsplit] at hcut
        exact Piece.group.inj (List.cons.inj hcut).1
      exact hclosing
    · rw [hsplit] at hcut
      cases hcut
  rw [closing?, hdrop, closingFrom_cons_open, hclosing, Option.map_some, Option.map_some]

namespace Token

/-- The part of a text that a token was read from. -/
def source (t : Text) : Token → Text
  | literal u => u
  | keyword k _ position =>
    match Block.closing? t position with
    | some close => (t.take (close + 1)).drop (position - k.word.length)
    | none => []

/-- Tokens that take up a text from left to right, behind text that was read already: literals,
none of them empty and no two in a row, and keywords, each in front of a group. -/
inductive Reads : (front : Text) → List Token → Text → Prop
  | nil (front : Text) : Reads front [] []
  | literal {front u rest : Text} {tokens : List Token} (hu : u ≠ [])
    (hnext : ∀ token ∈ tokens.head?, token.isKeyword) (h : Reads (front ++ u) tokens rest) :
    Reads front (literal u :: tokens) (u ++ rest)
  | keyword {front rest : Text} {tokens : List Token} (k : Keyword) {inner : Text}
    (hgroup : Text.IsGroup (Piece.group inner).written)
    (h : Reads (front ++ k.word ++ (Piece.group inner).written) tokens rest) :
    Reads front (keyword k inner.trim (front ++ k.word).length :: tokens)
      (k.word ++ (Piece.group inner).written ++ rest)

namespace Reads

variable {front rest : Text} {tokens : List Token}

theorem ofLiteral_append {u : Text} (hnext : ∀ token ∈ tokens.head?, token.isKeyword)
    (h : Reads (front ++ u) tokens rest) : Reads front (ofLiteral u ++ tokens) (u ++ rest) := by
  cases u with
  | nil => simpa [ofLiteral] using h
  | cons c cs => exact .literal (List.cons_ne_nil c cs) hnext h

theorem flatMap_source (h : Reads front tokens rest) :
    tokens.flatMap (source (front ++ rest)) = rest := by
  induction h with
  | nil => rfl
  | literal _ _ _ ih =>
    rw [List.append_assoc] at ih
    rw [List.flatMap_cons, ih]
    rfl
  | @keyword front rest tokens k inner hgroup _ ih =>
    have hclosing := Block.closing?_of_isGroup hgroup (front ++ k.word) rest
    have htext : front ++ (k.word ++ (Piece.group inner).written ++ rest) =
        front ++ k.word ++ (Piece.group inner).written ++ rest := by simp
    have hsource : source (front ++ k.word ++ (Piece.group inner).written ++ rest)
        (.keyword k inner.trim (front ++ k.word).length) =
        k.word ++ (Piece.group inner).written := by
      have hend : (front ++ k.word).length + (inner.length + 1) + 1 =
          (front ++ k.word ++ (Piece.group inner).written).length := by
        simp [Piece.written]
        omega
      have hstart : (front ++ k.word).length - k.word.length = front.length := by simp
      rw [source, hclosing]
      dsimp only
      rw [hend, hstart, List.take_left, List.append_assoc, List.drop_left]
    rw [List.flatMap_cons, htext, hsource, ih]

/-- A keyword stands directly in front of the brace at its position, and its condition is what is
between that brace and the one that closes it. -/
theorem keyword_of_mem (h : Reads front tokens rest) {k : Keyword} {condition : Text}
    {position : Nat} (hmem : .keyword k condition position ∈ tokens) :
    ∃ before inner after, front ++ rest =
        before ++ k.word ++ (Piece.group inner).written ++ after ∧
      position = (before ++ k.word).length ∧ condition = inner.trim ∧
      Text.IsGroup (Piece.group inner).written := by
  induction h with
  | nil => cases hmem
  | @literal front u rest tokens _ _ _ ih =>
    rw [← List.append_assoc]
    exact ih (by simpa using hmem)
  | @keyword front rest tokens k' inner hgroup _ ih =>
    rcases List.mem_cons.1 hmem with heq | hmem
    · cases heq
      exact ⟨front, inner, rest, by simp, rfl, rfl, hgroup⟩
    · obtain ⟨before, inner', after, htext, hrest⟩ := ih hmem
      exact ⟨before, inner', after, by rw [← htext]; simp, hrest⟩

theorem literal_ne_nil (h : Reads front tokens rest) {u : Text} (hmem : .literal u ∈ tokens) :
    u ≠ [] := by
  induction h with
  | nil => cases hmem
  | @literal front u' rest tokens hu _ _ ih =>
    rcases List.mem_cons.1 hmem with heq | hmem
    · cases heq
      exact hu
    · exact ih hmem
  | keyword k hgroup _ ih => exact ih (by simpa using hmem)

theorem isChain (h : Reads front tokens rest) :
    tokens.IsChain fun token next => token.isKeyword ∨ next.isKeyword := by
  induction h with
  | nil => exact .nil
  | literal _ hnext _ ih =>
    exact List.isChain_cons.2 ⟨fun next hmem => .inr (hnext next hmem), ih⟩
  | keyword k _ _ ih => exact List.isChain_cons.2 ⟨fun _ _ => .inl rfl, ih⟩

end Reads

/-- Pieces are read behind what is pending, and what is pending with them. -/
theorem reads_ofPieces {pieces : List Piece}
    (hpieces : ∀ p ∈ pieces, Piece.split p.written = [p]) (front pending : Text) :
    Reads front (ofPieces (front ++ pending).length pending pieces)
      (pending ++ pieces.flatMap Piece.written) := by
  induction pieces generalizing front pending with
  | nil =>
    have h : Reads front (ofLiteral pending ++ []) (pending ++ []) :=
      .ofLiteral_append nofun (.nil _)
    simpa [ofPieces] using h
  | cons p pieces ih =>
    obtain ⟨hp, hps⟩ := List.forall_mem_cons.1 hpieces
    have hlength (front' : Text) : front'.length + p.written.length =
        (front' ++ p.written).length := List.length_append.symm
    -- A piece that no keyword is in front of stays pending.
    have hpending : Reads front
        (ofPieces ((front ++ pending).length + p.written.length) (pending ++ p.written) pieces)
        (pending ++ (p :: pieces).flatMap Piece.written) := by
      have h := ih hps front (pending ++ p.written)
      rwa [← List.append_assoc, ← hlength, List.append_assoc pending] at h
    cases p with
    | plain | unmatched => exact hpending
    | group inner =>
      cases hk : Keyword.before? pending with
      | none =>
        rw [ofPieces_block hk]
        exact hpending
      | some k =>
        -- The keyword is at the end of what is pending, and the rest of that is a literal.
        obtain ⟨u, hu⟩ : ∃ u, u = pending.dropEnd k.word.length := ⟨_, rfl⟩
        have hfront : pending = u ++ k.word := hu ▸ Keyword.eq_append_of_before? hk
        have h := ih hps (front ++ u ++ k.word ++ (Piece.group inner).written) []
        rw [List.append_nil, ← hlength] at h
        have h := Reads.ofLiteral_append (by simp [isKeyword]) (.keyword k (.of_split hp) h)
        rw [ofPieces_keyword hk, ← hu, hfront]
        simpa using h

theorem reads_ofText (t : Text) : Reads [] (ofText t) t := by
  have h := reads_ofPieces (fun _ => Piece.split_written (t := t)) [] []
  rwa [Piece.written_split] at h

/-- Tokens lose nothing of a text. A keyword stands directly in front of the brace at its position,
its condition is what is between that brace and the one that closes it, and what the tokens were
read from is, one after another, the text. No literal is empty, and no two are in a row. -/
theorem ofText_lossless (t : Text) :
    (∀ k condition position, .keyword k condition position ∈ ofText t →
      ∃ before inner after : Text, t = before ++ k.word ++ '{' :: inner ++ '}' :: after ∧
        position = (before ++ k.word).length ∧ condition = inner.trim ∧
        Text.IsGroup ('{' :: inner ++ ['}']) ∧
        Block.closing? t position = some (position + (inner.length + 1))) ∧
      (ofText t).flatMap (source t) = t ∧
      (∀ u, .literal u ∈ ofText t → u ≠ []) ∧
      (ofText t).IsChain fun token next => token.isKeyword ∨ next.isKeyword := by
  have h := reads_ofText t
  refine ⟨fun k condition position hmem => ?_, h.flatMap_source, fun u => h.literal_ne_nil,
    h.isChain⟩
  obtain ⟨before, inner, after, htext, hposition, hcondition, hgroup⟩ := h.keyword_of_mem hmem
  rw [List.nil_append] at htext
  refine ⟨before, inner, after, by simp [htext, Piece.written], hposition, hcondition, hgroup, ?_⟩
  rw [htext, hposition]
  exact Block.closing?_of_isGroup hgroup (before ++ k.word) after

end Token

end StoryScript
