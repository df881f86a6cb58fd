import Mathlib.Order.Bounds.Basic
import StoryScript.Engine.Actions
import StoryScript.Proofs.Block.Outline

/-!
# The brace that closes another

Behind an opening brace, the brace that closes it is the first at which as many braces were closed
as opened (`Text.balances`); in front of it more were opened. Main statement: that brace is found if
there is one, and taking the blocks out of a text cuts it at the same one
(`Block.closing?_isLeast`).
-/

namespace StoryScript

namespace Text

/-- What stands in a text from one index through another. -/
def through (t : Text) (start last : Nat) : Text := (t.take (last + 1)).drop start

/-- The indices behind another one at which as many braces were closed as opened since. -/
def balances (t : Text) (start : Nat) : Set Nat :=
  {last | start < last ∧ last < t.length ∧
    (t.through start last).count '}' = (t.through start last).count '{'}

variable {t : Text} {start : Nat} {c : Char}

theorem drop_of_getElem? (h : t[start]? = some c) : t.drop start = c :: t.drop (start + 1) := by
  rw [List.drop_eq_getElem?_toList_append, h]
  rfl

theorem through_of_getElem? (h : t[start]? = some c) (n : Nat) :
    t.through start (start + n) = c :: (t.drop (start + 1)).take n := by
  have hlength : start + n + 1 - start = n + 1 := by omega
  rw [through, List.drop_take, drop_of_getElem? h, hlength, List.take_succ_cons]

theorem height_eq_zero_iff : height t = 0 ↔ t.count '}' = t.count '{' := by
  unfold height
  omega

theorem height_pos_iff : 0 < height t ↔ t.count '}' < t.count '{' := by
  unfold height
  omega

end Text

namespace Block

open Text

variable {t : Text} {start : Nat}

theorem closing?_of_getElem? (h : t[start]? = some '{') :
    closing? t start = (closingFrom 1 (t.drop (start + 1))).map (start + 1 + ·) := by
  rw [closing?, drop_of_getElem? h, closingFrom_cons_open, Option.map_map]
  congr 1
  funext n
  show start + (n + 1) = start + 1 + n
  omega

/-- Either the height since an opening brace first comes back to zero at the brace that is found, or
none is found and the height stays positive. -/
theorem closing?_cases (h : t[start]? = some '{') :
    (∃ close ∈ t.balances start, closing? t start = some close ∧
        ∀ i, start ≤ i → i < close → 0 < height (t.through start i)) ∨
      closing? t start = none ∧ ∀ i, start ≤ i → 0 < height (t.through start i) := by
  have hheight (n : Nat) :
      height (t.through start (start + n)) = 1 + height ((t.drop (start + 1)).take n) := by
    rw [through_of_getElem? h]
    exact height_cons '{' _
  rw [closing?_of_getElem? h]
  rcases closingFrom_cases (by decide : (0 : Int) < 1) (t.drop (start + 1)) with
    ⟨inner, rest, hinner, hclosing, hbalanced, hpos⟩ | ⟨hnone, hpos⟩
  · refine .inl ⟨start + (inner.length + 1), ⟨by omega, ?_, ?_⟩, ?_, fun i hi hlast => ?_⟩
    · have hlength := congrArg List.length hinner
      simp only [List.length_drop, List.length_append, List.length_cons] at hlength
      omega
    · have htake : (t.drop (start + 1)).take (inner.length + 1) = inner ++ ['}'] := by
        rw [hinner, List.take_length_add_append]
        rfl
      have hclose : height ['}'] = -1 := rfl
      rw [← height_eq_zero_iff, hheight, htake, height_append]
      omega
    · rw [hclosing, Option.map_some]
      congr 1
      omega
    · obtain ⟨n, rfl⟩ := Nat.exists_eq_add_of_le hi
      have hfront : (t.drop (start + 1)).take n <+: inner := by
        rw [hinner, List.take_append_of_le_length (by omega)]
        exact List.take_prefix n inner
      rw [hheight]
      exact hpos _ hfront
  · refine .inr ⟨by rw [hnone]; rfl, fun i hi => ?_⟩
    obtain ⟨n, rfl⟩ := Nat.exists_eq_add_of_le hi
    rw [hheight]
    exact hpos _ (List.take_prefix n _)

end Block

/-- A text is cut at its first opening brace and at the brace that closes it. -/
theorem Piece.split_eq_of_first {t : Text} {start : Nat} (h : t[start]? = some '{')
    (hfirst : '{' ∉ t.take start) :
    split t = ofPlain (t.take start) ++
      match Block.closing? t start with
      | some close => [group (t.through (start + 1) (close - 1))] ++ split (t.drop (close + 1))
      | none => [unmatched (t.drop (start + 1))] := by
  have hcut : split t = ofPlain (t.take start) ++ split ('{' :: t.drop (start + 1)) := by
    have hscan := splitFrom_zero_append hfirst [] (t.drop (start + 1))
    rw [← Text.drop_of_getElem? h, List.take_append_drop] at hscan
    simpa [split, splitFrom] using hscan
  rw [hcut, Block.closing?_of_getElem? h]
  rcases split_cons_open (t.drop (start + 1)) with
    ⟨inner, rest, hinner, hclosing, hsplit⟩ | ⟨hnone, hsplit⟩
  · have hbetween : t.through (start + 1) (start + 1 + inner.length - 1) = inner := by
      have hlength : start + 1 + inner.length - 1 + 1 - (start + 1) = inner.length := by omega
      rw [Text.through, List.drop_take, hlength, hinner, List.take_left]
    have hbehind : t.drop (start + 1 + inner.length + 1) = rest := by
      rw [Nat.add_assoc (start + 1), ← List.drop_drop, hinner, List.drop_length_add_append]
      rfl
    rw [hclosing, hsplit]
    simp only [Option.map_some, hbetween, hbehind, List.singleton_append]
  · rw [hnone, hsplit]
    rfl

open Text in
/-- Brace matching is right, and taking blocks out of a text agrees with it. For an opening brace of
a text, the index that is found is the least one behind it at which as many braces were closed as
opened, at every index in front of it more braces were opened than closed, and none is found just if
there is no such index. For the first opening brace of what is left of a text, extraction cuts off
the text in front of it, and goes on with the block that ends at the index that is found and with
the text behind it, or, if none is found, with what a brace begins that nothing closes. -/
theorem Block.closing?_isLeast (t : Text) {start : Nat} (h : t[start]? = some '{') :
    (∀ close, closing? t start = some close ↔ IsLeast (t.balances start) close) ∧
      (∀ close, closing? t start = some close → ∀ i, start ≤ i → i < close →
        (t.through start i).count '}' < (t.through start i).count '{') ∧
      (closing? t start = none ↔ t.balances start = ∅) ∧
      ('{' ∉ t.take start → ∀ {σ : Type} (e : Engine σ) (re : Reentry σ) (dryRun : Bool)
        (output : Text) (found : ActionMap),
        e.extractPieces re dryRun output found (Piece.split t) =
          e.extractPieces re dryRun (output ++ t.take start) found
            (match closing? t start with
            | some close =>
              [.group (t.through (start + 1) (close - 1))] ++ Piece.split (t.drop (close + 1))
            | none => [.unmatched (t.drop (start + 1))])) := by
  have hextract {σ : Type} (e : Engine σ) (re : Reentry σ) (dryRun : Bool) (output : Text)
      (found : ActionMap) (pieces : List Piece) :
      e.extractPieces re dryRun output found (Piece.ofPlain (t.take start) ++ pieces) =
        e.extractPieces re dryRun (output ++ t.take start) found pieces := by
    cases t.take start with
    | nil => rw [List.append_nil]; rfl
    | cons c cs => rfl
  refine ⟨fun last => ?_, fun last hlast i hi hless => ?_, ?_,
    fun hfirst σ e re dryRun output found => ?_⟩
  · rcases closing?_cases h with ⟨close, hmem, hclosing, hpos⟩ | ⟨hnone, hpos⟩
    · have hleast : IsLeast (t.balances start) close := by
        refine ⟨hmem, fun i hi => Nat.le_of_not_lt fun hless => ?_⟩
        exact (hpos i hi.1.le hless).ne' (height_eq_zero_iff.2 hi.2.2)
      rw [hclosing, Option.some_inj]
      exact ⟨fun heq => heq ▸ hleast, hleast.unique⟩
    · rw [hnone]
      exact iff_of_false nofun fun hleast =>
        (hpos last hleast.1.1.le).ne' (height_eq_zero_iff.2 hleast.1.2.2)
  · rcases closing?_cases h with ⟨close, -, hclosing, hpos⟩ | ⟨hnone, -⟩
    · obtain rfl : close = last := Option.some.inj (hclosing.symm.trans hlast)
      exact height_pos_iff.1 (hpos i hi hless)
    · cases hnone.symm.trans hlast
  · rcases closing?_cases h with ⟨close, hmem, hclosing, -⟩ | ⟨hnone, hpos⟩
    · rw [hclosing]
      exact iff_of_false nofun (Set.nonempty_of_mem hmem).ne_empty
    · refine iff_of_true hnone (Set.eq_empty_of_forall_notMem fun last hlast => ?_)
      exact (hpos last hlast.1.le).ne' (height_eq_zero_iff.2 hlast.2.2)
  · rw [Piece.split_eq_of_first h hfirst, hextract]

def nestedText : Text := "\x7da\x7bb\x7bc\x7dd\x7de\x7b"

/-- The second brace is closed by the last one, in front of which another group is closed, and the
brace at the end by none. -/
theorem Block.closing?_nestedText :
    nestedText[2]? = some '{' ∧ IsLeast (nestedText.balances 2) 8 ∧
      nestedText[10]? = some '{' ∧ nestedText.balances 10 = ∅ ∧ '{' ∉ nestedText.take 2 ∧
      ∀ {σ : Type} (e : Engine σ) (re : Reentry σ),
        e.extract re nestedText true =
          e.extractPieces re true "\x7da" .empty
            ([.group "b\x7bc\x7dd"] ++ Piece.split "e\x7b") := by
  have hopen : nestedText[2]? = some '{' := by decide
  have hlast : nestedText[10]? = some '{' := by decide
  have hfirst : '{' ∉ nestedText.take 2 := by decide
  obtain ⟨hleast, -, -, hextract⟩ := closing?_isLeast nestedText hopen
  obtain ⟨-, -, hnone, -⟩ := closing?_isLeast nestedText hlast
  exact ⟨hopen, (hleast 8).1 (by decide), hlast, hnone.1 (by decide), hfirst,
    fun e re => hextract hfirst e re true [] .empty⟩

end StoryScript
