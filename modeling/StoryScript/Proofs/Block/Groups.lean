import StoryScript.Block.Closing
import StoryScript.Block.Piece

/-!
# The outermost brace groups of a text

A text is closed if each brace that it opens outside all groups is closed again; braces that close
nothing do no harm. Main statements: behind a closed text the groups of another one follow
unchanged (`Text.groups_append`), each piece of a text is cut off alone (`Piece.split_written`), and
cutting at groups agrees with looking for the brace that closes another
(`Piece.cutsAtClosing`).
-/

namespace StoryScript

namespace Piece

/-- The insides of the groups among pieces. -/
def groups (pieces : List Piece) : List Text :=
  pieces.filterMap fun
    | group inner => some inner
    | _ => none

/-- Whether no piece is left open. -/
def allClosed (pieces : List Piece) : Bool :=
  pieces.all fun
    | unmatched _ => false
    | _ => true

/-- The offset of the brace that is left open, in pieces that begin at an offset. -/
def unmatchedFrom? : (offset : Nat) → List Piece → Option Nat
  | _, [] => none
  | offset, unmatched _ :: _ => some offset
  | offset, piece :: pieces => unmatchedFrom? (offset + piece.written.length) pieces

@[simp] theorem groups_nil : groups [] = [] := rfl

@[simp] theorem groups_plain (t : Text) (pieces : List Piece) :
    groups (plain t :: pieces) = groups pieces := rfl

@[simp] theorem groups_group (inner : Text) (pieces : List Piece) :
    groups (group inner :: pieces) = inner :: groups pieces := rfl

@[simp] theorem groups_unmatched (rest : Text) (pieces : List Piece) :
    groups (unmatched rest :: pieces) = groups pieces := rfl

theorem groups_append (pieces more : List Piece) :
    groups (pieces ++ more) = groups pieces ++ groups more :=
  List.filterMap_append

@[simp] theorem groups_ofPlain (t : Text) : groups (ofPlain t) = [] := by
  cases t <;> rfl

@[simp] theorem allClosed_nil : allClosed [] = true := rfl

@[simp] theorem allClosed_plain (t : Text) (pieces : List Piece) :
    allClosed (plain t :: pieces) = allClosed pieces := rfl

@[simp] theorem allClosed_group (inner : Text) (pieces : List Piece) :
    allClosed (group inner :: pieces) = allClosed pieces := rfl

@[simp] theorem allClosed_unmatched (rest : Text) (pieces : List Piece) :
    allClosed (unmatched rest :: pieces) = false := rfl

theorem allClosed_append (pieces more : List Piece) :
    allClosed (pieces ++ more) = (allClosed pieces && allClosed more) :=
  List.all_append

@[simp] theorem allClosed_ofPlain (t : Text) : allClosed (ofPlain t) = true := by
  cases t <;> rfl

/-! ## Reading on behind a closed text -/

@[simp] theorem ofPlain_nil : ofPlain [] = [] := rfl

/-- What is read outside all groups is neither a group nor left open. -/
theorem splitFrom_zero (read t : Text) :
    groups (splitFrom 0 read t) = groups (split t) ∧
      allClosed (splitFrom 0 read t) = allClosed (split t) := by
  induction t generalizing read with
  | nil => simp [split, splitFrom]
  | cons c cs ih =>
    by_cases hc : c = '{'
    · simp [split, splitFrom, hc, groups_append, allClosed_append]
    · simp only [split, splitFrom, hc, if_false]
      exact ⟨(ih (c :: read)).1.trans (ih [c]).1.symm, (ih (c :: read)).2.trans (ih [c]).2.symm⟩

theorem split_of_not_mem {t : Text} (h : '{' ∉ t) : split t = ofPlain t := by
  have hread (read : Text) : splitFrom 0 read t = ofPlain (read.reverse ++ t) := by
    induction t generalizing read with
    | nil => simp [splitFrom]
    | cons c cs ih =>
      obtain ⟨hc, hcs⟩ := not_or.1 (mt List.mem_cons.2 h)
      simpa [splitFrom, Ne.symm hc] using ih hcs (c :: read)
  exact hread []

/-- A scan that ends outside all groups goes on with the text that follows. -/
theorem splitFrom_append {depth : Nat} {read t : Text} (u : Text)
    (h : allClosed (splitFrom depth read t)) :
    groups (splitFrom depth read (t ++ u)) = groups (splitFrom depth read t) ++ groups (split u) ∧
      allClosed (splitFrom depth read (t ++ u)) = allClosed (split u) := by
  -- The induction follows the scan of the front; what is left where it ends is read outside.
  fun_induction splitFrom depth read t with
  | case1 read => simpa using splitFrom_zero read u
  | case2 depth read => simp at h
  | case3 read cs ih =>
    simp only [allClosed_append, allClosed_ofPlain, Bool.true_and] at h
    simp [splitFrom, groups_append, allClosed_append, ih h]
  | case4 read c cs hc ih => simpa [splitFrom, hc] using ih h
  | case5 depth read cs ih => simpa [splitFrom] using ih h
  | case6 read cs _ ih => simpa [splitFrom] using ih h
  | case7 read cs depth _ ih => simpa [splitFrom] using ih h
  | case8 depth read c cs hc hc' ih => simpa [splitFrom, hc, hc'] using ih h

/-- A text without braces behind another one neither closes nor opens anything. -/
theorem allClosed_splitFrom_append {depth : Nat} {read t u : Text}
    (hopen : '{' ∉ u) (hclose : '}' ∉ u) :
    allClosed (splitFrom depth read (t ++ u)) = allClosed (splitFrom depth read t) := by
  have hu (depth : Nat) (read : Text) :
      allClosed (splitFrom depth read u) = allClosed (splitFrom depth read []) := by
    induction u generalizing read with
    | nil => rfl
    | cons c cs ih =>
      simp only [List.mem_cons, not_or] at hopen hclose
      have ih := ih hopen.2 hclose.2 (c :: read)
      cases depth <;> simpa [splitFrom, Ne.symm hopen.1, Ne.symm hclose.1] using ih
  fun_induction splitFrom depth read t with
  | case1 read => simpa [splitFrom] using hu 0 read
  | case2 depth read => simpa [splitFrom] using hu (depth + 1) read
  | case3 read cs ih => simpa [splitFrom, allClosed_append] using ih
  | case4 read c cs hc ih => simpa [splitFrom, hc] using ih
  | case5 depth read cs ih => simpa [splitFrom] using ih
  | case6 read cs _ ih => simpa [splitFrom] using ih
  | case7 read cs depth _ ih => simpa [splitFrom] using ih
  | case8 depth read c cs hc hc' ih => simpa [splitFrom, hc, hc'] using ih

/-- What is read in front of a text without an opening brace is plain, up to the first brace. -/
theorem splitFrom_zero_append {t : Text} (h : '{' ∉ t) (read u : Text) :
    splitFrom 0 read (t ++ '{' :: u) = ofPlain (read.reverse ++ t) ++ splitFrom 1 [] u := by
  induction t generalizing read with
  | nil => simp [splitFrom]
  | cons c cs ih =>
    obtain ⟨hc, hcs⟩ := not_or.1 (mt List.mem_cons.2 h)
    simpa [splitFrom, Ne.symm hc] using ih hcs (c :: read)

/-- A scan that ends with the brace that closes a group reads on outside it. -/
theorem splitFrom_append_of_group {depth : Nat} {read t inner : Text} (u : Text)
    (h : splitFrom (depth + 1) read t = [group inner]) :
    splitFrom (depth + 1) read (t ++ u) = group inner :: split u := by
  induction t generalizing depth read with
  | nil => cases h
  | cons c cs ih =>
    rw [List.cons_append]
    unfold splitFrom at h ⊢
    by_cases hopen : c = '{'
    · rw [if_pos hopen] at h ⊢
      exact ih h
    · rw [if_neg hopen] at h ⊢
      by_cases hclose : c = '}'
      · rw [if_pos hclose] at h ⊢
        cases depth with
        | zero =>
          obtain ⟨hinner, hrest⟩ := List.cons.inj h
          have hcs := written_splitFrom 0 [] cs
          rw [hrest] at hcs
          obtain rfl : [] = cs := hcs
          exact congrArg (· :: split u) hinner
        | succ depth => exact ih h
      · rw [if_neg hclose] at h ⊢
        exact ih h

theorem split_written_of_mem_ofPlain {t : Text} (h : split t = ofPlain t) {p : Piece}
    (hp : p ∈ ofPlain t) : split p.written = [p] := by
  cases t with
  | nil => simp [ofPlain] at hp
  | cons c cs =>
    obtain rfl : p = plain (c :: cs) := by simpa [ofPlain] using hp
    exact h

/-- A scan that has read some text is where a scan of that text from its beginning is. -/
private theorem split_written_of_scan {depth : Nat} {read t : Text}
    (h : ∀ u, splitFrom (min depth 1) [] (read.reverse ++ u) = splitFrom depth read u)
    {p : Piece} (hp : p ∈ splitFrom depth read t) : split p.written = [p] := by
  fun_induction splitFrom depth read t with
  | case1 read =>
    have hplain : split read.reverse = ofPlain read.reverse := by
      simpa [splitFrom, split] using h []
    exact split_written_of_mem_ofPlain hplain hp
  | case2 depth read =>
    obtain rfl : p = unmatched read.reverse := by simpa using hp
    have := h []
    simpa [splitFrom, split, written] using this
  | case3 read cs ih =>
    rcases List.mem_append.1 hp with hp | hp
    · have hplain : split read.reverse = ofPlain read.reverse := by
        simpa [splitFrom, split] using h []
      exact split_written_of_mem_ofPlain hplain hp
    · -- The group is read from its own brace on, so nothing was read of it yet.
      exact ih (fun u => rfl) hp
  | case4 read c cs hc ih =>
    refine ih (fun u => ?_) hp
    simpa [splitFrom, hc] using h (c :: u)
  | case5 depth read cs ih =>
    refine ih (fun u => ?_) hp
    simpa [splitFrom] using h ('{' :: u)
  | case6 read cs _ ih =>
    rcases List.mem_cons.1 hp with rfl | hp
    · have := h ['}']
      simpa [splitFrom, split, written] using this
    · exact ih (fun u => rfl) hp
  | case7 read cs depth _ ih =>
    refine ih (fun u => ?_) hp
    simpa [splitFrom] using h ('}' :: u)
  | case8 depth read c cs hc hc' ih =>
    refine ih (fun u => ?_) hp
    simpa [splitFrom, hc, hc'] using h (c :: u)

/-- Each piece of a text is cut off alone. -/
theorem split_written {p : Piece} {t : Text} (h : p ∈ split t) : split p.written = [p] :=
  split_written_of_scan (fun _ => rfl) h

/-- A group behind text without an opening brace is cut off with what is in front of it, whatever
follows. -/
theorem split_append_of_group {front block inner : Text} (hfront : '{' ∉ front)
    (hblock : split block = [group inner]) (t : Text) :
    split (front ++ block ++ t) = ofPlain front ++ group inner :: split t := by
  have hwritten : block = '{' :: (inner ++ ['}']) := by
    have h := written_split block
    rw [hblock] at h
    simpa [written] using h.symm
  have hinner : splitFrom 1 [] (inner ++ ['}']) = [group inner] := by
    rw [hwritten] at hblock
    simpa [split, splitFrom] using hblock
  have hcut := splitFrom_append_of_group t hinner
  calc
    split (front ++ block ++ t) = splitFrom 0 [] (front ++ '{' :: (inner ++ ['}'] ++ t)) := by
      rw [hwritten]
      simp [split]
    _ = ofPlain front ++ splitFrom 1 [] (inner ++ ['}'] ++ t) := splitFrom_zero_append hfront [] _
    _ = ofPlain front ++ group inner :: split t := by rw [hcut]

/-- Nothing follows a piece that is left open. -/
def StopsAtUnmatched : List Piece → Prop
  | [] => True
  | unmatched _ :: pieces => pieces = []
  | _ :: pieces => StopsAtUnmatched pieces

theorem stopsAtUnmatched_ofPlain_append (t : Text) {pieces : List Piece}
    (h : StopsAtUnmatched pieces) : StopsAtUnmatched (ofPlain t ++ pieces) := by
  cases t <;> exact h

theorem stopsAtUnmatched_split (t : Text) : StopsAtUnmatched (split t) := by
  have h (depth : Nat) (read : Text) : StopsAtUnmatched (splitFrom depth read t) := by
    fun_induction splitFrom depth read t with
    | case1 read =>
      have hnil : StopsAtUnmatched [] := trivial
      simpa using stopsAtUnmatched_ofPlain_append read.reverse hnil
    | case2 depth read => rfl
    | case3 read cs ih => exact stopsAtUnmatched_ofPlain_append _ ih
    | _ => assumption
  exact h 0 []

/-! ## Agreement with the brace that closes another -/

/-- A scan inside a group cuts at the brace that closes it, or there is none and the group is left
open. -/
def CutsAtClosing (depth : Nat) (read t : Text) : Prop :=
  (∃ inner rest, t = inner ++ '}' :: rest ∧
      Block.closingFrom (depth + 1) t = some inner.length ∧
      splitFrom (depth + 1) read t = group (read.reverse ++ inner) :: split rest) ∨
    (Block.closingFrom (depth + 1) t = none ∧
      splitFrom (depth + 1) read t = [unmatched (read.reverse ++ t)])

/-- A character that does not close the group moves the scan and the count to one depth. -/
theorem CutsAtClosing.cons {depth : Nat} {read cs : Text} {c : Char} (depth' : Nat)
    (hscan : splitFrom (depth + 1) read (c :: cs) = splitFrom (depth' + 1) (c :: read) cs)
    (hcount : Block.closingFrom (depth + 1) (c :: cs) =
      (Block.closingFrom (depth' + 1) cs).map (· + 1))
    (h : CutsAtClosing depth' (c :: read) cs) : CutsAtClosing depth read (c :: cs) := by
  unfold CutsAtClosing
  rw [hscan, hcount]
  rcases h with ⟨inner, rest, rfl, h, h'⟩ | ⟨h, h'⟩
  · exact .inl ⟨c :: inner, rest, rfl, by simp [h], by simp [h']⟩
  · exact .inr ⟨by simp [h], by simp [h']⟩

theorem cutsAtClosing (depth : Nat) (read t : Text) : CutsAtClosing depth read t := by
  induction t generalizing depth read with
  | nil => exact .inr ⟨rfl, by simp [splitFrom]⟩
  | cons c cs ih =>
    by_cases hopen : c = '{'
    · exact .cons (depth + 1) (by simp [splitFrom, hopen])
        (by simp [Block.closingFrom, hopen]) (ih _ _)
    by_cases hclosing : c = '}'
    · subst hclosing
      cases depth with
      | zero =>
        exact .inl ⟨[], cs, rfl, by simp [Block.closingFrom], by simp [splitFrom, split]⟩
      | succ depth =>
        refine .cons depth (by simp [splitFrom]) ?_ (ih _ _)
        have hdepth : ((depth + 1 : Nat) : Int) + 1 ≠ 1 := by omega
        have hless : ((depth + 1 : Nat) : Int) + 1 - 1 = depth + 1 := by omega
        simp only [Block.closingFrom, if_neg hdepth, hless]
        simp
    · exact .cons depth (by simp [splitFrom, hopen, hclosing])
        (by simp [Block.closingFrom, hopen, hclosing]) (ih _ _)

/-- A text that begins with an opening brace is cut at the brace that closes it. -/
theorem split_cons_open (cs : Text) :
    (∃ inner rest, cs = inner ++ '}' :: rest ∧
        Block.closingFrom 1 cs = some inner.length ∧
        split ('{' :: cs) = group inner :: split rest) ∨
      (Block.closingFrom 1 cs = none ∧ split ('{' :: cs) = [unmatched cs]) := by
  have hsplit : split ('{' :: cs) = splitFrom 1 [] cs := by simp [split, splitFrom]
  rw [hsplit]
  exact cutsAtClosing 0 [] cs

end Piece

namespace Text

/-- The insides of the outermost groups of a text, in their order. -/
def groups (t : Text) : List Text := Piece.groups (Piece.split t)

/-- Whether every brace that a text opens is closed. -/
def isClosed (t : Text) : Bool := Piece.allClosed (Piece.split t)

@[simp] theorem groups_nil : groups [] = [] := rfl

@[simp] theorem isClosed_nil : isClosed [] = true := rfl

theorem groups_append {t : Text} (h : isClosed t) (u : Text) :
    groups (t ++ u) = groups t ++ groups u :=
  (Piece.splitFrom_append u h).1

theorem isClosed_append {t : Text} (h : isClosed t) (u : Text) :
    isClosed (t ++ u) = isClosed u :=
  (Piece.splitFrom_append u h).2

theorem isClosed_of_append {t u : Text} (h : isClosed (t ++ u)) (hopen : '{' ∉ u)
    (hclose : '}' ∉ u) : isClosed t :=
  (Piece.allClosed_splitFrom_append hopen hclose).symm.trans h

theorem isClosed_append_self {t u : Text} (ht : isClosed t) (hu : isClosed u) :
    isClosed (t ++ u) :=
  (isClosed_append ht u).trans hu

/-- A piece that is cut off alone is closed if it is not left open. -/
theorem isClosed_written {p : Piece} (hp : Piece.split p.written = [p]) :
    isClosed p.written = Piece.allClosed [p] := by
  rw [isClosed, hp]

theorem groups_written {p : Piece} (hp : Piece.split p.written = [p]) :
    groups p.written = Piece.groups [p] := by
  rw [groups, hp]

theorem groups_of_not_mem {t : Text} (h : '{' ∉ t) : groups t = [] := by
  rw [groups, Piece.split_of_not_mem h, Piece.groups_ofPlain]

theorem groups_flatten {ts : List Text} (h : ∀ t ∈ ts, isClosed t) :
    groups ts.flatten = ts.flatMap groups ∧ isClosed ts.flatten := by
  induction ts with
  | nil => simp
  | cons t ts ih =>
    obtain ⟨hgroups, hclosed⟩ := ih fun u hu => h u (List.mem_cons_of_mem _ hu)
    have ht := h t List.mem_cons_self
    simp only [List.flatten_cons, List.flatMap_cons]
    exact ⟨by rw [groups_append ht, hgroups], by rw [isClosed_append ht, hclosed]⟩

/-- A text that closes every brace it opens, and no other. -/
inductive Balanced : Text → Prop
  | nil : Balanced []
  | cons {c : Char} {t : Text} (hopen : c ≠ '{') (hclose : c ≠ '}') (ht : Balanced t) :
    Balanced (c :: t)
  | group {inner t : Text} (hinner : Balanced inner) (ht : Balanced t) :
    Balanced ('{' :: (inner ++ '}' :: t))

namespace Balanced

theorem of_not_mem {t : Text} (hopen : '{' ∉ t) (hclose : '}' ∉ t) : Balanced t := by
  induction t with
  | nil => exact .nil
  | cons c cs ih =>
    simp only [List.mem_cons, not_or] at hopen hclose
    exact .cons (Ne.symm hopen.1) (Ne.symm hclose.1) (ih hopen.2 hclose.2)

/-- A scan inside a group passes over a balanced text. -/
theorem splitFrom_append {t : Text} (h : Balanced t) (depth : Nat) (read u : Text) :
    Piece.splitFrom (depth + 1) read (t ++ u) =
      Piece.splitFrom (depth + 1) (t.reverse ++ read) u := by
  induction h generalizing depth read u with
  | nil => rfl
  | cons hopen hclose _ ih => simpa [Piece.splitFrom, hopen, hclose] using ih depth _ u
  | @group inner t _ _ ihinner iht =>
    have hinner := ihinner (depth + 1) ('{' :: read) ('}' :: (t ++ u))
    have ht := iht depth ('}' :: (inner.reverse ++ '{' :: read)) u
    simpa [Piece.splitFrom, hinner] using ht

/-- Braces around a balanced text are a group, whatever follows. -/
theorem split_append {inner : Text} (h : Balanced inner) (t : Text) :
    Piece.split ('{' :: (inner ++ '}' :: t)) = .group inner :: Piece.split t := by
  have hinner := h.splitFrom_append 0 [] ('}' :: t)
  simpa [Piece.split, Piece.splitFrom] using hinner

end Balanced

end Text

end StoryScript
