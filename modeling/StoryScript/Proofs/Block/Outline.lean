import StoryScript.Proofs.Block.Groups

/-!
# The outline of a text

The height of a text is the number of braces that it opens less the number that it closes. A group
begins with an opening brace and comes back to the height zero at its end, and not before; an
opening brace from which the height stays positive is unmatched. Reading from left to right, a text
falls into characters outside all groups, groups, and what begins at an unmatched brace
(`Text.Outlined`). Main statements: the brace that closes another is the first at which the height
comes back to zero (`Block.closingFrom_cases`), and a text has one outline, which is the one that it
is cut by (`Text.outlined_iff`).
-/

namespace StoryScript

namespace Text

def height (t : Text) : Int := t.count '{' - t.count '}'

@[simp] theorem height_nil : height [] = 0 := rfl

theorem height_append (t u : Text) : height (t ++ u) = height t + height u := by
  simp only [height, List.count_append, Int.natCast_add]
  omega

theorem height_cons (c : Char) (t : Text) : height (c :: t) = height [c] + height t :=
  height_append [c] t

theorem height_singleton_of_ne {c : Char} (hopen : c ≠ '{') (hclose : c ≠ '}') :
    height [c] = 0 := by
  simp [height, hopen, hclose]

/-- A block from an opening brace to the one that closes it. -/
structure IsGroup (block : Text) : Prop where
  opens : block.head? = some '{'
  height_eq : height block = 0
  height_pos : ∀ front, front <+: block → front ≠ [] → front ≠ block → 0 < height front

/-- What follows an opening brace that nothing closes, with the brace. -/
structure IsUnmatched (rest : Text) : Prop where
  opens : rest.head? = some '{'
  height_pos : ∀ front, front <+: rest → front ≠ [] → 0 < height front

/-- What is read of a text from left to right: the text outside its groups, the groups, and what
begins at an unmatched brace, which is nothing if there is none. -/
inductive Outlined : Text → (outside : Text) → (blocks : List Text) → (tail : Text) → Prop
  | nil : Outlined [] [] [] []
  | char {c : Char} {t outside tail : Text} {blocks : List Text} (hc : c ≠ '{')
    (ht : Outlined t outside blocks tail) : Outlined (c :: t) (c :: outside) blocks tail
  | group {block t outside tail : Text} {blocks : List Text} (hblock : block.IsGroup)
    (ht : Outlined t outside blocks tail) : Outlined (block ++ t) outside (block :: blocks) tail
  | unmatched {rest : Text} (hrest : rest.IsUnmatched) : Outlined rest [] [] rest

end Text

/-! ## The brace that closes another -/

/-- From a positive depth, the closing brace is the first at which the depth comes back to zero, and
there is none where the depth stays positive. -/
theorem Block.closingFrom_cases {depth : Int} (hdepth : 0 < depth) (t : Text) :
    (∃ inner rest, t = inner ++ '}' :: rest ∧ closingFrom depth t = some inner.length ∧
        depth + Text.height inner = 1 ∧
        ∀ front, front <+: inner → 0 < depth + Text.height front) ∨
      closingFrom depth t = none ∧ ∀ front, front <+: t → 0 < depth + Text.height front := by
  induction t generalizing depth with
  | nil =>
    refine .inr ⟨rfl, fun front hfront => ?_⟩
    rw [List.prefix_nil.1 hfront]
    simpa using hdepth
  | cons c cs ih =>
    -- A character that does not close moves the depth, and nothing is closed before it.
    have hstep (depth' : Int) (hmoved : depth' = depth + Text.height [c]) (hdepth' : 0 < depth')
        (hcount : closingFrom depth (c :: cs) = (closingFrom depth' cs).map (· + 1)) :
        (∃ inner rest, c :: cs = inner ++ '}' :: rest ∧
          closingFrom depth (c :: cs) = some inner.length ∧ depth + Text.height inner = 1 ∧
            ∀ front, front <+: inner → 0 < depth + Text.height front) ∨
        closingFrom depth (c :: cs) = none ∧
          ∀ front, front <+: c :: cs → 0 < depth + Text.height front := by
      have hfront {u : Text} (h : ∀ front, front <+: u → 0 < depth' + Text.height front) :
          ∀ front, front <+: c :: u → 0 < depth + Text.height front := by
        intro front hprefix
        rcases List.prefix_cons_iff.1 hprefix with rfl | ⟨front', rfl, hprefix'⟩
        · simpa using hdepth
        · have := h front' hprefix'
          rw [Text.height_cons]
          omega
      rw [hcount]
      rcases ih hdepth' with ⟨inner, rest, rfl, hclosing, hheight, hpos⟩ | ⟨hnone, hpos⟩
      · refine .inl ⟨c :: inner, rest, rfl, by rw [hclosing]; rfl, ?_, hfront hpos⟩
        rw [Text.height_cons]
        omega
      · exact .inr ⟨by rw [hnone]; rfl, hfront hpos⟩
    by_cases hopen : c = '{'
    · subst hopen
      exact hstep (depth + 1) rfl (by omega) (by simp [closingFrom])
    by_cases hclose : c = '}'
    · subst hclose
      by_cases hone : depth = 1
      · subst hone
        refine .inl ⟨[], cs, rfl, by simp [closingFrom], rfl, fun front hfront => ?_⟩
        rw [List.prefix_nil.1 hfront]
        decide
      · exact hstep (depth - 1) rfl (by omega) (by simp [closingFrom, hone])
    · have hheight := Text.height_singleton_of_ne hopen hclose
      exact hstep depth (by omega) hdepth (by simp [closingFrom, hopen, hclose])

namespace Text

/-- What a text begins with that opens a brace is a group or unmatched, and is cut as such. -/
theorem group_or_unmatched (cs : Text) :
    (∃ inner rest, '{' :: cs = (Piece.group inner).written ++ rest ∧
        IsGroup (Piece.group inner).written ∧
        Piece.split ('{' :: cs) = .group inner :: Piece.split rest) ∨
      IsUnmatched ('{' :: cs) ∧ Piece.split ('{' :: cs) = [.unmatched cs] := by
  have hopened (front : Text) : height ('{' :: front) = 1 + height front := height_cons '{' front
  rcases Block.closingFrom_cases (by decide : (0 : Int) < 1) cs with
    ⟨inner, rest, hcs, hclosing, hheight, hpos⟩ | ⟨hnone, hpos⟩
  · rcases Piece.split_cons_open cs with ⟨inner', rest', hcs', hclosing', hsplit⟩ | ⟨hnone, -⟩
    · have hlength : inner.length = inner'.length :=
        Option.some.inj (hclosing.symm.trans hclosing')
      obtain ⟨rfl, hrest⟩ := List.append_inj (hcs.symm.trans hcs') hlength
      obtain rfl := (List.cons.inj hrest).2
      refine .inl ⟨inner, rest, by simp [hcs, Piece.written], ⟨rfl, ?_, ?_⟩, hsplit⟩
      · show height ('{' :: (inner ++ ['}'])) = 0
        have hclosed : height ['}'] = -1 := rfl
        rw [hopened, height_append, hclosed]
        omega
      · intro front hfront hne hne'
        rcases List.prefix_cons_iff.1 hfront with rfl | ⟨front', rfl, hfront'⟩
        · exact absurd rfl hne
        · rcases List.prefix_concat_iff.1 hfront' with rfl | hinner
          · exact absurd rfl hne'
          · rw [hopened]
            exact hpos front' hinner
    · cases hnone.symm.trans hclosing
  · rcases Piece.split_cons_open cs with ⟨inner', rest', hcs', hclosing', hsplit⟩ | ⟨-, hsplit⟩
    · cases hnone.symm.trans hclosing'
    · refine .inr ⟨⟨rfl, fun front hfront hne => ?_⟩, hsplit⟩
      rcases List.prefix_cons_iff.1 hfront with rfl | ⟨front', rfl, hfront'⟩
      · exact absurd rfl hne
      · rw [hopened]
        exact hpos front' hfront'

theorem IsGroup.split {block : Text} (h : block.IsGroup) :
    ∃ inner, block = (Piece.group inner).written ∧ Piece.split block = [.group inner] := by
  obtain ⟨cs, rfl⟩ := List.head?_eq_some_iff.1 h.opens
  rcases group_or_unmatched cs with ⟨inner, rest, hcs, hgroup, hsplit⟩ | ⟨hunmatched, -⟩
  · -- The group in front has height zero, so it is the whole block.
    have hwhole : (Piece.group inner).written = '{' :: cs := by
      refine Classical.byContradiction fun hne => ?_
      have hpos := h.height_pos _ ⟨rest, hcs.symm⟩ (by simp [Piece.written]) hne
      rw [hgroup.height_eq] at hpos
      exact Int.lt_irrefl 0 hpos
    obtain rfl : rest = [] := List.self_eq_append_right.1 (hwhole.trans hcs)
    exact ⟨inner, hwhole.symm, hsplit⟩
  · have hpos := hunmatched.height_pos _ List.prefix_rfl (by simp)
    rw [h.height_eq] at hpos
    exact absurd hpos (Int.lt_irrefl 0)

/-- What is cut as a group is one. -/
theorem IsGroup.of_split {inner : Text}
    (h : Piece.split (Piece.group inner).written = [.group inner]) :
    IsGroup (Piece.group inner).written := by
  rcases group_or_unmatched (inner ++ ['}']) with ⟨inner', rest, -, hgroup, hsplit⟩ | ⟨-, hsplit⟩
  · obtain ⟨hinner, -⟩ := List.cons.inj (h.symm.trans hsplit)
    obtain rfl := Piece.group.inj hinner
    exact hgroup
  · cases h.symm.trans hsplit

theorem IsUnmatched.split {rest : Text} (h : rest.IsUnmatched) :
    ∃ cs, rest = '{' :: cs ∧ Piece.split rest = [.unmatched cs] := by
  obtain ⟨cs, rfl⟩ := List.head?_eq_some_iff.1 h.opens
  rcases group_or_unmatched cs with ⟨inner, rest, hcs, hgroup, -⟩ | ⟨-, hsplit⟩
  · have hpos := h.height_pos _ ⟨rest, hcs.symm⟩ (by simp [Piece.written])
    rw [hgroup.height_eq] at hpos
    exact absurd hpos (Int.lt_irrefl 0)
  · exact ⟨cs, rfl, hsplit⟩

end Text

namespace Piece

/-- A scan that ends outside all groups goes on with the pieces of a text that opens one. -/
theorem splitFrom_append_open {depth : Nat} {read t : Text} (u : Text)
    (h : allClosed (splitFrom depth read t)) :
    splitFrom depth read (t ++ '{' :: u) = splitFrom depth read t ++ split ('{' :: u) := by
  have hsplit : split ('{' :: u) = splitFrom 1 [] u := by simp [split, splitFrom]
  rw [hsplit]
  fun_induction splitFrom depth read t with
  | case1 read => simp [splitFrom]
  | case2 depth read => simp at h
  | case3 read cs ih =>
    simp only [allClosed_append, allClosed_ofPlain, Bool.true_and] at h
    simp [splitFrom, ih h]
  | case4 read c cs hc ih => simpa [splitFrom, hc] using ih h
  | case5 depth read cs ih => simpa [splitFrom] using ih h
  | case6 read cs _ ih => simpa [splitFrom] using ih h
  | case7 read cs depth _ ih => simpa [splitFrom] using ih h
  | case8 depth read c cs hc hc' ih => simpa [splitFrom, hc, hc'] using ih h

theorem split_append_group {front inner : Text} (hfront : front.isClosed)
    (hgroup : Text.IsGroup (group inner).written) (rest : Text) :
    split (front ++ (group inner).written ++ rest) =
      split front ++ group inner :: split rest := by
  obtain ⟨inner', hinner, hsplit⟩ := hgroup.split
  obtain rfl : inner = inner' := by simpa [written] using hinner
  have hrest := @split_append_of_group [] _ inner List.not_mem_nil hsplit rest
  have happend := splitFrom_append_open (inner ++ ['}'] ++ rest) hfront
  rw [List.nil_append, ofPlain_nil, List.nil_append] at hrest
  rw [List.append_assoc, ← hrest]
  exact happend

end Piece

namespace Text

/-! ## The outline and the pieces -/

theorem exists_outlined (t : Text) : ∃ outside blocks tail, Outlined t outside blocks tail := by
  -- A group is read at once, so the induction is on the length.
  induction hn : t.length using Nat.strongRecOn generalizing t with
  | ind n ih =>
    subst hn
    cases t with
    | nil => exact ⟨[], [], [], .nil⟩
    | cons c cs =>
      by_cases hc : c = '{'
      · subst hc
        rcases group_or_unmatched cs with ⟨inner, rest, hcs, hgroup, -⟩ | ⟨hunmatched, -⟩
        · have hlength : rest.length < ('{' :: cs).length := by
            rw [hcs, List.length_append]
            simp only [Piece.written, List.length_cons, List.cons_append]
            omega
          obtain ⟨outside, blocks, tail, hrest⟩ := ih rest.length hlength rest rfl
          rw [hcs]
          exact ⟨outside, _, tail, .group hgroup hrest⟩
        · exact ⟨[], [], _, .unmatched hunmatched⟩
      · obtain ⟨outside, blocks, tail, hcs⟩ := ih cs.length (Nat.lt_succ_self _) cs rfl
        exact ⟨_, blocks, tail, .char hc hcs⟩

end Text

namespace Piece

/-- The text outside all groups among pieces. -/
def outside (pieces : List Piece) : Text :=
  pieces.flatMap fun
    | plain t => t
    | _ => []

/-- The groups among pieces, as they are written. -/
def blocks (pieces : List Piece) : List Text :=
  (groups pieces).map fun inner => (group inner).written

/-- What follows an unmatched brace among pieces, with the brace. -/
def tail (pieces : List Piece) : Text :=
  pieces.flatMap fun
    | unmatched rest => (unmatched rest).written
    | _ => []

@[simp] theorem outside_append (pieces more : List Piece) :
    outside (pieces ++ more) = outside pieces ++ outside more :=
  List.flatMap_append

@[simp] theorem blocks_append (pieces more : List Piece) :
    blocks (pieces ++ more) = blocks pieces ++ blocks more := by
  rw [blocks, groups_append, List.map_append]
  rfl

@[simp] theorem tail_append (pieces more : List Piece) :
    tail (pieces ++ more) = tail pieces ++ tail more :=
  List.flatMap_append

@[simp] theorem parts_ofPlain (t : Text) :
    outside (ofPlain t) = t ∧ blocks (ofPlain t) = [] ∧ tail (ofPlain t) = [] := by
  cases t <;> simp [ofPlain, outside, blocks, tail]

/-- What is read outside all groups is in front of what follows. -/
theorem parts_splitFrom_zero (read t : Text) :
    outside (splitFrom 0 read t) = read.reverse ++ outside (split t) ∧
      blocks (splitFrom 0 read t) = blocks (split t) ∧
        tail (splitFrom 0 read t) = tail (split t) := by
  induction t generalizing read with
  | nil =>
    obtain ⟨houtside, hblocks, htail⟩ := parts_ofPlain read.reverse
    rw [splitFrom, houtside, hblocks, htail]
    exact ⟨(List.append_nil _).symm, rfl, rfl⟩
  | cons c cs ih =>
    by_cases hc : c = '{'
    · obtain ⟨houtside, hblocks, htail⟩ := parts_ofPlain read.reverse
      simp [split, splitFrom, hc, houtside, hblocks, htail]
    · obtain ⟨houtside, hblocks, htail⟩ := ih (c :: read)
      obtain ⟨houtside', hblocks', htail'⟩ := ih [c]
      simp only [split, splitFrom, hc, if_false]
      rw [houtside, houtside', hblocks, hblocks', htail, htail']
      simp

theorem parts_split_cons {c : Char} (hc : c ≠ '{') (t : Text) :
    outside (split (c :: t)) = c :: outside (split t) ∧
      blocks (split (c :: t)) = blocks (split t) ∧ tail (split (c :: t)) = tail (split t) := by
  have h := parts_splitFrom_zero [c] t
  simpa [split, splitFrom, hc] using h

end Piece

/-- A text has the outline that it is cut by, and no other. -/
theorem Text.outlined_iff {t outside tail : Text} {blocks : List Text} :
    t.Outlined outside blocks tail ↔
      outside = Piece.outside (Piece.split t) ∧ blocks = Piece.blocks (Piece.split t) ∧
        tail = Piece.tail (Piece.split t) := by
  have hcut {t outside tail : Text} {blocks : List Text} (h : t.Outlined outside blocks tail) :
      outside = Piece.outside (Piece.split t) ∧ blocks = Piece.blocks (Piece.split t) ∧
        tail = Piece.tail (Piece.split t) := by
    induction h with
    | nil => exact ⟨rfl, rfl, rfl⟩
    | char hc _ ih =>
      obtain ⟨houtside, hblocks, htail⟩ := Piece.parts_split_cons hc _
      rw [houtside, hblocks, htail]
      exact ⟨congrArg _ ih.1, ih.2⟩
    | group hblock _ ih =>
      obtain ⟨inner, rfl, hsplit⟩ := hblock.split
      have happend := @Piece.split_append_of_group [] _ inner List.not_mem_nil hsplit
      simp only [List.nil_append, Piece.ofPlain_nil] at happend
      rw [happend]
      exact ⟨ih.1, congrArg _ ih.2.1, ih.2.2⟩
    | unmatched hrest =>
      obtain ⟨cs, rfl, hsplit⟩ := hrest.split
      rw [hsplit]
      exact ⟨rfl, rfl, (List.append_nil _).symm⟩
  refine ⟨hcut, ?_⟩
  rintro ⟨rfl, rfl, rfl⟩
  obtain ⟨outside, blocks, tail, h⟩ := exists_outlined t
  obtain ⟨rfl, rfl, rfl⟩ := hcut h
  exact h

end StoryScript
