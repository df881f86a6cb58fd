import StoryScript.Engine.Resolve
import StoryScript.Proofs.Block.Outline
import StoryScript.Proofs.Text.Cuts

/-!
# Texts with their placeholders filled in

A placeholder without braces that is replaced by a text without braces moves what follows it and
changes nothing else (`Text.Filled`). Main statements: a text that is filled in can be parted where
no placeholder crosses (`Text.Filled.of_append`), it has the groups that it had, filled in
(`Text.Filled.isGroup`), and is closed if it was (`Text.Filled.isClosed`); and what no placeholder
is written in stays as it is (`Text.Filled.eq_or_exists`).
-/

namespace StoryScript

namespace Text

/-! ## Open braces -/

/-- How many braces are open behind a text in front of which some were open; a brace that closes
nothing does no harm. -/
def openFrom (depth : Nat) (t : Text) : Nat :=
  t.foldl (fun depth c => if c = '{' then depth + 1 else if c = '}' then depth - 1 else depth) depth

theorem allClosed_splitFrom_iff (depth : Nat) (read t : Text) :
    Piece.allClosed (Piece.splitFrom depth read t) ↔ openFrom depth t = 0 := by
  fun_induction Piece.splitFrom depth read t <;>
    simp_all [openFrom, Piece.allClosed_append]

theorem isClosed_iff (t : Text) : t.isClosed ↔ openFrom 0 t = 0 := allClosed_splitFrom_iff 0 [] t

/-! ## Texts without braces -/

def Braceless (t : Text) : Prop := '{' ∉ t ∧ '}' ∉ t

theorem Braceless.append {t u : Text} (ht : t.Braceless) (hu : u.Braceless) :
    (t ++ u).Braceless :=
  ⟨by simp [ht.1, hu.1], by simp [ht.2, hu.2]⟩

theorem Braceless.of_subset {t u : Text} (ht : t.Braceless) (h : u ⊆ t) : u.Braceless :=
  ⟨fun hu => ht.1 (h hu), fun hu => ht.2 (h hu)⟩

theorem Braceless.height_eq {t : Text} (ht : t.Braceless) : height t = 0 := by
  simp [height, List.count_eq_zero.2 ht.1, List.count_eq_zero.2 ht.2]

theorem Braceless.openFrom_eq {t : Text} (ht : t.Braceless) (depth : Nat) :
    openFrom depth t = depth := by
  induction t with
  | nil => rfl
  | cons c cs ih =>
    obtain ⟨hopen, hclose⟩ := ht
    simp only [List.mem_cons, not_or] at hopen hclose
    have hcs := ih ⟨hopen.2, hclose.2⟩
    rw [openFrom, List.foldl_cons, if_neg (Ne.symm hopen.1), if_neg (Ne.symm hclose.1)]
    exact hcs

theorem Braceless.written {inner : Text} (h : inner.Braceless) :
    (placeholderMarks.written inner).Braceless := by
  have hbar : Braceless "|" := ⟨by decide, by decide⟩
  exact (hbar.append h).append hbar

/-- A placeholder that is written in a text is written in it without the blanks at its ends. -/
theorem written_isInfix_trim {inner t : Text} (h : placeholderMarks.written inner <:+: t) :
    placeholderMarks.written inner <:+: t.trim := by
  obtain ⟨front, rest, rfl⟩ := h
  have htext : front ++ placeholderMarks.written inner ++ rest =
      front ++ '|' :: (inner ++ '|' :: rest) := by
    simp [Delimiter.written, placeholderMarks]
  have hblank : Blank.isBlank '|' = false := by decide
  refine ⟨trimLeft front, trimRight rest, ?_⟩
  rw [htext, trim_append_cons _ hblank, trimRight_append_cons _ hblank]
  simp [Delimiter.written, placeholderMarks]

/-! ## Filling in -/

/-- A text and what it is with placeholders of a kind filled in, which are written without braces
and stand for texts without braces. -/
inductive Filled (kind : Text → Prop) : Text → Text → Prop
  | nil : Filled kind [] []
  | char {t u : Text} (c : Char) (h : Filled kind t u) : Filled kind (c :: t) (c :: u)
  | placeholder {inner value t u : Text} (hkind : kind inner) (hinner : inner.Braceless)
    (hvalue : value.Braceless) (h : Filled kind t u) :
    Filled kind (placeholderMarks.written inner ++ t) (value ++ u)

namespace Filled

variable {kind : Text → Prop} {t u : Text}

theorem append_left (p : Text) (h : Filled kind t u) : Filled kind (p ++ t) (p ++ u) := by
  induction p with
  | nil => exact h
  | cons c cs ih => exact .char c ih

theorem append_char (h : Filled kind t u) (c : Char) : Filled kind (t ++ [c]) (u ++ [c]) := by
  induction h with
  | nil => exact .char c .nil
  | char c' _ ih => exact .char c' ih
  | placeholder hkind hinner hvalue _ ih =>
    rw [List.append_assoc, List.append_assoc]
    exact .placeholder hkind hinner hvalue ih

theorem eq_of_not_mem (h : Filled kind t u) (hbar : '|' ∉ t) : u = t := by
  induction h with
  | nil => rfl
  | char c _ ih => rw [ih (fun hmem => hbar (List.mem_cons_of_mem c hmem))]
  | placeholder => exact absurd List.mem_cons_self hbar

/-- A text stays as it is, or a placeholder is written in it. -/
theorem eq_or_exists (h : Filled kind t u) :
    u = t ∨ ∃ inner, kind inner ∧ placeholderMarks.written inner <:+: t := by
  induction h with
  | nil => exact .inl rfl
  | char c _ ih =>
    rcases ih with rfl | ⟨inner, hkind, hwritten⟩
    · exact .inl rfl
    · exact .inr ⟨inner, hkind, hwritten.trans (List.suffix_cons c _).isInfix⟩
  | placeholder hkind _ _ _ _ => exact .inr ⟨_, hkind, (List.prefix_append _ _).isInfix⟩

/-- A text that is filled in can be parted where no placeholder crosses: in front of a text in which
a brace stands before any bar. -/
theorem of_append (h : Filled kind t u) {front rest : Text} (ht : t = front ++ rest)
    (hrest : ∀ r : Text, r <+: rest → r.Braceless → '|' ∉ r) :
    ∃ front' rest', u = front' ++ rest' ∧ Filled kind front front' ∧ Filled kind rest rest' := by
  induction h generalizing front with
  | nil =>
    obtain ⟨rfl, rfl⟩ := List.append_eq_nil_iff.1 ht.symm
    exact ⟨[], [], rfl, .nil, .nil⟩
  | @char t u c h ih =>
    cases front with
    | nil =>
      obtain rfl := ht
      exact ⟨[], c :: u, rfl, .nil, .char c h⟩
    | cons c' front =>
      obtain ⟨rfl, htail⟩ := List.cons.inj ht
      obtain ⟨front', rest', rfl, hfront, hrest'⟩ := ih htail
      exact ⟨c :: front', rest', rfl, .char c hfront, hrest'⟩
  | @placeholder inner value t u hkind hinner hvalue h ih =>
    rcases List.append_eq_append_iff.1 ht with ⟨front, rfl, htail⟩ | ⟨crossing, hwritten, rfl⟩
    · obtain ⟨front', rest', rfl, hfront, hrest'⟩ := ih htail
      exact ⟨value ++ front', rest', (List.append_assoc ..).symm,
        .placeholder hkind hinner hvalue hfront, hrest'⟩
    · rcases List.eq_nil_or_concat crossing with rfl | ⟨crossing, c, rfl⟩
      · have hfront := Filled.placeholder hkind hinner hvalue .nil
        rw [hwritten, List.append_nil, List.append_nil, List.append_nil] at hfront
        exact ⟨value, u, rfl, hfront, h⟩
      · -- The bar at the end of the placeholder would stand before any brace.
        rw [List.concat_eq_append] at hwritten hrest
        have hbar : c = '|' := by
          rw [← List.append_assoc] at hwritten
          exact ((List.cons.inj (List.append_inj' hwritten rfl).2).1).symm
        have hcrossing : Braceless (crossing ++ [c]) :=
          hinner.written.of_subset (hwritten ▸ List.subset_append_right _ _)
        exact absurd (by simp [hbar]) (hrest _ (List.prefix_append _ _) hcrossing)

/-- No placeholder crosses a brace. -/
theorem of_append_cons (h : Filled kind t u) {front rest : Text} {c : Char}
    (ht : t = front ++ c :: rest) (hc : c = '{' ∨ c = '}') :
    ∃ front' rest', u = front' ++ c :: rest' ∧ Filled kind front front' ∧
      Filled kind rest rest' := by
  obtain ⟨front', behind, rfl, hfront, hbehind⟩ := h.of_append ht fun r hr hbraceless => by
    rcases List.prefix_cons_iff.1 hr with rfl | ⟨r, rfl, -⟩
    · exact List.not_mem_nil
    · rcases hc with rfl | rfl
      · exact absurd List.mem_cons_self hbraceless.1
      · exact absurd List.mem_cons_self hbraceless.2
  generalize hcons : c :: rest = behind₀ at hbehind
  cases hbehind with
  | nil => cases hcons
  | char c' hrest =>
    obtain ⟨rfl, rfl⟩ := List.cons.inj hcons
    exact ⟨front', _, rfl, hfront, hrest⟩
  | placeholder =>
    obtain ⟨rfl, -⟩ := List.cons.inj hcons
    rcases hc with hc | hc <;> cases hc

/-- A word without bars at the end of a text stays there. -/
theorem of_append_word (h : Filled kind t u) {front word : Text} (ht : t = front ++ word)
    (hword : '|' ∉ word) : ∃ front', u = front' ++ word ∧ Filled kind front front' := by
  obtain ⟨front', word', rfl, hfront, hword'⟩ :=
    h.of_append ht fun r hr _ hbar => hword (hr.subset hbar)
  exact ⟨front', by rw [hword'.eq_of_not_mem hword], hfront⟩

/-! ## Groups -/

theorem height_eq (h : Filled kind t u) : height u = height t := by
  induction h with
  | nil => rfl
  | @char t u c _ ih => rw [height_cons, ih, ← height_cons]
  | placeholder _ hinner hvalue _ ih =>
    rw [height_append, height_append, hvalue.height_eq, hinner.written.height_eq, ih]

/-- What a text that is filled in begins with is as high as something the text begins with. -/
theorem exists_prefix (h : Filled kind t u) {front' : Text} (hfront' : front' <+: u) :
    ∃ front, front <+: t ∧ height front = height front' := by
  induction h generalizing front' with
  | nil => exact ⟨[], List.prefix_rfl, by rw [List.prefix_nil.1 hfront']⟩
  | @char t u c _ ih =>
    rcases List.prefix_cons_iff.1 hfront' with rfl | ⟨front', rfl, htail⟩
    · exact ⟨[], List.nil_prefix, rfl⟩
    · obtain ⟨front, hfront, hheight⟩ := ih htail
      exact ⟨c :: front, List.cons_prefix_cons.2 ⟨rfl, hfront⟩,
        by rw [height_cons, hheight, ← height_cons]⟩
  | @placeholder inner value t u _ hinner hvalue _ ih =>
    obtain ⟨rest, hrest⟩ := hfront'
    rcases List.append_eq_append_iff.1 hrest with ⟨behind, hvalue', -⟩ | ⟨front', rfl, hu⟩
    · -- The prefix ends within the value, which has no height.
      have hfront' : front'.Braceless :=
        hvalue.of_subset (hvalue' ▸ List.subset_append_left _ _)
      exact ⟨[], List.nil_prefix, hfront'.height_eq.symm⟩
    · obtain ⟨front, hfront, hheight⟩ := ih ⟨rest, hu.symm⟩
      refine ⟨_, (List.prefix_append_right_inj _).2 hfront, ?_⟩
      rw [height_append, height_append, hinner.written.height_eq, hvalue.height_eq, hheight]

/-- A group that is filled in is a group. -/
theorem isGroup {inner inner' : Text} (h : Filled kind inner inner')
    (hgroup : IsGroup (Piece.group inner).written) : IsGroup (Piece.group inner').written := by
  have hwritten : Filled kind (Piece.group inner).written (Piece.group inner').written :=
    .char '{' (h.append_char '}')
  refine ⟨rfl, hwritten.height_eq.trans hgroup.height_eq, fun front' hfront' hne hne' => ?_⟩
  rcases List.prefix_cons_iff.1 hfront' with rfl | ⟨behind', rfl, hbehind'⟩
  · exact absurd rfl hne
  rcases List.prefix_concat_iff.1 hbehind' with rfl | hinner'
  · exact absurd rfl hne'
  obtain ⟨behind, hbehind, hheight⟩ := h.exists_prefix hinner'
  have hprefix : '{' :: behind <+: (Piece.group inner).written :=
    List.cons_prefix_cons.2 ⟨rfl, hbehind.trans (List.prefix_append _ _)⟩
  have hwhole : '{' :: behind ≠ (Piece.group inner).written := by
    intro hwhole
    have hlength := hbehind.length_le
    have hwhole := congrArg List.length hwhole
    simp only [Piece.written, List.length_cons, List.length_append] at hwhole
    omega
  rw [height_cons, ← hheight, ← height_cons]
  exact hgroup.height_pos _ hprefix (List.cons_ne_nil _ _) hwhole

theorem openFrom_eq (h : Filled kind t u) (depth : Nat) : openFrom depth u = openFrom depth t := by
  have happend (depth : Nat) (t u : Text) :
      openFrom depth (t ++ u) = openFrom (openFrom depth t) u := List.foldl_append
  induction h generalizing depth with
  | nil => rfl
  | char c _ ih => exact ih _
  | placeholder _ hinner hvalue _ ih =>
    rw [happend, happend, hvalue.openFrom_eq, hinner.written.openFrom_eq, ih]

theorem isClosed (h : Filled kind t u) (ht : t.isClosed) : u.isClosed := by
  rw [isClosed_iff, h.openFrom_eq]
  exact (isClosed_iff t).1 ht

end Filled

end Text

end StoryScript
