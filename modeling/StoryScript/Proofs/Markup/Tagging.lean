import Mathlib.Data.Bool.AllAny
import StoryScript.Markup.Style
import StoryScript.Proofs.Markup.Escaping
import StoryScript.Proofs.Text.Lines

/-!
# Styled texts as characters and tags

The pass over bold spans runs on a text in which the tags of the italic ones stand already. Seen as
a list of characters and tags, it pairs the stars of each line, the first with the second, the third
with the fourth, and leaves the last one of an odd number of stars. Main statements:
`Item.replaceSpans_bold` and, for the two passes together, `Style.resolve_eq_written`. Without the
tags and the stars nothing is missing (`Style.filter_plainText_itemsOf`).
-/

namespace StoryScript

/-! ## The insides of spans -/

namespace Delimiter

variable {d : Delimiter}

theorem allows_of_innerFrom {t inner : Text} (h : d.innerFrom t = some inner) :
    ∀ c ∈ inner, d.allows c := by
  induction t generalizing inner with
  | nil =>
    unfold innerFrom at h
    split at h <;> cases h
    exact fun _ hc => absurd hc List.not_mem_nil
  | cons c cs ih =>
    unfold innerFrom at h
    split at h
    · cases h
      exact fun _ hc => absurd hc List.not_mem_nil
    · split at h
      · next hc =>
        obtain ⟨i, hi, rfl⟩ := Option.map_eq_some_iff.1 h
        exact List.forall_mem_cons.2 ⟨hc, ih hi⟩
      · cases h

theorem allows_of_mem_cutFrom (hd : d.nonempty = false) {skip : Nat} {t inner : Text}
    (h : Cut.span inner ∈ d.cutFrom skip t) : ∀ c ∈ inner, d.allows c := by
  fun_induction d.cutFrom skip t with
  | case1 => cases h
  | case2 _ _ _ ih => exact ih h
  | case3 c cs inner' hspan ih =>
    rcases List.mem_cons.1 h with heq | h
    · obtain ⟨u, -, hinner⟩ := Option.bind_eq_some_iff.1 hspan
      unfold inner? at hinner
      rw [hd, if_neg Bool.false_ne_true] at hinner
      cases heq
      exact allows_of_innerFrom hinner
    · exact ih h
  | case4 c cs _ ih =>
    refine ih ?_
    unfold Cut.cons at h
    split at h
    · next heq => exact heq ▸ List.mem_cons_of_mem _ ((List.mem_cons.1 h).resolve_left (by simp))
    · exact (List.mem_cons.1 h).resolve_left (by simp)

end Delimiter

namespace Style

/-! ## Characters and tags -/

inductive Kind where
  | italic
  | bold
deriving DecidableEq, Repr

/-- A tag of the element that a span becomes. -/
structure Tag where
  kind : Kind
  closing : Bool
deriving DecidableEq, Repr

/-- A part of a styled text. -/
inductive Item where
  | char (c : Char)
  | tag (tag : Tag)
deriving DecidableEq, Repr

/-- The names of tags without a character that is markup, a line break or the beginning of an
escape. -/
def Inert (name : Kind → Text) : Prop := ∀ kind, ∀ c ∈ name kind, c ≠ '*' ∧ c ≠ '\n' ∧ c ≠ '\\'

namespace Tag

def all : List Tag := [⟨.italic, false⟩, ⟨.italic, true⟩, ⟨.bold, false⟩, ⟨.bold, true⟩]

theorem mem_all (tag : Tag) : tag ∈ all := by
  rcases tag with ⟨_ | _, _ | _⟩ <;> decide

/-- What stands between the angle brackets of a tag. -/
def label (name : Kind → Text) (tag : Tag) : Text :=
  if tag.closing then '/' :: name tag.kind else name tag.kind

def written (name : Kind → Text) (tag : Tag) : Text := '<' :: tag.label name ++ ['>']

variable {name : Kind → Text}

theorem mem_label {tag : Tag} {c : Char} (h : c ∈ tag.label name) :
    c = '/' ∨ c ∈ name tag.kind := by
  unfold label at h
  split at h
  · exact List.mem_cons.1 h
  · exact .inr h

theorem not_mem_written {tag : Tag} {c : Char} (hname : c ∉ name tag.kind)
    (hc : c ∉ "</>".toList) : c ∉ tag.written name := by
  intro h
  rcases List.mem_append.1 h with h | h
  · rcases List.mem_cons.1 h with rfl | h
    · exact hc (by decide)
    · rcases mem_label h with rfl | h
      · exact hc (by decide)
      · exact hname h
  · exact hc (List.mem_singleton.1 h ▸ by decide)

end Tag

namespace Inert

variable {name : Kind → Text} (h : Inert name)

include h

theorem star_not_mem (t : Tag) : '*' ∉ t.written name :=
  Tag.not_mem_written (fun hc => (h _ _ hc).1 rfl) (by decide)

theorem newLine_not_mem (t : Tag) : '\n' ∉ t.written name :=
  Tag.not_mem_written (fun hc => (h _ _ hc).2.1 rfl) (by decide)

theorem backslash_not_mem (kind : Kind) : '\\' ∉ name kind := fun hc => (h _ _ hc).2.2 rfl

end Inert

namespace Item

def written (name : Kind → Text) (items : List Item) : Text :=
  items.flatMap fun
    | char c => [c]
    | tag t => t.written name

def ofText (t : Text) : List Item := t.map char

/-- A text with its italic spans made elements. -/
def ofItalics (cuts : List Cut) : List Item :=
  cuts.flatMap fun
    | .plain t => ofText t
    | .span inner => tag ⟨.italic, false⟩ :: ofText inner ++ [tag ⟨.italic, true⟩]

/-- What is left of a styled text without its tags. -/
def plainText (items : List Item) : Text :=
  items.flatMap fun
    | char c => [c]
    | tag _ => []

/-- Whether a star comes before the next line break. -/
def starAhead : List Item → Bool
  | [] => false
  | tag _ :: items => starAhead items
  | char c :: items => c == '*' || (c != '\n' && starAhead items)

/-- Makes tags of the stars that have a partner on their line; `odd` tells whether an odd number of
stars was read since the line began. -/
def pairFrom : (odd : Bool) → List Item → List Item
  | _, [] => []
  | odd, tag t :: items => tag t :: pairFrom odd items
  | odd, char c :: items =>
    if c = '*' then
      (if odd then tag ⟨.bold, true⟩
        else if starAhead items then tag ⟨.bold, false⟩
        else char '*') :: pairFrom (!odd) items
    else char c :: pairFrom (odd && c != '\n') items

variable {name : Kind → Text}

@[simp] theorem written_nil : written name [] = [] := rfl

@[simp] theorem written_char (c : Char) (items : List Item) :
    written name (char c :: items) = c :: written name items := rfl

@[simp] theorem written_tag (t : Tag) (items : List Item) :
    written name (tag t :: items) = t.written name ++ written name items := rfl

@[simp] theorem written_append (items items' : List Item) :
    written name (items ++ items') = written name items ++ written name items' :=
  List.flatMap_append

@[simp] theorem written_ofText (t : Text) : written name (ofText t) = t := by
  induction t with
  | nil => rfl
  | cons c t ih => exact congrArg (c :: ·) ih

@[simp] theorem plainText_ofText (t : Text) : plainText (ofText t) = t := by
  induction t with
  | nil => rfl
  | cons c t ih => exact congrArg (c :: ·) ih

theorem written_enclosed (kind : Kind) (items : List Item) :
    written name (tag ⟨kind, false⟩ :: items ++ [tag ⟨kind, true⟩]) =
      element (name kind) (written name items) := by
  simp [Tag.written, Tag.label, element]

theorem written_ofItalics (cuts : List Cut) :
    written name (ofItalics cuts) = Delimiter.replaceSpans (element (name .italic)) cuts := by
  induction cuts with
  | nil => rfl
  | cons cut cuts ih =>
    rw [ofItalics, List.flatMap_cons, written_append, ← ofItalics, ih]
    cases cut with
    | plain t =>
      rw [written_ofText]
      rfl
    | span inner =>
      rw [written_enclosed, written_ofText]
      rfl

@[simp] theorem starAhead_tag (t : Tag) (items : List Item) :
    starAhead (tag t :: items) = starAhead items := rfl

@[simp] theorem starAhead_star (items : List Item) : starAhead (char '*' :: items) = true := rfl

@[simp] theorem starAhead_newLine (items : List Item) :
    starAhead (char '\n' :: items) = false := rfl

theorem starAhead_char {c : Char} (hstar : c ≠ '*') (hline : c ≠ '\n') (items : List Item) :
    starAhead (char c :: items) = starAhead items := by
  rw [starAhead, beq_false_of_ne hstar, bne_iff_ne.2 hline, Bool.false_or, Bool.true_and]

@[simp] theorem pairFrom_tag (odd : Bool) (t : Tag) (items : List Item) :
    pairFrom odd (tag t :: items) = tag t :: pairFrom odd items := rfl

theorem pairFrom_char (odd : Bool) {c : Char} (hc : c ≠ '*') (items : List Item) :
    pairFrom odd (char c :: items) = char c :: pairFrom (odd && c != '\n') items := by
  rw [pairFrom, if_neg hc]

@[simp] theorem pairFrom_newLine (odd : Bool) (items : List Item) :
    pairFrom odd (char '\n' :: items) = char '\n' :: pairFrom false items := by
  rw [pairFrom_char odd (by decide), bne_self_eq_false, Bool.and_false]

@[simp] theorem pairFrom_true_star (items : List Item) :
    pairFrom true (char '*' :: items) = tag ⟨.bold, true⟩ :: pairFrom false items := rfl

theorem pairFrom_false_star (items : List Item) :
    pairFrom false (char '*' :: items) =
      (if starAhead items then tag ⟨.bold, false⟩ else char '*') :: pairFrom true items := rfl

/-- Neither a star nor a line break. -/
def IsOther (item : Item) : Prop := item ≠ char '*' ∧ item ≠ char '\n'

theorem pairFrom_append_of_isOther {front : List Item} (h : ∀ item ∈ front, IsOther item)
    (odd : Bool) (items : List Item) :
    pairFrom odd (front ++ items) = front ++ pairFrom odd items := by
  induction front with
  | nil => rfl
  | cons item front ih =>
    obtain ⟨⟨hstar, hline⟩, hfront⟩ := List.forall_mem_cons.1 h
    cases item with
    | tag t => rw [List.cons_append, pairFrom_tag, ih hfront, List.cons_append]
    | char c =>
      have hc : c ≠ '*' := fun h => hstar (congrArg char h)
      have hline : (c != '\n') = true := by simpa using fun h => hline (congrArg char h)
      rw [List.cons_append, pairFrom_char odd hc, hline, Bool.and_true, ih hfront, List.cons_append]

theorem exists_of_starAhead {items : List Item} (h : starAhead items) :
    ∃ front back, items = front ++ char '*' :: back ∧ ∀ item ∈ front, IsOther item := by
  induction items with
  | nil => cases h
  | cons item items ih =>
    cases item with
    | tag t =>
      obtain ⟨front, back, rfl, hfront⟩ := ih h
      exact ⟨tag t :: front, back, rfl, List.forall_mem_cons.2 ⟨⟨nofun, nofun⟩, hfront⟩⟩
    | char c =>
      by_cases hstar : c = '*'
      · exact ⟨[], items, by rw [hstar]; rfl, by simp⟩
      · have hline : c ≠ '\n' := by
          rintro rfl
          cases h
        rw [starAhead_char hstar hline] at h
        obtain ⟨front, back, rfl, hfront⟩ := ih h
        exact ⟨char c :: front, back, rfl,
          List.forall_mem_cons.2 ⟨⟨by simpa using hstar, by simpa using hline⟩, hfront⟩⟩

theorem starAhead_append_of_isOther {front : List Item} (h : ∀ item ∈ front, IsOther item)
    (items : List Item) : starAhead (front ++ items) = starAhead items := by
  induction front with
  | nil => rfl
  | cons item front ih =>
    obtain ⟨⟨hstar, hline⟩, hfront⟩ := List.forall_mem_cons.1 h
    cases item with
    | tag t => exact ih hfront
    | char c =>
      rw [List.cons_append, starAhead_char (fun h => hstar (congrArg char h))
        fun h => hline (congrArg char h), ih hfront]

/-- Where no star is ahead, it does not matter how many were read. -/
theorem pairFrom_of_not_starAhead {items : List Item} (h : starAhead items = false) (odd : Bool) :
    pairFrom odd items = pairFrom false items := by
  induction items with
  | nil => rfl
  | cons item items ih =>
    cases item with
    | tag t => rw [pairFrom_tag, pairFrom_tag, ih h]
    | char c =>
      by_cases hstar : c = '*'
      · rw [hstar] at h
        cases h
      · by_cases hline : c = '\n'
        · rw [hline, pairFrom_newLine, pairFrom_newLine]
        · rw [starAhead_char hstar hline] at h
          have hline : (c != '\n') = true := by simpa using hline
          rw [pairFrom_char odd hstar, pairFrom_char false hstar, hline, Bool.and_true, ih h,
            Bool.and_true]

theorem starAhead_iff (h : Inert name) (items : List Item) :
    starAhead items ↔ '*' ∈ (written name items).takeWhile (· ≠ '\n') := by
  induction items with
  | nil => simp [starAhead]
  | cons item items ih =>
    cases item with
    | tag t =>
      have hline : ∀ c ∈ t.written name, decide (c ≠ '\n') = true := fun c hc =>
        decide_eq_true (ne_of_mem_of_not_mem hc (h.newLine_not_mem t))
      rw [starAhead_tag, ih, written_tag, List.takeWhile_append_of_pos hline, List.mem_append]
      exact ⟨.inr, fun hmem => hmem.resolve_left (h.star_not_mem t)⟩
    | char c =>
      by_cases hstar : c = '*'
      · simp [hstar]
      · by_cases hline : c = '\n'
        · simp [hline]
        · rw [starAhead_char hstar hline, ih, written_char,
            List.takeWhile_cons_of_pos (by simpa using hline), List.mem_cons]
          exact ⟨.inr, fun hmem => hmem.resolve_left (Ne.symm hstar)⟩

/-! ## The bold pass -/

theorem not_mem_written_of_isOther (h : Inert name) {items : List Item}
    (hitems : ∀ item ∈ items, IsOther item) :
    ∀ c ∈ written name items, c ≠ '*' ∧ c ≠ '\n' := by
  intro c hc
  obtain ⟨item, hitem, hc⟩ := List.mem_flatMap.1 hc
  obtain ⟨hstar, hline⟩ := hitems item hitem
  cases item with
  | char d =>
    obtain rfl := List.mem_singleton.1 hc
    exact ⟨fun h => hstar (congrArg char h), fun h => hline (congrArg char h)⟩
  | tag t =>
    exact ⟨ne_of_mem_of_not_mem hc (h.star_not_mem t),
      ne_of_mem_of_not_mem hc (h.newLine_not_mem t)⟩

theorem innerFrom_bold_eq_none (h : Inert name) {items : List Item}
    (hahead : starAhead items = false) : bold.innerFrom (written name items) = none := by
  refine Option.eq_none_iff_forall_ne_some.2 fun inner hinner => ?_
  obtain ⟨rest, hrest⟩ := Delimiter.eq_append_of_innerFrom hinner
  have hinside : ∀ c ∈ inner, decide (c ≠ '\n') = true := fun c hc => by
    simpa [bold, isInline] using Delimiter.allows_of_innerFrom hinner c hc
  have hstar : starAhead items := by
    rw [starAhead_iff h, hrest, List.append_assoc, List.takeWhile_append_of_pos hinside]
    simp [bold]
  exact absurd (hahead.symm.trans hstar) nofun

/-- Two stars that are next to each other on a line enclose a bold span. -/
theorem cut_star_append (h : Inert name) {front : List Item} (hfront : ∀ item ∈ front, IsOther item)
    (back : List Item) :
    bold.cut (written name (char '*' :: (front ++ char '*' :: back))) =
      .span (written name front) :: bold.cut (written name back) := by
  have hinside := not_mem_written_of_isOther h hfront
  have hspan : written name (char '*' :: (front ++ char '*' :: back)) =
      bold.written (written name front) ++ written name back := by
    simp [Delimiter.written, bold]
  rw [hspan]
  exact Delimiter.cut_written_append (by decide) (m := '*') rfl (by decide)
    (fun c hc => by simpa [bold, isInline] using (hinside c hc).2) (absurd · (by decide))
    (fun hstar => (hinside '*' (hstar.subset (List.mem_singleton_self _))).1 rfl) _

theorem pairFrom_star_append {front : List Item} (hfront : ∀ item ∈ front, IsOther item)
    (back : List Item) :
    pairFrom false (char '*' :: (front ++ char '*' :: back)) =
      (tag ⟨.bold, false⟩ :: front ++ [tag ⟨.bold, true⟩]) ++ pairFrom false back := by
  rw [pairFrom_false_star, starAhead_append_of_isOther hfront, starAhead_star,
    pairFrom_append_of_isOther hfront, pairFrom_true_star]
  simp

/-- The bold pass pairs the stars of each line. -/
theorem replaceSpans_bold (h : Inert name) (items : List Item) :
    Delimiter.replaceSpans (element (name .bold)) (bold.cut (written name items)) =
      written name (pairFrom false items) := by
  induction hlength : items.length using Nat.strong_induction_on generalizing items with
  | _ n ih =>
  cases items with
  | nil => rfl
  | cons item items =>
    have hnext := ih items.length (by rw [← hlength]; exact Nat.lt_succ_self _) items rfl
    by_cases hitem : item = char '*'
    · subst hitem
      cases hahead : starAhead items with
      | false =>
        have hspan : bold.spanAt? ('*' :: written name items) = none :=
          innerFrom_bold_eq_none h hahead
        rw [written_char, Delimiter.cut, Delimiter.cutFrom, hspan]
        simp only [Delimiter.replaceSpans_cons]
        rw [← Delimiter.cut, hnext, pairFrom_false_star, hahead,
          pairFrom_of_not_starAhead hahead true]
        rfl
      | true =>
        obtain ⟨front, back, rfl, hfront⟩ := exists_of_starAhead hahead
        have hback : back.length < n := by
          rw [← hlength]
          simp only [List.length_cons, List.length_append]
          omega
        rw [cut_star_append h hfront, Delimiter.replaceSpans, List.flatMap_cons,
          ← Delimiter.replaceSpans, ih back.length hback back rfl, pairFrom_star_append hfront,
          written_append, written_enclosed]
    · -- Neither a tag nor another character begins a span.
      have hstar : '*' ∉ written name [item] := by
        cases item with
        | char c => simpa using fun h : '*' = c => hitem (h ▸ rfl)
        | tag t =>
          rw [written_tag, written_nil, List.append_nil]
          exact h.star_not_mem t
      have hnot : pairFrom false (item :: items) = item :: pairFrom false items := by
        cases item with
        | char c => rw [pairFrom_char false fun hc => hitem (congrArg char hc), Bool.false_and]
        | tag t => rfl
      rw [hnot, ← List.singleton_append, written_append,
        Delimiter.replaceSpans_cut_append _ (m := '*') rfl hstar, hnext,
        ← List.singleton_append (l := pairFrom false items), written_append]

/-! ## Without tags -/

theorem plainText_ofItalics (cuts : List Cut) :
    plainText (ofItalics cuts) = Delimiter.replaceSpans id cuts := by
  induction cuts with
  | nil => rfl
  | cons cut cuts ih =>
    rw [ofItalics, List.flatMap_cons, plainText, List.flatMap_append, ← plainText, ← plainText,
      ← ofItalics, ih]
    cases cut with
    | plain t =>
      rw [plainText_ofText]
      rfl
    | span inner =>
      rw [plainText, List.flatMap_append, List.flatMap_cons, ← plainText, plainText_ofText]
      exact congrArg (· ++ Delimiter.replaceSpans id cuts) (List.append_nil inner)

theorem filter_plainText_pairFrom (odd : Bool) (items : List Item) :
    (plainText (pairFrom odd items)).filter (· ≠ '*') = (plainText items).filter (· ≠ '*') := by
  induction items generalizing odd with
  | nil => rfl
  | cons item items ih =>
    cases item with
    | tag t => exact ih odd
    | char c =>
      have hnext (odd' : Bool) : (c :: plainText (pairFrom odd' items)).filter (· ≠ '*') =
          (c :: plainText items).filter (· ≠ '*') := by
        rw [List.filter_cons, List.filter_cons, ih odd']
      by_cases hstar : c = '*'
      · subst hstar
        cases odd with
        | true => exact ih false
        | false =>
          rw [pairFrom_false_star]
          cases starAhead items with
          | true => exact ih true
          | false => exact hnext true
      · rw [pairFrom_char odd hstar]
        exact hnext _

theorem filter_plainText_ofItalics (t : Text) :
    (plainText (ofItalics (italic.cut t))).filter (· ≠ '*') = t.filter (· ≠ '*') := by
  conv_rhs => rw [← italic.written_cut (by decide) t]
  rw [plainText_ofItalics]
  generalize italic.cut t = cuts
  induction cuts with
  | nil => rfl
  | cons cut cuts ih =>
    rw [Delimiter.replaceSpans, List.flatMap_cons, List.flatMap_cons, ← Delimiter.replaceSpans,
      List.filter_append, List.filter_append, ih]
    cases cut with
    | plain u => rfl
    | span inner => simp [Delimiter.writtenCut, Delimiter.written, italic]

theorem mem_plainText {items : List Item} {c : Char} (h : char c ∈ items) : c ∈ plainText items :=
  List.mem_flatMap.2 ⟨char c, h, List.mem_singleton_self c⟩

end Item

/-! ## The styled text -/

variable {name : Kind → Text}

/-- What stands for a text with its spans made elements. -/
def itemsOf (t : Text) : List Item := Item.pairFrom false (Item.ofItalics (italic.cut t))

/-- Styling adds tags and takes stars away. -/
theorem filter_plainText_itemsOf (t : Text) :
    (Item.plainText (itemsOf t)).filter (· ≠ '*') = t.filter (· ≠ '*') := by
  rw [itemsOf, Item.filter_plainText_pairFrom, Item.filter_plainText_ofItalics]

theorem char_not_mem_itemsOf {t : Text} {c : Char} (hc : c ≠ '*') (h : c ∉ t) :
    Item.char c ∉ itemsOf t := by
  intro hmem
  have hleft : c ∈ (Item.plainText (itemsOf t)).filter (· ≠ '*') :=
    List.mem_filter.2 ⟨Item.mem_plainText hmem, decide_eq_true hc⟩
  rw [filter_plainText_itemsOf] at hleft
  exact h (List.mem_of_mem_filter hleft)

theorem resolve_eq_written (h : Inert name) (t : Text) :
    resolve (name .italic) (name .bold) t = .ok (Item.written name (itemsOf t)) := by
  rw [resolve_of_plain (h.backslash_not_mem _) (h.backslash_not_mem _), ← Item.written_ofItalics,
    Item.replaceSpans_bold h]
  rfl

end Style

end StoryScript
