import Mathlib.Algebra.Group.Nat.Even
import Mathlib.Data.List.DropRight
import StoryScript.Proofs.Markup.Tagging

/-!
# Elements that cross

Neither italic spans nor bold ones overlap among themselves, but a bold span may begin in an italic
one and end outside, or the other way round, because the stars of a line are paired without regard
to what stands between them. Main statement: the tags of a styled text nest exactly where no bold
span crosses an italic one (`Style.resolve_nested_iff`).
-/

namespace StoryScript

namespace Style

/-! ## Tags in a text -/

/-- The tags of a text from left to right; `skip` counts the characters of a tag that are still to
be passed over. -/
def tagsFrom (name : Kind → Text) : (skip : Nat) → Text → List Tag
  | _, [] => []
  | skip + 1, _ :: cs => tagsFrom name skip cs
  | 0, c :: cs =>
    match Tag.all.find? fun t => (Text.after? (t.written name) (c :: cs)).isSome with
    | some t => t :: tagsFrom name ((t.written name).length - 1) cs
    | none => tagsFrom name 0 cs

def shortNames : Kind → Text
  | .italic => "i"
  | .bold => "b"

/-- Whether each closing tag closes the element that was opened last of those still open, and none
is left open. -/
def nests : (opened : List Kind) → List Tag → Bool
  | opened, [] => opened.isEmpty
  | opened, ⟨kind, false⟩ :: tags => nests (kind :: opened) tags
  | [], ⟨_, true⟩ :: _ => false
  | last :: opened, ⟨kind, true⟩ :: tags => last == kind && nests opened tags

def IsNested (t : Text) : Prop := nests [] (tagsFrom shortNames 0 t)

instance (t : Text) : Decidable (IsNested t) := inferInstanceAs (Decidable (_ = true))

namespace Item

def tags (items : List Item) : List Tag :=
  items.filterMap fun
    | char _ => none
    | tag t => some t

@[simp] theorem tags_char (c : Char) (items : List Item) :
    tags (char c :: items) = tags items := rfl

@[simp] theorem tags_tag (t : Tag) (items : List Item) : tags (tag t :: items) = t :: tags items :=
  rfl

theorem tags_ofText_append (t : Text) (items : List Item) :
    tags (ofText t ++ items) = tags items := by
  induction t with
  | nil => rfl
  | cons c t ih => exact ih

theorem tagsFrom_length (name : Kind → Text) (t u : Text) :
    tagsFrom name t.length (t ++ u) = tagsFrom name 0 u := by
  induction t with
  | nil => rfl
  | cons c t ih => exact ih

/-- No tag begins another one. -/
theorem find?_tag (t : Tag) (rest : Text) :
    (Tag.all.find? fun t' =>
      (Text.after? (t'.written shortNames) (t.written shortNames ++ rest)).isSome) = some t := by
  rcases t with ⟨_ | _, _ | _⟩ <;> rfl

/-- The tags that were written are read again. -/
theorem tagsFrom_written {items : List Item} (h : char '<' ∉ items) :
    tagsFrom shortNames 0 (written shortNames items) = tags items := by
  induction items with
  | nil => rfl
  | cons item items ih =>
    obtain ⟨hitem, hrest⟩ := not_or.1 (mt List.mem_cons.2 h)
    cases item with
    | char c =>
      have hc : '<' ≠ c := fun h => hitem (h ▸ rfl)
      have hnone : (Tag.all.find? fun t =>
          (Text.after? (t.written shortNames) (c :: written shortNames items)).isSome) = none := by
        refine List.find?_eq_none.2 fun t _ => ?_
        rw [Tag.written, List.cons_append, Text.after?, if_neg hc]
        exact Bool.false_ne_true
      rw [written_char, tagsFrom, hnone, tags_char]
      exact ih hrest
    | tag t =>
      have hfind := find?_tag t (written shortNames items)
      rw [written_tag, tags_tag, ← ih hrest]
      rw [Tag.written, List.cons_append, List.cons_append] at hfind ⊢
      rw [tagsFrom, hfind]
      simp only [Tag.written, List.cons_append, List.length_cons, Nat.add_sub_cancel]
      rw [tagsFrom_length]

end Item

/-! ## What is open -/

/-- Whether an odd number of stars was read since the line began, behind a text in front of which
that was known. -/
def oddAfter (odd : Bool) (t : Text) : Bool :=
  t.foldl (fun odd c => if c = '*' then !odd else odd && c != '\n') odd

theorem oddAfter_append (odd : Bool) (t u : Text) :
    oddAfter odd (t ++ u) = oddAfter (oddAfter odd t) u := List.foldl_append

theorem oddAfter_char (odd : Bool) {c : Char} (hc : c ≠ '*') (t : Text) :
    oddAfter odd (c :: t) = oddAfter (odd && c != '\n') t := by
  rw [oddAfter, List.foldl_cons, if_neg hc, ← oddAfter]

theorem oddAfter_of_not_mem {t : Text} (hstar : '*' ∉ t) (hline : '\n' ∉ t) (odd : Bool) :
    oddAfter odd t = odd := by
  induction t with
  | nil => rfl
  | cons c t ih =>
    obtain ⟨hc, hstar⟩ := not_or.1 (mt List.mem_cons.2 hstar)
    obtain ⟨hc', hline⟩ := not_or.1 (mt List.mem_cons.2 hline)
    rw [oddAfter_char odd (Ne.symm hc), bne_iff_ne.2 (Ne.symm hc'), Bool.and_true,
      ih hstar hline]

/-- How many stars were read since the line began. -/
def starsOnLine (t : Text) : Nat := (t.rtakeWhile (· ≠ '\n')).count '*'

theorem oddAfter_eq_false_iff (t : Text) : oddAfter false t = false ↔ Even (starsOnLine t) := by
  induction t using List.reverseRecOn with
  | nil => exact iff_of_true rfl Even.zero
  | append_singleton t c ih =>
    rw [oddAfter_append, starsOnLine, List.rtakeWhile_concat]
    by_cases hstar : c = '*'
    · subst hstar
      rw [if_pos (by decide), List.count_append, ← starsOnLine, List.count_singleton_self,
        Nat.even_add_one, ← ih]
      cases oddAfter false t <;> simp [oddAfter]
    · rw [oddAfter_char _ hstar]
      by_cases hline : c = '\n'
      · subst hline
        simp [oddAfter]
      · have hcount : [c].count '*' = 0 := List.count_eq_zero.2 (by simpa using Ne.symm hstar)
        rw [if_pos (by simpa using hline), List.count_append, hcount, Nat.add_zero, ← starsOnLine,
          ← ih, bne_iff_ne.2 hline, Bool.and_true]
        rfl

/-- Whether no bold span crosses an italic one: a star in an italic span neither has its partner in
front of the span nor behind it. -/
def uncrossed : (odd : Bool) → List Cut → Bool
  | _, [] => true
  | odd, .plain t :: cuts => uncrossed (oddAfter odd t) cuts
  | odd, .span inner :: cuts =>
    (!inner.contains '*' ||
      (!odd && !(oddAfter false inner && Item.starAhead (Item.ofItalics cuts)))) &&
      uncrossed (oddAfter odd inner) cuts

namespace Item

/-- The bold element that is open in front of some items, if one is. -/
def boldOpen (odd : Bool) (items : List Item) : List Kind :=
  if odd && starAhead items then [.bold] else []

@[simp] theorem boldOpen_false (items : List Item) : boldOpen false items = [] := rfl

@[simp] theorem boldOpen_tag (odd : Bool) (t : Tag) (items : List Item) :
    boldOpen odd (tag t :: items) = boldOpen odd items := rfl

/-- Characters open and close bold elements on top of what is open. -/
theorem nests_ofText_append (opened : List Kind) (odd : Bool) (t : Text) (items : List Item) :
    nests (boldOpen odd (ofText t ++ items) ++ opened) (tags (pairFrom odd (ofText t ++ items))) =
      nests (boldOpen (oddAfter odd t) items ++ opened)
        (tags (pairFrom (oddAfter odd t) items)) := by
  induction t generalizing odd with
  | nil => rfl
  | cons c t ih =>
    have hitems : ofText (c :: t) ++ items = char c :: (ofText t ++ items) := rfl
    rw [hitems]
    by_cases hstar : c = '*'
    · subst hstar
      cases odd with
      | true => exact ih false
      | false =>
        have hnext := ih true
        rw [pairFrom_false_star]
        cases hahead : starAhead (ofText t ++ items) with
        | true =>
          rw [boldOpen, hahead] at hnext
          exact hnext
        | false =>
          rw [boldOpen, hahead] at hnext
          exact hnext
    · have hopen : boldOpen odd (char c :: (ofText t ++ items)) =
          boldOpen (odd && c != '\n') (ofText t ++ items) := by
        by_cases hline : c = '\n'
        · simp [hline, boldOpen]
        · rw [boldOpen, starAhead_char hstar hline, bne_iff_ne.2 hline, Bool.and_true, ← boldOpen]
      rw [hopen, pairFrom_char odd hstar, tags_char, oddAfter_char odd hstar]
      exact ih _

/-- A bold element that is open in front of an italic one cannot be closed in it. -/
theorem nests_crossed {inner : Text} (hline : '\n' ∉ inner) (hstar : '*' ∈ inner)
    (opened : List Kind) (items : List Item) :
    nests (.italic :: opened) (tags (pairFrom true (ofText inner ++ items))) = false := by
  induction inner with
  | nil => cases hstar
  | cons c cs ih =>
    have hitems : ofText (c :: cs) ++ items = char c :: (ofText cs ++ items) := rfl
    obtain ⟨hc, hcs⟩ := not_or.1 (mt List.mem_cons.2 hline)
    rw [hitems]
    by_cases hmark : c = '*'
    · subst hmark
      rfl
    · have hodd : (true && c != '\n') = true := by simpa using Ne.symm hc
      rw [pairFrom_char true hmark, hodd, tags_char]
      exact ih hcs ((List.mem_cons.1 hstar).resolve_left (Ne.symm hmark))

theorem isOther_of_mem_ofText {t : Text} (hstar : '*' ∉ t) (hline : '\n' ∉ t) :
    ∀ item ∈ ofText t, IsOther item := by
  intro item h
  obtain ⟨c, hc, rfl⟩ := List.mem_map.1 h
  exact ⟨fun h => hstar (char.inj h ▸ hc), fun h => hline (char.inj h ▸ hc)⟩

/-- A star in an italic element neither has its partner in front of the element nor behind it, if
the tags nest. -/
theorem nests_italic_of_mem {inner : Text} (hline : '\n' ∉ inner) (hstar : '*' ∈ inner)
    (odd : Bool) (items : List Item) :
    nests (.italic :: boldOpen odd (ofText inner ++ tag ⟨.italic, true⟩ :: items))
        (tags (pairFrom odd (ofText inner ++ tag ⟨.italic, true⟩ :: items))) =
      ((!odd && !(oddAfter false inner && starAhead items)) &&
        nests (boldOpen (oddAfter odd inner) items) (tags (pairFrom (oddAfter odd inner) items))) := by
  cases odd with
  | true => exact nests_crossed hline hstar _ _
  | false =>
    have hchars := nests_ofText_append [.italic] false inner (tag ⟨.italic, true⟩ :: items)
    rw [boldOpen_false, List.nil_append, boldOpen_tag, pairFrom_tag, tags_tag] at hchars
    rw [boldOpen_false, hchars]
    cases hopen : oddAfter false inner && starAhead items with
    | true =>
      rw [boldOpen, hopen]
      rfl
    | false =>
      rw [boldOpen, hopen]
      rfl

theorem nests_italic_of_not_mem {inner : Text} (hline : '\n' ∉ inner) (hstar : '*' ∉ inner)
    (odd : Bool) (items : List Item) :
    nests (.italic :: boldOpen odd (ofText inner ++ tag ⟨.italic, true⟩ :: items))
        (tags (pairFrom odd (ofText inner ++ tag ⟨.italic, true⟩ :: items))) =
      nests (boldOpen odd items) (tags (pairFrom odd items)) := by
  have hother := isOther_of_mem_ofText hstar hline
  rw [pairFrom_append_of_isOther hother, tags_ofText_append, pairFrom_tag, tags_tag, boldOpen,
    starAhead_append_of_isOther hother, starAhead_tag, ← boldOpen, nests]
  rfl

/-- The tags nest exactly where no bold span crosses an italic one. -/
theorem nests_ofItalics {cuts : List Cut} (h : ∀ inner, Cut.span inner ∈ cuts → '\n' ∉ inner)
    (odd : Bool) :
    nests (boldOpen odd (ofItalics cuts)) (tags (pairFrom odd (ofItalics cuts))) =
      uncrossed odd cuts := by
  induction cuts generalizing odd with
  | nil => cases odd <;> rfl
  | cons cut cuts ih =>
    have hrest := ih fun inner hinner => h inner (List.mem_cons_of_mem _ hinner)
    cases cut with
    | plain t =>
      have hchars := nests_ofText_append [] odd t (ofItalics cuts)
      rw [List.append_nil, List.append_nil, hrest] at hchars
      exact hchars
    | span inner =>
      have hline : '\n' ∉ inner := h inner List.mem_cons_self
      have hitems : ofItalics (.span inner :: cuts) =
          tag ⟨.italic, false⟩ :: (ofText inner ++ tag ⟨.italic, true⟩ :: ofItalics cuts) := by
        simp [ofItalics]
      rw [hitems, boldOpen_tag, pairFrom_tag, tags_tag, nests, uncrossed]
      by_cases hstar : '*' ∈ inner
      · rw [nests_italic_of_mem hline hstar, hrest, List.contains_iff_mem.2 hstar]
        rfl
      · have hnone : inner.contains '*' = false := by simpa using hstar
        rw [nests_italic_of_not_mem hline hstar, hrest, hnone, oddAfter_of_not_mem hstar hline odd]
        rfl

theorem starAhead_ofText_plainText (items : List Item) :
    starAhead (ofText (plainText items)) = starAhead items := by
  induction items with
  | nil => rfl
  | cons item items ih =>
    cases item with
    | char c => exact congrArg (c == '*' || c != '\n' && ·) ih
    | tag t => exact ih

end Item

/-! ## Spans that cross -/

theorem inert_shortNames : Inert shortNames := by
  rintro (_ | _) <;> exact List.all_iff_forall_prop.1 (by decide)

theorem starAhead_ofItalics_iff (cuts : List Cut) :
    Item.starAhead (Item.ofItalics cuts) ↔
      '*' ∈ (Delimiter.replaceSpans id cuts).takeWhile (· ≠ '\n') := by
  have h := Item.starAhead_iff inert_shortNames (Item.ofText (Delimiter.replaceSpans id cuts))
  rw [Item.written_ofText] at h
  rw [← h, ← Item.plainText_ofItalics, Item.starAhead_ofText_plainText]

theorem replaceSpans_cons_id (cut : Cut) (cuts : List Cut) :
    Delimiter.replaceSpans id (cut :: cuts) =
      Delimiter.replaceSpans id [cut] ++ Delimiter.replaceSpans id cuts := by
  simp [Delimiter.replaceSpans]

theorem uncrossed_cons (odd : Bool) (cut : Cut) (cuts : List Cut) :
    uncrossed odd (cut :: cuts) ↔
      (∀ inner, cut = .span inner → '*' ∈ inner →
        odd = false ∧ (oddAfter false inner && Item.starAhead (Item.ofItalics cuts)) = false) ∧
      uncrossed (oddAfter odd (Delimiter.replaceSpans id [cut])) cuts := by
  cases cut with
  | plain t => simp [uncrossed, Delimiter.replaceSpans]
  | span inner =>
    have hcut : Delimiter.replaceSpans id [.span inner] = inner := List.append_nil inner
    rw [hcut, uncrossed, Bool.and_eq_true]
    refine and_congr_left fun _ => ?_
    simp only [Cut.span.injEq, forall_eq']
    generalize (oddAfter false inner && Item.starAhead (Item.ofItalics cuts)) = left
    by_cases hstar : '*' ∈ inner
    · cases odd <;> cases left <;> simp [hstar]
    · simp [hstar]

/-- Each italic span is looked at with what stands in front of it and behind it. -/
theorem uncrossed_iff (odd : Bool) (cuts : List Cut) :
    uncrossed odd cuts ↔ ∀ before inner after, cuts = before ++ .span inner :: after → '*' ∈ inner →
      oddAfter odd (Delimiter.replaceSpans id before) = false ∧
        (oddAfter false inner && Item.starAhead (Item.ofItalics after)) = false := by
  induction cuts generalizing odd with
  | nil => simp [uncrossed]
  | cons cut cuts ih =>
    rw [uncrossed_cons, ih]
    constructor
    · rintro ⟨hfirst, hrest⟩ before inner after hcuts
      cases before with
      | nil =>
        obtain ⟨rfl, rfl⟩ := List.cons.inj hcuts
        exact hfirst inner rfl
      | cons cut' before =>
        obtain ⟨rfl, htail⟩ := List.cons.inj hcuts
        rw [replaceSpans_cons_id, oddAfter_append]
        exact hrest before inner after htail
    · refine fun h => ⟨fun inner hcut => h [] inner cuts (by rw [hcut]; rfl), ?_⟩
      intro before inner after hcuts
      have hnext := h (cut :: before) inner after (congrArg (cut :: ·) hcuts)
      rwa [replaceSpans_cons_id, oddAfter_append] at hnext

/-- Whether spans cross is a matter of the numbers of stars around the italic ones. -/
theorem uncrossed_iff_even {cuts : List Cut} (h : ∀ inner, Cut.span inner ∈ cuts → '\n' ∉ inner) :
    uncrossed false cuts ↔ ∀ before inner after,
      cuts = before ++ .span inner :: after → '*' ∈ inner →
        Even (starsOnLine (Delimiter.replaceSpans id before)) ∧
          (Even (inner.count '*') ∨
            '*' ∉ (Delimiter.replaceSpans id after).takeWhile (· ≠ '\n')) := by
  rw [uncrossed_iff]
  refine forall_congr' fun before => forall_congr' fun inner => forall_congr' fun after =>
    forall_congr' fun hcuts => forall_congr' fun _ => and_congr (oddAfter_eq_false_iff _) ?_
  have hinner : '\n' ∉ inner := h inner (hcuts ▸ by simp)
  have hcount : starsOnLine inner = inner.count '*' := by
    rw [starsOnLine, List.rtakeWhile_eq_self_iff.2 fun c hc =>
      decide_eq_true (ne_of_mem_of_not_mem hc hinner)]
  rw [← hcount, ← oddAfter_eq_false_iff, ← starAhead_ofItalics_iff, Bool.and_eq_false_iff,
    Bool.not_eq_true]

theorem newLine_not_mem_cut {t inner : Text} (h : Cut.span inner ∈ italic.cut t) :
    '\n' ∉ inner := fun hmem => by
  simpa [italic, isInline] using Delimiter.allows_of_mem_cutFrom rfl h _ hmem

/-- The bold and italic elements of a text nest exactly where no bold span crosses an italic one:
where each italic span that has a star in it has an even number of stars in front of it on its
line, and in it an even number of stars or none behind it on its line. The stars that are counted
are those that the italic spans leave. -/
theorem resolve_nested_iff {t : Text} (h : '<' ∉ t) :
    ∃ shown, resolve "i" "b" t = .ok shown ∧
      (IsNested shown ↔ ∀ before inner after,
        italic.cut t = before ++ .span inner :: after → '*' ∈ inner →
          Even (starsOnLine (Delimiter.replaceSpans id before)) ∧
            (Even (inner.count '*') ∨
              '*' ∉ (Delimiter.replaceSpans id after).takeWhile (· ≠ '\n'))) := by
  have hnests := Item.nests_ofItalics (fun _ => newLine_not_mem_cut (t := t)) false
  refine ⟨_, resolve_eq_written inert_shortNames t, ?_⟩
  rw [Item.boldOpen_false] at hnests
  rw [IsNested, Item.tagsFrom_written (char_not_mem_itemsOf (by decide) h), itemsOf, hnests,
    uncrossed_iff_even fun _ => newLine_not_mem_cut]

def whisperedText : Text := "*Oh **no** dear*, **she *did* say it**."

def whisperedShown : Text := "<b>Oh <i>no</i> dear</b>, <i>she <b>did</b> say it</i>."

/-- A pair of stars around an italic span, and one in such a span. -/
theorem resolve_nested_whisperedText :
    '<' ∉ whisperedText ∧ resolve "i" "b" whisperedText = .ok whisperedShown ∧
      IsNested whisperedShown := by
  have hplain : '<' ∉ whisperedText := by decide
  have hresolve : resolve "i" "b" whisperedText = .ok whisperedShown := rfl
  have heven := (uncrossed_iff_even fun _ => newLine_not_mem_cut (t := whisperedText)).1 (by decide)
  obtain ⟨shown, hshown, hnested⟩ := resolve_nested_iff hplain
  obtain rfl : whisperedShown = shown := Except.ok.inj (hresolve.symm.trans hshown)
  exact ⟨hplain, hresolve, hnested.2 heven⟩

/-- In a run of three stars the bold span begins in the italic one and ends behind it. -/
theorem resolve_crossed :
    '<' ∉ "***a***".toList ∧ resolve "i" "b" "***a***" = .ok "<i><b>a</i></b>" ∧
      ¬ IsNested "<i><b>a</i></b>" := by
  exact ⟨by decide, rfl, by decide⟩

end Style

end StoryScript
