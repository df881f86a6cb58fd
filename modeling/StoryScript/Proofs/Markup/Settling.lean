import StoryScript.Proofs.Markup.Tagging

/-!
# Styling once

The stars of a line that are paired are tags afterwards (`Item.pairFrom_pairFrom`), and no two are
left (`Item.count_star_pairFrom`). Main statement: a styled text is styled itself, and without its
tags and stars it is the text without stars (`Style.resolve_settles`).
-/

namespace StoryScript.Style

namespace Item

variable {name : Kind → Text}

/-! ## Stars that are left -/

theorem starAhead_of_starAhead_pairFrom {odd : Bool} {items : List Item}
    (h : starAhead (pairFrom odd items)) : starAhead items := by
  induction items generalizing odd with
  | nil => exact h
  | cons item items ih =>
    cases item with
    | tag t => exact ih h
    | char c =>
      by_cases hstar : c = '*'
      · rw [hstar]
        rfl
      · by_cases hline : c = '\n'
        · subst hline
          rw [pairFrom_newLine] at h
          cases h
        · rw [pairFrom_char odd hstar, starAhead_char hstar hline] at h
          rw [starAhead_char hstar hline]
          exact ih h

/-- Paired stars are no stars any more. -/
theorem pairFrom_pairFrom (odd odd' : Bool) {items : List Item}
    (h : odd' → starAhead (pairFrom odd items) = false) :
    pairFrom odd' (pairFrom odd items) = pairFrom odd items := by
  induction items generalizing odd odd' with
  | nil => rfl
  | cons item items ih =>
    cases item with
    | tag t => rw [pairFrom_tag, pairFrom_tag, ih odd odd' h]
    | char c =>
      by_cases hstar : c = '*'
      · subst hstar
        cases odd with
        | true => rw [pairFrom_true_star, pairFrom_tag, ih false odd' h]
        | false =>
          rw [pairFrom_false_star] at h ⊢
          cases hahead : starAhead items with
          | true =>
            rw [hahead] at h
            rw [if_pos rfl, pairFrom_tag, ih true odd' h]
          | false =>
            rw [hahead] at h
            have hnone : starAhead (pairFrom true items) = false :=
              Bool.eq_false_iff.2
                (mt starAhead_of_starAhead_pairFrom (Bool.eq_false_iff.1 hahead))
            cases odd' with
            | true => exact absurd (h rfl).symm Bool.false_ne_true
            | false =>
              rw [if_neg Bool.false_ne_true, pairFrom_false_star, hnone, if_neg Bool.false_ne_true,
                ih true true fun _ => hnone]
      · by_cases hline : c = '\n'
        · subst hline
          rw [pairFrom_newLine, pairFrom_newLine, ih false false (absurd · Bool.false_ne_true)]
        · rw [pairFrom_char odd hstar, starAhead_char hstar hline] at h
          rw [pairFrom_char odd hstar, pairFrom_char odd' hstar,
            ih _ _ fun hodd => h (Bool.and_eq_true_iff.1 hodd).1]

theorem count_star_append {u v : Text} (hstar : '*' ∉ u) (hline : '\n' ∉ u)
    (h : ∀ line ∈ Text.fields '\n' v, line.count '*' ≤ 1) :
    ∀ line ∈ Text.fields '\n' (u ++ v), line.count '*' ≤ 1 := by
  obtain ⟨lines, hlines⟩ := Text.exists_fields_eq '\n' v
  rw [hlines, List.forall_mem_cons] at h
  rw [Text.fields_append_of_not_mem hline, hlines, List.modifyHead_cons, List.forall_mem_cons,
    List.count_append, List.count_eq_zero.2 hstar, Nat.zero_add]
  exact h

/-- One star at most is left on a line. -/
theorem count_star_pairFrom (h : Inert name) (odd : Bool) (items : List Item) :
    ∀ line ∈ Text.fields '\n' (written name (pairFrom odd items)), line.count '*' ≤ 1 := by
  have htag (t : Tag) {v : Text} (hv : ∀ line ∈ Text.fields '\n' v, line.count '*' ≤ 1) :
      ∀ line ∈ Text.fields '\n' (t.written name ++ v), line.count '*' ≤ 1 :=
    count_star_append (h.star_not_mem t) (h.newLine_not_mem t) hv
  induction items generalizing odd with
  | nil => simp [pairFrom, Text.fields]
  | cons item items ih =>
    cases item with
    | tag t => exact htag t (ih odd)
    | char c =>
      by_cases hstar : c = '*'
      · subst hstar
        cases odd with
        | true => exact htag _ (ih false)
        | false =>
          rw [pairFrom_false_star]
          cases hahead : starAhead items with
          | true => exact htag _ (ih true)
          | false =>
            -- The star that is left has no other one behind it on its line.
            have hnone : '*' ∉ (written name (pairFrom true items)).takeWhile (· ≠ '\n') := by
              rw [← starAhead_iff h]
              exact mt starAhead_of_starAhead_pairFrom (Bool.eq_false_iff.1 hahead)
            obtain ⟨lines, hlines⟩ :=
              Text.exists_fields_eq '\n' (written name (pairFrom true items))
            have hrest := ih true
            rw [hlines, List.forall_mem_cons] at hrest
            rw [if_neg Bool.false_ne_true, written_char, ← List.singleton_append,
              Text.fields_append_of_not_mem (by decide), hlines, List.modifyHead_cons,
              List.forall_mem_cons, List.count_append, List.count_eq_zero.2 hnone]
            exact ⟨Nat.le_refl 1, hrest.2⟩
      · by_cases hline : c = '\n'
        · subst hline
          rw [pairFrom_newLine, written_char]
          exact List.forall_mem_cons.2 ⟨Nat.zero_le 1, ih false⟩
        · rw [pairFrom_char odd hstar, written_char, ← List.singleton_append]
          have hother : '*' ∉ [c] ∧ '\n' ∉ [c] :=
            ⟨by simpa using Ne.symm hstar, by simpa using Ne.symm hline⟩
          exact count_star_append hother.1 hother.2 (ih _)

/-! ## Without tags -/

/-- Whether an item is left when one tag is deleted. -/
def outlasts (name : Kind → Text) (deleted : Tag) : Item → Bool
  | char _ => true
  | tag t => t.written name != deleted.written name

theorem plainText_filter_outlasts (t : Tag) (items : List Item) :
    plainText (items.filter (outlasts name t)) = plainText items := by
  induction items with
  | nil => rfl
  | cons item items ih =>
    rw [List.filter_cons]
    split
    · rw [plainText, List.flatMap_cons, ← plainText, ih]
      rfl
    · next hitem =>
      cases item with
      | char c => exact absurd rfl hitem
      | tag _ => exact ih

theorem written_eq_plainText {items : List Item} (h : ∀ t, tag t ∉ items) :
    written name items = plainText items := by
  induction items with
  | nil => rfl
  | cons item items ih =>
    have hrest := ih fun t ht => h t (List.mem_cons_of_mem _ ht)
    cases item with
    | char c => exact congrArg (c :: ·) hrest
    | tag t => exact absurd List.mem_cons_self (h t)

section

variable (hname : ∀ kind, '<' ∉ name kind ∧ '>' ∉ name kind)

include hname

/-- No tag begins another one. -/
theorem after?_written_eq_none {t deleted : Tag} (h : t.written name ≠ deleted.written name)
    (rest : Text) : Text.after? (deleted.written name) (t.written name ++ rest) = none := by
  refine Option.eq_none_iff_forall_ne_some.2 fun more hmore => h ?_
  have hangle (t : Tag) : '>' ∉ '<' :: t.label name := by
    intro hmem
    rcases List.mem_cons.1 hmem with hmem | hmem
    · cases hmem
    · rcases Tag.mem_label hmem with hmem | hmem
      · cases hmem
      · exact (hname t.kind).2 hmem
  have hcut (t : Tag) (rest : Text) :
      Text.cut? '>' (t.written name ++ rest) = some ('<' :: t.label name, rest) := by
    rw [Tag.written, List.append_assoc, List.singleton_append, Text.cut?_append (hangle t)]
  have heq := congrArg (Text.cut? '>') (Text.eq_append_of_after? hmore)
  rw [hcut, hcut] at heq
  rw [Tag.written, Tag.written, (Prod.mk.inj (Option.some.inj heq)).1]

/-- Deleting a tag takes away where it is one, and nothing else. -/
theorem replace_written (deleted : Tag) {items : List Item} (hitems : char '<' ∉ items) :
    Text.replace (deleted.written name) [] (written name items) =
      written name (items.filter (outlasts name deleted)) := by
  have hhead : (deleted.written name).head? = some '<' := rfl
  induction items with
  | nil => rfl
  | cons item items ih =>
    obtain ⟨hitem, hrest⟩ := not_or.1 (mt List.mem_cons.2 hitems)
    rw [List.filter_cons]
    cases item with
    | char c =>
      have hc : '<' ∉ [c] := by simpa using hitem
      rw [written_char, ← List.singleton_append, Text.replace_append_of_not_mem [] hhead hc,
        ih hrest]
      rfl
    | tag t =>
      by_cases heq : t.written name = deleted.written name
      · have hgone : outlasts name deleted (tag t) = false := by simp [outlasts, heq]
        have hne : deleted.written name ≠ [] := List.cons_ne_nil _ _
        rw [written_tag, heq, Text.replace_append [] hne, ih hrest, hgone]
        rfl
      · have hleft : outlasts name deleted (tag t) = true := by simpa [outlasts] using heq
        have hopening : '<' ∉ t.label name ++ ['>'] := by
          intro hmem
          rcases List.mem_append.1 hmem with hmem | hmem
          · rcases Tag.mem_label hmem with hmem | hmem
            · cases hmem
            · exact (hname t.kind).1 hmem
          · cases List.mem_singleton.1 hmem
        have hnone := after?_written_eq_none hname heq (written name items)
        have hbehind := Text.replace_append_of_not_mem [] hhead hopening (written name items)
        rw [hleft, if_pos rfl, written_tag, written_tag, ← ih hrest]
        exact (Text.replace_cons_of_after? [] hnone).trans (congrArg ('<' :: ·) hbehind)

/-- When all tags are deleted, the plain text is left. -/
theorem foldl_replace {tags : List Tag} {items : List Item} (hitems : char '<' ∉ items)
    (htags : ∀ t, tag t ∈ items → t ∈ tags) :
    tags.foldl (fun u t => Text.replace (t.written name) [] u) (written name items) =
      plainText items := by
  induction tags generalizing items with
  | nil => exact written_eq_plainText fun t ht => absurd (htags t ht) List.not_mem_nil
  | cons deleted tags ih =>
    rw [List.foldl_cons, replace_written hname deleted hitems, ih, plainText_filter_outlasts]
    · exact fun hmem => hitems (List.mem_of_mem_filter hmem)
    · intro t ht
      obtain ⟨hmem, hleft⟩ := List.mem_filter.1 ht
      refine (List.mem_cons.1 (htags t hmem)).resolve_left ?_
      rintro rfl
      simp [outlasts] at hleft

end

end Item

/-! ## The styled text -/

variable {name : Kind → Text}

/-- Two stars side by side are on one line. -/
theorem italic_absent_of_count {t : Text}
    (h : ∀ line ∈ Text.fields '\n' t, line.count '*' ≤ 1) : ¬ italic.opening <:+: t := by
  rintro ⟨front, back, rfl⟩
  obtain ⟨above, start, rfl, habove, hstart⟩ := Lines.exists_ended front
  have hline := List.mem_of_getElem?
    (Lines.getElem?_fields_ended_append habove (start ++ italic.opening ++ back))
  have hinside : ∀ c ∈ start ++ italic.opening, decide (c ≠ '\n') = true := by
    intro c hc
    rcases List.mem_append.1 hc with hc | hc
    · exact decide_eq_true (ne_of_mem_of_not_mem hc hstart)
    · have hopening : ∀ c ∈ italic.opening, decide (c ≠ '\n') = true :=
        List.all_eq_true.1 (by decide)
      exact hopening c hc
  have hcount := h _ (by rwa [List.append_assoc, List.append_assoc, ← List.append_assoc start])
  rw [List.takeWhile_append_of_pos hinside, List.count_append, List.count_append] at hcount
  have htwo : italic.opening.count '*' = 2 := rfl
  omega

/-- Styling settles at once. Each line of a styled text has at most one star, so the styled text is
styled itself; and where the names of the tags are alphanumeric and the text has no angle bracket,
nothing but tags was added to it and nothing but stars taken away, in whatever order the tags are
deleted again. -/
theorem resolve_settles (hname : Inert name) (t : Text) :
    ∃ shown, resolve (name .italic) (name .bold) t = .ok shown ∧
      (∀ line ∈ Text.fields '\n' shown, line.count '*' ≤ 1) ∧
      resolve (name .italic) (name .bold) shown = .ok shown ∧
      ((∀ kind, ∀ c ∈ name kind, Letter.isLetterOrNumeral c) → '<' ∉ t →
        ∀ tags : List Tag, tags.Perm Tag.all →
          (tags.foldl (fun u tag => Text.replace (tag.written name) [] u) shown).filter (· ≠ '*') =
            t.filter (· ≠ '*')) := by
  have hlines : ∀ line ∈ Text.fields '\n' (Item.written name (itemsOf t)), line.count '*' ≤ 1 :=
    Item.count_star_pairFrom hname false _
  refine ⟨_, resolve_eq_written hname t, hlines, ?_, fun hletters ht tags htags => ?_⟩
  · rw [resolve_of_plain (hname.backslash_not_mem _) (hname.backslash_not_mem _),
      Delimiter.replaceSpans_of_absent (italic_absent_of_count hlines),
      Item.replaceSpans_bold hname, itemsOf,
      Item.pairFrom_pairFrom false false (absurd · Bool.false_ne_true)]
  · have hangle : ∀ kind, '<' ∉ name kind ∧ '>' ∉ name kind := fun kind =>
      ⟨fun hc => absurd (hletters kind _ hc) (by decide),
        fun hc => absurd (hletters kind _ hc) (by decide)⟩
    rw [Item.foldl_replace hangle (char_not_mem_itemsOf (by decide) ht)
      fun tag _ => htags.mem_iff.2 tag.mem_all, filter_plainText_itemsOf]

def longNames : Kind → Text
  | .italic => "em"
  | .bold => "strong"

def hushedText : Text := "***Hush***, *Ann* said **to** me.\n*"

def hushedShown : Text :=
  "<em><strong>Hush</em></strong>, <strong>Ann</strong> said <em>to</em> me.\n*"

/-- Stars in runs of three, and one that is left. -/
theorem resolve_settles_hushedText :
    Inert longNames ∧ (∀ kind, ∀ c ∈ longNames kind, Letter.isLetterOrNumeral c) ∧
      '<' ∉ hushedText ∧ resolve "em" "strong" hushedText = .ok hushedShown ∧
      resolve "em" "strong" hushedShown = .ok hushedShown ∧
      (Tag.all.foldl (fun u tag => Text.replace (tag.written longNames) [] u) hushedShown).filter
        (· ≠ '*') = "Hush, Ann said to me.\n" := by
  have hname : Inert longNames := by
    rintro (_ | _) <;> exact List.all_iff_forall_prop.1 (by decide)
  have hletters : ∀ kind, ∀ c ∈ longNames kind, Letter.isLetterOrNumeral c := by
    rintro (_ | _) <;> exact List.all_eq_true.1 (by decide)
  have hangle : '<' ∉ hushedText := by decide
  have hresolve : resolve "em" "strong" hushedText = .ok hushedShown := rfl
  obtain ⟨shown, hshown, -, hagain, hplain⟩ := resolve_settles hname hushedText
  obtain rfl : hushedShown = shown := Except.ok.inj (hresolve.symm.trans hshown)
  exact ⟨hname, hletters, hangle, hresolve, hagain, hplain hletters hangle Tag.all (.refl _)⟩

end StoryScript.Style
