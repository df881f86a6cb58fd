import StoryScript.Markup.Code
import StoryScript.Markup.Speaker
import StoryScript.Proofs.Markup.Absent
import StoryScript.Proofs.Text.Cuts

/-!
# Code spans

The characters of a code span that other markup is made of are replaced by entities, which can be
replaced by the characters again (`Code.decode_escape`). Main statement: in a text that is plain but
for its code spans, these are found where they were written, whatever they hold, and what is shown
of them holds no markup (`CodeText.resolve_written`, `CodeText.not_mem_shown`).
-/

namespace StoryScript

/-! ## Spans where they were written -/

namespace Text

/-- What no mark begins stands for itself, up to where the mark begins. -/
theorem after?_append_eq_none {mark t : Text} (rest : Text) {m : Char} {ms : Text} (hmark : mark = m :: ms)
    (hm : m ∉ ms) (ht : t ≠ []) (h : ¬ mark <+: t) : after? mark (t ++ mark ++ rest) = none := by
  refine Option.eq_none_iff_forall_ne_some.2 fun more hmore => ?_
  have heq : t ++ (mark ++ rest) = mark ++ more := by
    rw [← List.append_assoc]
    exact eq_append_of_after? hmore
  rcases List.append_eq_append_iff.1 heq with ⟨back, hback, hrest⟩ | ⟨back, hback, -⟩
  · -- The mark would have to begin again in the rest of itself.
    cases back with
    | nil => exact h ⟨[], by rw [hback]; simp⟩
    | cons c back =>
      obtain ⟨d, t, rfl⟩ := List.exists_cons_of_ne_nil ht
      rw [hmark] at hback hrest
      obtain ⟨-, hms⟩ := List.cons.inj hback
      obtain ⟨hc, -⟩ := List.cons.inj hrest
      exact hm (by rw [hms, hc]; simp)
  · exact h ⟨back, hback.symm⟩

end Text

namespace Delimiter

variable {d : Delimiter} {m : Char} {ms : Text}

/-- An inside ends at the mark that was written behind it. -/
theorem innerFrom_append (hclosing : d.closing = m :: ms) (hm : m ∉ ms) {inner : Text}
    (hallows : ∀ c ∈ inner, d.allows c) (h : ¬ d.closing <:+: inner) (rest : Text) :
    d.innerFrom (inner ++ d.closing ++ rest) = some inner := by
  induction inner with
  | nil =>
    have hafter : Text.after? d.closing (m :: (ms ++ rest)) = some rest := by
      rw [← List.cons_append, ← hclosing]
      exact Text.after?_append d.closing rest
    rw [List.nil_append, hclosing, List.cons_append, innerFrom, hafter]
  | cons c cs ih =>
    obtain ⟨hc, hcs⟩ := List.forall_mem_cons.1 hallows
    have hnone := Text.after?_append_eq_none rest hclosing hm (List.cons_ne_nil c cs)
      (mt List.IsPrefix.isInfix h)
    have hrest := ih hcs fun hoccurs => h (hoccurs.trans (List.suffix_cons c cs).isInfix)
    simp only [List.cons_append] at hnone ⊢
    rw [innerFrom, hnone, if_pos hc, hrest]
    rfl

theorem cutFrom_length (u t : Text) : d.cutFrom u.length (u ++ t) = d.cutFrom 0 t := by
  induction u with
  | nil => rfl
  | cons c u ih => exact ih

variable (f : Text → Text)

theorem replaceSpans_cons (c : Char) (cuts : List Cut) :
    replaceSpans f (Cut.cons c cuts) = c :: replaceSpans f cuts := by
  unfold Cut.cons
  split <;> simp [replaceSpans]

/-- Text in which no span can begin stands for itself. -/
theorem replaceSpans_cut_append (hopening : d.opening.head? = some m) {t : Text} (ht : m ∉ t)
    (rest : Text) :
    replaceSpans f (d.cut (t ++ rest)) = t ++ replaceSpans f (d.cut rest) := by
  induction t with
  | nil => rfl
  | cons c cs ih =>
    obtain ⟨hc, hcs⟩ := not_or.1 (mt List.mem_cons.2 ht)
    have hspan : d.spanAt? (c :: (cs ++ rest)) = none := by
      refine Option.eq_none_iff_forall_ne_some.2 fun inner hinner => hc ?_
      obtain ⟨more, hmore⟩ := eq_append_of_spanAt? hinner
      obtain ⟨os, hos⟩ := List.head?_eq_some_iff.1 hopening
      rw [written, hos] at hmore
      exact (List.cons.inj hmore).1.symm
    rw [List.cons_append, cut, cutFrom, hspan]
    simp only [replaceSpans_cons]
    rw [← cut, ih hcs]
    rfl

theorem inner?_append (hclosing : d.closing = m :: ms) (hm : m ∉ ms) {inner : Text}
    (hallows : ∀ c ∈ inner, d.allows c) (hempty : d.nonempty → inner ≠ [])
    (h : ¬ d.closing <:+: inner) (rest : Text) :
    d.inner? (inner ++ d.closing ++ rest) = some inner := by
  unfold inner?
  split
  · next hnonempty =>
    obtain ⟨c, cs, rfl⟩ := List.exists_cons_of_ne_nil (hempty hnonempty)
    obtain ⟨hc, hcs⟩ := List.forall_mem_cons.1 hallows
    have hrest := innerFrom_append hclosing hm hcs
      (fun hoccurs => h (hoccurs.trans (List.suffix_cons c cs).isInfix)) rest
    simp only [List.cons_append, hc, if_true, hrest, Option.map_some]
  · exact innerFrom_append hclosing hm hallows h rest

/-- A span that was written is found where it stands. -/
theorem cut_written_append (hopening : d.opening ≠ []) (hclosing : d.closing = m :: ms)
    (hm : m ∉ ms) {inner : Text} (hallows : ∀ c ∈ inner, d.allows c)
    (hempty : d.nonempty → inner ≠ []) (h : ¬ d.closing <:+: inner) (rest : Text) :
    d.cut (d.written inner ++ rest) = .span inner :: d.cut rest := by
  obtain ⟨o, os, ho⟩ := List.exists_cons_of_ne_nil hopening
  have hspan : d.spanAt? (d.written inner ++ rest) = some inner := by
    rw [spanAt?, written, List.append_assoc, List.append_assoc, Text.after?_append, Option.bind_some,
      ← List.append_assoc]
    exact inner?_append hclosing hm hallows hempty h rest
  have hwritten : d.written inner = o :: (os ++ inner ++ d.closing) := by
    rw [written, ho]
    rfl
  rw [hwritten, List.cons_append] at hspan
  rw [hwritten, List.cons_append, cut, cutFrom, hspan]
  simp only [hwritten, List.length_cons, Nat.add_sub_cancel]
  rw [cutFrom_length]
  rfl

end Delimiter

/-! ## Entities -/

namespace Code

/-- Replaces entities by the characters they stand for, in one pass from left to right; `skip`
counts the characters of an entity that are still to be passed over. -/
def decodeFrom : (skip : Nat) → Text → Text
  | _, [] => []
  | skip + 1, _ :: cs => decodeFrom skip cs
  | 0, c :: cs =>
    match entities.find? fun e => (Text.after? e.2 (c :: cs)).isSome with
    | some e => e.1 :: decodeFrom (e.2.length - 1) cs
    | none => c :: decodeFrom 0 cs

def decode (t : Text) : Text := decodeFrom 0 t

theorem decodeFrom_length (u t : Text) : decodeFrom u.length (u ++ t) = decodeFrom 0 t := by
  induction u with
  | nil => rfl
  | cons c u ih => exact ih

theorem escapeChar_cases (c : Char) :
    (∃ e ∈ entities, e.1 = c ∧ escapeChar c = e.2) ∨ (∀ e ∈ entities, e.1 ≠ c) ∧ escapeChar c = [c] := by
  unfold escapeChar
  cases hfind : entities.find? fun e => e.1 == c with
  | none =>
    refine .inr ⟨fun e he heq => ?_, rfl⟩
    exact List.find?_eq_none.1 hfind e he (by simpa using heq)
  | some e =>
    have hc := List.find?_some hfind
    exact .inl ⟨e, List.mem_of_find?_eq_some hfind, by simpa using hc, rfl⟩

/-- No entity begins another one. -/
theorem find?_entity {e : Char × Text} (he : e ∈ entities) (rest : Text) :
    (entities.find? fun e' => (Text.after? e'.2 (e.2 ++ rest)).isSome) = some e := by
  simp only [entities, List.mem_cons, List.not_mem_nil, or_false] at he
  rcases he with rfl | rfl | rfl | rfl | rfl | rfl | rfl | rfl | rfl | rfl <;> rfl

theorem decodeFrom_escapeChar (c : Char) (rest : Text) :
    decodeFrom 0 (escapeChar c ++ rest) = c :: decodeFrom 0 rest := by
  have hentities : ∀ e ∈ entities, e.2.head? = some '&' := by decide
  rcases escapeChar_cases c with ⟨e, he, rfl, hescape⟩ | ⟨hnone, hescape⟩
  · obtain ⟨cs, hcs⟩ := List.head?_eq_some_iff.1 (hentities e he)
    have hfind := find?_entity he rest
    rw [hcs, List.cons_append] at hfind
    rw [hescape, hcs, List.cons_append, decodeFrom, hfind]
    simp only [hcs, List.length_cons, Nat.add_sub_cancel]
    rw [decodeFrom_length]
  · have hc : c ≠ '&' := fun h => hnone ('&', "&amp;") (by decide) h.symm
    have hfind : (entities.find? fun e => (Text.after? e.2 (c :: rest)).isSome) = none := by
      refine List.find?_eq_none.2 fun e he hsome => ?_
      obtain ⟨more, hmore⟩ := Option.isSome_iff_exists.1 hsome
      obtain ⟨cs, hcs⟩ := List.head?_eq_some_iff.1 (hentities e he)
      have heq := Text.eq_append_of_after? hmore
      rw [hcs] at heq
      exact hc (List.cons.inj heq).1
    rw [hescape, List.singleton_append, decodeFrom, hfind]

/-- Decoding gives back what was escaped. -/
theorem decode_escape (t : Text) : decode (escape t) = t := by
  unfold decode
  induction t with
  | nil => rfl
  | cons c cs ih => rw [escape, List.flatMap_cons, decodeFrom_escapeChar, ← escape, ih]

/-- Whether other markup than code spans is made of a character. -/
def isMarkup (c : Char) : Bool := "{}[]|*".toList.contains c

theorem any_isMarkup_escape (t : Text) : (escape t).any isMarkup = false := by
  have hentities : ∀ e ∈ entities, e.2.any isMarkup = false := by decide
  have hmarkup : "{}[]|*".toList.all fun c => entities.any fun e => e.1 == c := by decide
  refine List.any_eq_false.2 fun c h hc => ?_
  obtain ⟨d, -, hd⟩ := List.mem_flatMap.1 h
  rcases escapeChar_cases d with ⟨e, he, rfl, hescape⟩ | ⟨hnone, hescape⟩
  · exact List.any_eq_false.1 (hentities e he) c (hescape ▸ hd) hc
  · obtain rfl := List.mem_singleton.1 (hescape ▸ hd)
    obtain ⟨e, he, heq⟩ :=
      List.any_eq_true.1 (List.all_eq_true.1 hmarkup c (List.contains_iff_mem.1 hc))
    exact hnone e he (eq_of_beq heq)

theorem any_isMarkup_mark {styleClass : Text} (hclass : styleClass.any isMarkup = false)
    (inner : Text) : (mark styleClass inner).any isMarkup = false := by
  have hopening : ("<span class=\"" : Text).any isMarkup = false := by decide
  have hmiddle : ("\">" : Text).any isMarkup = false := by decide
  have hclosing : ("</span>" : Text).any isMarkup = false := by decide
  unfold mark
  simp only [List.any_append, hopening, hclass, hmiddle, any_isMarkup_escape, hclosing,
    Bool.or_false]

end Code

/-! ## Texts with code spans -/

/-- A text that is plain but for its code spans: what stands before the first of them, and the inside
of each with what follows it. -/
structure CodeText where
  front : Text
  spans : List (Text × Text)
  isPlain : ∀ t ∈ front :: spans.map Prod.snd, ∀ c ∈ t, Code.isMarkup c = false ∧ c ≠ ':'
  isClosed : ∀ p ∈ spans, ¬ Code.delimiter.closing <:+: p.1

namespace Speaker

/-- A text has no speaker where no colon follows the word that it begins with. -/
theorem split_of_head?_ne {t : Text} (h : (t.dropWhile Letter.isWord).head? ≠ some ':') :
    split t = (none, t) := by
  unfold split
  split
  · next rest hrest => exact absurd (by rw [hrest]; rfl) h
  · rfl

theorem head?_dropWhile_ne {t : Text} (ht : ':' ∉ t) {c : Char} (hc : c ≠ ':')
    (hword : Letter.isWord c = false) (rest : Text) :
    ((t ++ c :: rest).dropWhile Letter.isWord).head? ≠ some ':' := by
  induction t with
  | nil => simpa [hword] using hc
  | cons d ds ih =>
    obtain ⟨hd, hds⟩ := not_or.1 (mt List.mem_cons.2 ht)
    by_cases h : Letter.isWord d
    · simpa [h] using ih hds
    · simpa [h] using Ne.symm hd

end Speaker

namespace CodeText

variable (t : CodeText) (styleClass : Text)

/-- The text with each inside replaced by something. -/
def withSpans (f : Text → Text) : Text := t.front ++ t.spans.flatMap fun p => f p.1 ++ p.2

def written : Text := t.withSpans Code.delimiter.written

/-- What is shown of the text. -/
def shown : Text := t.withSpans (Code.mark styleClass)

theorem bracket_not_mem {u : Text} (h : u ∈ t.front :: t.spans.map Prod.snd) : '[' ∉ u :=
  fun hc => absurd (t.isPlain u h '[' hc).1 (by decide)

/-- Each code span is found where it was written, whatever it holds. -/
theorem resolve_written : Code.resolve styleClass t.written = t.shown styleClass := by
  have hspans : ∀ ps : List (Text × Text), (∀ p ∈ ps, p ∈ t.spans) →
      Delimiter.replaceSpans (Code.mark styleClass)
        (Code.delimiter.cut (ps.flatMap fun p => Code.delimiter.written p.1 ++ p.2)) =
      ps.flatMap fun p => Code.mark styleClass p.1 ++ p.2 := by
    intro ps hps
    induction ps with
    | nil => rfl
    | cons p ps ih =>
      obtain ⟨hp, hps⟩ := List.forall_mem_cons.1 hps
      have hplain : '[' ∉ p.2 := t.bracket_not_mem (List.mem_cons_of_mem _ (List.mem_map_of_mem hp))
      rw [List.flatMap_cons, List.flatMap_cons, List.append_assoc,
        Delimiter.cut_written_append (by decide) (m := '[') rfl (by decide) (fun _ _ => rfl)
          (absurd · (by decide)) (t.isClosed p hp), Delimiter.replaceSpans, List.flatMap_cons,
        ← Delimiter.replaceSpans, Delimiter.replaceSpans_cut_append _ (m := '[') rfl hplain, ih hps,
        List.append_assoc]
  have hfront : '[' ∉ t.front := t.bracket_not_mem List.mem_cons_self
  rw [Code.resolve, written, withSpans, Delimiter.replaceSpans_cut_append _ (m := '[') rfl hfront,
    hspans t.spans fun p hp => hp]
  rfl

variable {t}

/-- Nothing that is shown is markup, so no other pass finds a span in it. -/
theorem not_mem_shown {c : Char} (hc : Code.isMarkup c) : c ∉ t.shown "output_code" := by
  have hplain {u : Text} (hu : u ∈ t.front :: t.spans.map Prod.snd) : c ∉ u := fun h =>
    Bool.false_ne_true ((t.isPlain u hu c h).1.symm.trans hc)
  intro h
  rcases List.mem_append.1 h with h | h
  · exact hplain List.mem_cons_self h
  · obtain ⟨p, hp, h⟩ := List.mem_flatMap.1 h
    rcases List.mem_append.1 h with h | h
    · exact List.any_eq_false.1 (Code.any_isMarkup_mark (by decide) p.1) c h hc
    · exact hplain (List.mem_cons_of_mem _ (List.mem_map_of_mem hp)) h

/-- What is shown has no speaker: a colon in a code span stands behind the mark of the span. -/
theorem split_shown (styleClass : Text) :
    Speaker.split (t.shown styleClass) = (none, t.shown styleClass) := by
  have hfront : ':' ∉ t.front := fun hc => (t.isPlain t.front List.mem_cons_self ':' hc).2 rfl
  apply Speaker.split_of_head?_ne
  rw [shown, withSpans]
  cases t.spans with
  | nil =>
    rw [List.flatMap_nil, List.append_nil]
    intro hhead
    exact hfront ((List.dropWhile_suffix _).subset (List.mem_of_mem_head? hhead))
  | cons p ps => exact Speaker.head?_dropWhile_ne hfront (c := '<') (by decide) (by decide) _

end CodeText

end StoryScript
