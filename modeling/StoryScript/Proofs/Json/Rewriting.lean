import Mathlib.Data.List.TakeWhile
import StoryScript.Proofs.Json.Grammar
import StoryScript.Proofs.Value.Alike

/-!
# Rewriting a document

A rewriting that changes points and underscores only, and no decimal point, changes nothing but the
strings of a document. Main statement: where it makes of each string another one, it makes of a
document one of a value that is alike (`Json.IsDocument.rewrite`).
-/

namespace StoryScript.Json

open Value (Alike)

def isTouched (c : Char) : Bool := c == '.' || c == '_'

/-- A rewriting that changes points and underscores only, to something that begins with a point or
an underscore, and no decimal point. -/
structure IsRewriting (g : Text → Text) : Prop where
  nil : g [] = []
  other {c : Char} (hc : isTouched c = false) (t : Text) : g (c :: t) = c :: g t
  decimal {d : Char} (hd : d.isDigit) (t : Text) : g ('.' :: d :: t) = '.' :: g (d :: t)
  touched {c : Char} (hc : isTouched c) (t : Text) : ∃ d u, g (c :: t) = d :: u ∧ isTouched d

def IsClear (t : Text) : Prop := ∀ c ∈ t.head?, isTouched c = false

theorem eq_of_isTouched {c : Char} (h : isTouched c) : c = '.' ∨ c = '_' := by
  simpa [isTouched] using h

variable {g : Text → Text} {t rest : Text}

theorem isClear_cons {c : Char} (hc : isTouched c = false) : IsClear (c :: t) := by
  rintro _ ⟨⟩
  exact hc

/-- Reads hexadecimal digits one after another; `n` is what the ones before come to. -/
def hexDigits? : (count n : Nat) → Text → Option (Nat × Text)
  | 0, n, t => some (n, t)
  | _ + 1, _, [] => none
  | count + 1, n, c :: t => (hexValue? c).bind fun d => hexDigits? count (n * 16 + d) t

theorem hexFour?_eq (t : Text) : hexFour? t = hexDigits? 4 0 t := by
  match t with
  | [] => rfl
  | [a] => cases h : hexValue? a <;> simp [hexFour?, hexDigits?, h]
  | [a, b] => cases h : hexValue? a <;> simp [hexFour?, hexDigits?]
  | [a, b, c] => simp [hexFour?, hexDigits?]
  | a :: b :: c :: d :: rest =>
    cases ha : hexValue? a <;> cases hb : hexValue? b <;> cases hc : hexValue? c <;>
      cases hd : hexValue? d <;> simp [hexFour?, hexDigits?, *]

theorem after?_eq_none {m : Char} (h : ∀ rest, t ≠ m :: rest) : Text.after? [m] t = none := by
  cases t with
  | nil => rfl
  | cons c t =>
    have hc : m ≠ c := fun hc => h t (by rw [hc])
    rw [Text.after?, if_neg hc]

theorem sign_eq (t : Text) :
    sign t = ((Text.after? ['-'] t).map fun rest => (true, rest)).getD (false, t) := by
  unfold sign
  split
  · rfl
  · next h => rw [after?_eq_none h]; rfl

theorem whole_eq (t : Text) :
    whole t = ((Text.after? ['0'] t).map fun rest => (['0'], rest)).getD (digits t) := by
  unfold whole
  split
  · rfl
  · next h => rw [after?_eq_none h]; rfl

theorem exponentSign_eq (t : Text) :
    exponentSign t = ((Text.after? ['-'] t).map fun rest => (true, rest)).getD
      (((Text.after? ['+'] t).map fun rest => (false, rest)).getD (false, t)) := by
  unfold exponentSign
  split
  · rfl
  · rfl
  · next h h' => rw [after?_eq_none h, after?_eq_none h']; rfl

theorem fraction_point (t : Text) :
    fraction ('.' :: t) =
      match digits t with
      | ([], _) => (none, '.' :: t)
      | (ds, rest) => (some ds, rest) := rfl

theorem exists_of_digits {d : Char} {ds : Text} (h : digits t = (d :: ds, rest)) :
    ∃ u, t = d :: u ∧ d.isDigit := by
  rw [digits, List.span_eq_takeWhile_dropWhile] at h
  have htake := (Prod.mk.inj h).1
  have hall := List.takeWhile_append_dropWhile (p := Char.isDigit) (l := t)
  rw [htake] at hall
  exact ⟨_, hall.symm, List.mem_takeWhile_imp (htake ▸ List.mem_cons_self)⟩

theorem isTouched_of_exponentMark {c : Char} (h : c = 'e' || c = 'E') : isTouched c = false := by
  rcases Bool.or_eq_true_iff.1 h with h | h <;> rw [of_decide_eq_true h] <;> rfl

/-- An exponent does not begin with what is touched. -/
theorem isClear_of_exponent (h : IsClear (exponent t).2) : IsClear t := by
  cases t with
  | nil => exact h
  | cons c t =>
    rw [exponent_cons] at h
    split at h
    · next hmark => exact isClear_cons (isTouched_of_exponentMark hmark)
    · exact h

namespace IsRewriting

variable (hg : IsRewriting g)

include hg

/-! ## What is read character by character -/

theorem after? {start : Text} (hstart : start.all fun c => !isTouched c) (t : Text) :
    Text.after? start (g t) = (Text.after? start t).map g := by
  induction start generalizing t with
  | nil => rfl
  | cons s start ih =>
    obtain ⟨hs, hstart⟩ := Bool.and_eq_true_iff.1 hstart
    cases t with
    | nil => rw [hg.nil]; rfl
    | cons c t =>
      cases hc : isTouched c with
      | false =>
        rw [hg.other hc, Text.after?, Text.after?]
        split
        · exact ih hstart t
        · rfl
      | true =>
        obtain ⟨d, u, heq, hd⟩ := hg.touched hc t
        have hcs : s ≠ c := fun h => by simp [h, hc] at hs
        have hds : s ≠ d := fun h => by simp [h, hd] at hs
        rw [heq, Text.after?, Text.after?, if_neg hcs, if_neg hds]
        rfl

theorem named? (t : Text) : Json.named? (g t) = (Json.named? t).map fun p => (p.1, g p.2) := by
  have hnamed : ∀ n ∈ named, n.1.all fun c => !isTouched c := by decide
  unfold Json.named?
  generalize named = ns at hnamed
  induction ns with
  | nil => rfl
  | cons n ns ih =>
    obtain ⟨hn, hns⟩ := List.forall_mem_cons.1 hnamed
    rw [List.findSome?_cons, List.findSome?_cons, hg.after? hn, ih hns]
    cases Text.after? n.1 t <;> rfl

theorem takeWhile_dropWhile {p : Char → Bool} (hpoint : p '.' = false) (hline : p '_' = false)
    (t : Text) :
    (g t).takeWhile p = t.takeWhile p ∧ (g t).dropWhile p = g (t.dropWhile p) := by
  have hp {c : Char} (hc : isTouched c) : p c = false := by
    rcases eq_of_isTouched hc with rfl | rfl <;> assumption
  induction t with
  | nil => simp [hg.nil]
  | cons c t ih =>
    cases hc : isTouched c with
    | false =>
      rw [hg.other hc]
      by_cases hpc : p c
      · simp [hpc, ih]
      · simp [hpc, hg.other hc]
    | true =>
      obtain ⟨d, u, heq, hd⟩ := hg.touched hc t
      rw [heq]
      simp [hp hc, hp hd, heq]

theorem skipSpace (t : Text) : Json.skipSpace (g t) = g (Json.skipSpace t) :=
  (hg.takeWhile_dropWhile rfl rfl t).2

theorem skipSpace_cons {c : Char} (h : Json.skipSpace t = c :: rest) (hc : isTouched c = false) :
    Json.skipSpace (g t) = c :: g rest := by
  rw [hg.skipSpace, h, hg.other hc]

theorem digits (t : Text) : Json.digits (g t) = ((Json.digits t).1, g (Json.digits t).2) := by
  obtain ⟨htake, hdrop⟩ := hg.takeWhile_dropWhile (p := Char.isDigit) rfl rfl t
  rw [Json.digits, Json.digits, List.span_eq_takeWhile_dropWhile,
    List.span_eq_takeWhile_dropWhile, htake, hdrop]

theorem hexDigits? (count n : Nat) (t : Text) :
    Json.hexDigits? count n (g t) = (Json.hexDigits? count n t).map fun p => (p.1, g p.2) := by
  induction count generalizing n t with
  | zero => rfl
  | succ count ih =>
    cases t with
    | nil => rw [hg.nil]; rfl
    | cons c t =>
      cases hc : isTouched c with
      | false =>
        rw [hg.other hc, Json.hexDigits?, Json.hexDigits?]
        cases hexValue? c with
        | none => rfl
        | some d => exact ih _ t
      | true =>
        obtain ⟨d, u, heq, hd⟩ := hg.touched hc t
        have hnone {c : Char} (hc : isTouched c) : hexValue? c = none := by
          rcases eq_of_isTouched hc with rfl | rfl <;> rfl
        rw [heq, Json.hexDigits?, Json.hexDigits?, hnone hc, hnone hd]
        rfl

theorem hexFour? (t : Text) :
    Json.hexFour? (g t) = (Json.hexFour? t).map fun p => (p.1, g p.2) := by
  rw [hexFour?_eq, hexFour?_eq, hg.hexDigits?]

theorem sign (t : Text) : Json.sign (g t) = ((Json.sign t).1, g (Json.sign t).2) := by
  rw [sign_eq, sign_eq, hg.after? (by decide)]
  cases Text.after? ['-'] t <;> rfl

theorem whole (t : Text) : Json.whole (g t) = ((Json.whole t).1, g (Json.whole t).2) := by
  rw [whole_eq, whole_eq, hg.after? (by decide), hg.digits]
  cases Text.after? ['0'] t <;> rfl

theorem exponentSign (t : Text) :
    Json.exponentSign (g t) = ((Json.exponentSign t).1, g (Json.exponentSign t).2) := by
  rw [exponentSign_eq, exponentSign_eq, hg.after? (by decide), hg.after? (by decide)]
  cases Text.after? ['-'] t <;> cases Text.after? ['+'] t <;> rfl

theorem lowEscape? (t : Text) :
    Json.lowEscape? (g t) = (Json.lowEscape? t).map fun p => (p.1, g p.2) := by
  rw [Json.lowEscape?, Json.lowEscape?, hg.after? (by decide)]
  cases Text.after? ['\\', 'u'] t with
  | none => rfl
  | some u =>
    simp only [Option.map_some, Option.bind_some, hg.hexFour?]
    cases Json.hexFour? u with
    | none => rfl
    | some p => cases hlow : isLowSurrogate p.1 <;> simp [Option.filter_some, hlow]

theorem code? (t : Text) : Json.code? (g t) = (Json.code? t).map fun p => (p.1, g p.2) := by
  unfold Json.code?
  rw [hg.hexFour?]
  cases Json.hexFour? t with
  | none => rfl
  | some p =>
    obtain ⟨n, r⟩ := p
    simp only [Option.map_some, hg.lowEscape?]
    cases Json.lowEscape? r with
    | none => rfl
    | some p => by_cases hhigh : isHighSurrogate n <;> simp [hhigh]

/-! ## Numbers -/

theorem fraction (h : IsClear (Json.fraction t).2) :
    Json.fraction (g t) = ((Json.fraction t).1, g (Json.fraction t).2) := by
  cases t with
  | nil => rw [hg.nil]; exact congrArg (none, ·) hg.nil.symm
  | cons c t =>
    by_cases hpoint : c = '.'
    · subst hpoint
      rw [fraction_point] at h ⊢
      rcases hdigits : Json.digits t with ⟨_ | ⟨d, ds⟩, r⟩
      · rw [hdigits] at h
        exact absurd (h '.' rfl) nofun
      · obtain ⟨u, rfl, hd⟩ := exists_of_digits hdigits
        rw [hg.decimal hd, fraction_point, hg.digits, hdigits]
    · have hnone (u : Text) : Json.fraction (c :: u) = (none, c :: u) := by
        unfold Json.fraction
        split
        · next heq => exact absurd (List.cons.inj heq).1 hpoint
        · rfl
      rw [hnone] at h ⊢
      rw [hg.other (h c rfl), hnone]

theorem exponent (h : IsClear (Json.exponent t).2) :
    Json.exponent (g t) = ((Json.exponent t).1, g (Json.exponent t).2) := by
  cases t with
  | nil => rw [hg.nil]; exact congrArg (none, ·) hg.nil.symm
  | cons c t =>
    by_cases hmark : c = 'e' || c = 'E'
    · have hc := isTouched_of_exponentMark hmark
      rw [hg.other hc, exponent_cons, exponent_cons, if_pos hmark, if_pos hmark, hg.exponentSign,
        hg.digits]
      rcases Json.digits (Json.exponentSign t).2 with ⟨_ | ⟨d, ds⟩, r⟩
      · simp only [hg.other hc]
      · rfl
    · rw [exponent_cons, if_neg hmark] at h ⊢
      rw [hg.other (h c rfl), exponent_cons, if_neg hmark]

theorem numberParts (h : IsClear (Json.numberParts t).2) :
    Json.numberParts (g t) = ((Json.numberParts t).1, g (Json.numberParts t).2) := by
  unfold Json.numberParts at h ⊢
  dsimp only at h ⊢
  rw [hg.sign, hg.whole, hg.fraction (isClear_of_exponent h), hg.exponent h]

theorem number {v : Value} (h : Json.number t = .ok (v, rest)) (hrest : IsClear rest) :
    Json.number (g t) = .ok (v, g rest) := by
  obtain ⟨hvalue, rfl⟩ := number_eq_ok_iff.1 h
  rw [number_eq_ok_iff, hg.numberParts hrest]
  exact ⟨hvalue, rfl⟩

theorem scalar {v : Value} (h : Json.scalar t = .ok (v, rest)) (hrest : IsClear rest) :
    Json.scalar (g t) = .ok (v, g rest) := by
  unfold Json.scalar at h ⊢
  rw [hg.named?]
  cases hnamed : Json.named? t with
  | none =>
    rw [hnamed] at h
    exact hg.number h hrest
  | some found =>
    rw [hnamed] at h
    obtain rfl := Except.ok.inj h
    rfl

end IsRewriting

/-! ## Values -/

/-- What a rewriting has to make of a part of a document. -/
def Part.IsRewritten (R : Text → Text → Prop) (allows : Char → Prop) (g : Text → Text)
    (t rest : Text) : Part → Prop
  | value v => IsClear rest → ∃ v', Alike R v v' ∧ Reads allows (.value v') (g t) (g rest)
  | members written read => ∀ written', Alike R (.map written) (.map written') →
    ∃ read', Alike R (.map read) (.map read') ∧
      Reads allows (.members written' read') (g t) (g rest)
  | elements items => ∃ items', Alike R (.list items) (.list items') ∧
    Reads allows (.elements items') (g t) (g rest)

/-- What is touched is no white space. -/
theorem isClear_of_skipSpace (h : IsClear (skipSpace t)) : IsClear t := by
  cases t with
  | nil => exact h
  | cons c t =>
    cases hc : isTouched c with
    | false => exact isClear_cons hc
    | true =>
      have hspace : ¬ isSpace c := by
        rcases eq_of_isTouched hc with rfl | rfl <;> decide
      rwa [skipSpace, List.dropWhile_cons_of_neg hspace] at h

theorem isClear_of_skipSpace_cons {c : Char} (h : skipSpace t = c :: rest)
    (hc : isTouched c = false) : IsClear t :=
  isClear_of_skipSpace (h ▸ isClear_cons hc)

theorem isPlain_of_scalar {v : Value} (h : scalar t = .ok (v, rest)) : v.isPlain := by
  unfold scalar at h
  split at h
  · next found hfound =>
    obtain rfl := Except.ok.inj h
    obtain ⟨n, hn, rfl, -⟩ := exists_of_named? hfound
    have hnamed : ∀ n ∈ named, n.2.isPlain := by decide
    exact hnamed n hn
  · obtain ⟨hvalue, -⟩ := number_eq_ok_iff.1 h
    unfold NumberParts.value? at hvalue
    split at hvalue
    · cases hvalue
    · split at hvalue
      · split at hvalue
        · cases hvalue
        · obtain rfl := Option.some.inj hvalue
          rfl
      · obtain rfl := Option.some.inj hvalue
        rfl

section

variable {R : Text → Text → Prop} {allows allows' : Char → Prop} (hg : IsRewriting g)
  (hstring : ∀ {t s rest}, Spells allows t s rest →
    ∃ s', R s s' ∧ Spells allows' (g t) s' (g rest))

include hg hstring

theorem isRewritten_of_reads {part : Part} (h : Reads allows part t rest) :
    part.IsRewritten R allows' g t rest := by
  induction h with
  | text h =>
    intro _
    obtain ⟨s', hs', hspells⟩ := hstring h
    refine ⟨_, .text hs', ?_⟩
    rw [hg.other rfl]
    exact .text hspells
  | emptyMap hend =>
    intro _
    refine ⟨_, .empty, ?_⟩
    rw [hg.other rfl]
    exact .emptyMap (hg.skipSpace_cons hend rfl)
  | map _ ih =>
    intro _
    obtain ⟨read', halike, hread⟩ := ih [] .empty
    rw [← hg.skipSpace] at hread
    refine ⟨_, halike, ?_⟩
    rw [hg.other rfl]
    exact .map hread
  | emptyList hend =>
    intro _
    refine ⟨_, .nil, ?_⟩
    rw [hg.other rfl]
    exact .emptyList (hg.skipSpace_cons hend rfl)
  | list _ ih =>
    intro _
    obtain ⟨items', halike, hread⟩ := ih
    rw [← hg.skipSpace] at hread
    refine ⟨_, halike, ?_⟩
    rw [hg.other rfl]
    exact .list hread
  | @scalar t rest v hother hscalar =>
    intro hrest
    refine ⟨_, .plain (isPlain_of_scalar hscalar), .scalar ?_ (hg.scalar hscalar hrest)⟩
    obtain ⟨c, u, rfl, -⟩ := scalar_passes hscalar
    have hc : isTouched c = false := by
      refine Bool.eq_false_iff.2 fun hc => ?_
      rcases eq_of_isTouched hc with rfl | rfl
      · exact absurd (beginsValue_of_scalar hscalar) (by decide)
      · exact absurd (beginsValue_of_scalar hscalar) (by decide)
    rw [hg.other hc]
    exact hother
  | lastMember hname hcolon _ hend ih =>
    intro written' halike
    obtain ⟨name', hname', hspells⟩ := hstring hname
    obtain ⟨v', hv', hread⟩ := ih (isClear_of_skipSpace_cons hend rfl)
    rw [← hg.skipSpace] at hread
    refine ⟨_, .insert halike hname' hv', ?_⟩
    rw [hg.other rfl]
    exact .lastMember hspells (hg.skipSpace_cons hcolon rfl) hread (hg.skipSpace_cons hend rfl)
  | member hname hcolon _ hcomma _ ihvalue ihmembers =>
    intro written' halike
    obtain ⟨name', hname', hspells⟩ := hstring hname
    obtain ⟨v', hv', hread⟩ := ihvalue (isClear_of_skipSpace_cons hcomma rfl)
    obtain ⟨read', halike', hmembers⟩ := ihmembers _ (.insert halike hname' hv')
    rw [← hg.skipSpace] at hread hmembers
    refine ⟨read', halike', ?_⟩
    rw [hg.other rfl]
    exact .member hspells (hg.skipSpace_cons hcolon rfl) hread (hg.skipSpace_cons hcomma rfl)
      hmembers
  | lastElement _ hend ih =>
    obtain ⟨v', hv', hread⟩ := ih (isClear_of_skipSpace_cons hend rfl)
    exact ⟨_, .cons hv' .nil, .lastElement hread (hg.skipSpace_cons hend rfl)⟩
  | element _ hcomma _ ihvalue ihelements =>
    obtain ⟨v', hv', hread⟩ := ihvalue (isClear_of_skipSpace_cons hcomma rfl)
    obtain ⟨items', halike, helements⟩ := ihelements
    rw [← hg.skipSpace] at helements
    exact ⟨_, .cons hv' halike, .element hread (hg.skipSpace_cons hcomma rfl) helements⟩

/-- Where a rewriting makes of each string another one, it makes of a document one of a value that
is alike. -/
theorem IsDocument.rewrite {v : Value} (h : IsDocument allows t v) :
    ∃ v', Alike R v v' ∧ IsDocument allows' (g t) v' := by
  obtain ⟨hmark, rest, hvalue, hend⟩ := h
  have hrest : IsClear rest := isClear_of_skipSpace (hend ▸ nofun)
  obtain ⟨v', halike, hread⟩ := isRewritten_of_reads hg hstring hvalue hrest
  rw [← hg.skipSpace] at hread
  refine ⟨v', halike, ?_, g rest, hread, by rw [hg.skipSpace, hend, hg.nil]⟩
  cases t with
  | nil =>
    rw [hg.nil]
    nofun
  | cons c t =>
    cases hc : isTouched c with
    | false =>
      rw [hg.other hc]
      exact hmark
    | true =>
      obtain ⟨d, u, heq, hd⟩ := hg.touched hc t
      rw [heq]
      rintro ⟨⟩
      cases hd

end

end StoryScript.Json
