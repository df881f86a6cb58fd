import Mathlib.Data.List.TakeDrop
import StoryScript.Markup.Span
import StoryScript.Proofs.Block.Objects

/-!
# The grammar of JSON

The texts that are read, as a relation with one rule for each form of a value. Main statement: the
reader returns a value exactly for the documents of that value (`Json.parse_eq_ok_iff`). What may be
spelled by its code in a string is left open, so that writers which escape less can be told from
those which escape more.
-/

namespace StoryScript.Json

variable {allows : Char → Prop} {t s rest start : Text}

/-! ## Passing over -/

/-- `Passes t rest`: something in front of `rest` was passed over in `t`. -/
def Passes (t rest : Text) : Prop := ∃ c u, t = c :: u ∧ rest <:+ u

namespace Passes

variable {u : Text}

theorem cons {c : Char} (h : rest <:+ t) : Passes (c :: t) rest := ⟨c, t, rfl, h⟩

theorem suffix (h : Passes t rest) : rest <:+ t := by
  obtain ⟨c, u, rfl, hrest⟩ := h
  exact hrest.trans (List.suffix_cons c u)

theorem of_suffix (h : u <:+ t) (hu : Passes u rest) : Passes t rest := by
  obtain ⟨front, rfl⟩ := h
  cases front with
  | nil => exact hu
  | cons c front => exact cons (hu.suffix.trans (List.suffix_append front u))

theorem trans_suffix (h : Passes t u) (hrest : rest <:+ u) : Passes t rest := by
  obtain ⟨c, v, rfl, hu⟩ := h
  exact cons (hrest.trans hu)

theorem length_lt (h : Passes t rest) : rest.length < t.length := by
  obtain ⟨c, u, rfl, hrest⟩ := h
  exact Nat.lt_succ_of_le hrest.length_le

end Passes

/-! ## Strings -/

/-- The code of a second escape that is the latter half of a surrogate pair, and what follows. -/
def lowEscape? (t : Text) : Option (Nat × Text) :=
  (Text.after? ['\\', 'u'] t).bind fun rest => (hexFour? rest).filter fun p => isLowSurrogate p.1

/-- The character that is spelled by its code behind the `u` of an escape, and what follows it. -/
def code? (t : Text) : Option (Char × Text) :=
  (hexFour? t).map fun (n, rest) =>
    match lowEscape? rest with
    | some (m, rest') =>
      if isHighSurrogate n then
        (Char.ofNat (0x10000 + (n - 0xD800) * 0x400 + (m - 0xDC00)), rest')
      else (charOf n, rest)
    | none => (charOf n, rest)

/-- Behind its opening quotation mark a string is spelled out in front of `rest`, and what is
spelled by its code is allowed to be. -/
inductive Spells (allows : Char → Prop) : (t s rest : Text) → Prop
  | close (rest : Text) : Spells allows ('"' :: rest) [] rest
  | char {c : Char} {t s rest : Text} (hmark : c ≠ '"') (hescape : c ≠ '\\')
      (hprintable : ¬ c.toNat ≤ 0x1F) (hrest : Spells allows t s rest) :
      Spells allows (c :: t) (c :: s) rest
  | simple {e c : Char} {t s rest : Text} (hescape : simpleEscape? e = some c)
      (hrest : Spells allows t s rest) : Spells allows ('\\' :: e :: t) (c :: s) rest
  | code {c : Char} {t t' s rest : Text} (hcode : code? t = some (c, t')) (hallows : allows c)
      (hrest : Spells allows t' s rest) : Spells allows ('\\' :: 'u' :: t) (c :: s) rest

theorem not_spells_nil : ¬ Spells allows [] s rest := nofun

theorem exists_of_spells_code (h : Spells allows ('\\' :: 'u' :: t) s rest) :
    ∃ n rest', hexFour? t = some (n, rest') ∧ rest' ≠ [] := by
  cases h with
  | char _ hescape => exact absurd rfl hescape
  | simple hescape => cases hescape
  | code hcode _ hrest =>
    obtain ⟨⟨n, rest'⟩, hhex, hpair⟩ := Option.map_eq_some_iff.1 hcode
    refine ⟨n, rest', hhex, ?_⟩
    rintro rfl
    obtain ⟨-, rfl⟩ := Prod.mk.inj hpair
    exact not_spells_nil hrest

theorem exists_of_hexFour? {n : Nat} (h : hexFour? t = some (n, rest)) :
    ∃ front : Text, front.length = 4 ∧ t = front ++ rest := by
  unfold hexFour? at h
  split at h
  · next a b c d _ =>
    split at h
    · obtain ⟨-, rfl⟩ := Prod.mk.inj (Option.some.inj h)
      exact ⟨[a, b, c, d], rfl, rfl⟩
    · cases h
  · cases h

theorem lowEscape?_eq {n : Nat} (h : hexFour? t = some (n, rest)) :
    lowEscape? ('\\' :: 'u' :: t) = if isLowSurrogate n then some (n, rest) else none := by
  show (hexFour? t).filter _ = _
  rw [h, Option.filter_some]

theorem eq_ok_iff_eq_some {ε α : Type} {x : Except ε α} {o : Option α} {a b : α} (hx : x = .ok a)
    (ho : o = some a) : x = .ok b ↔ o = some b := by
  rw [hx, ho, Except.ok.injEq, Option.some.injEq]

/-- A surrogate in front of a second escape that is followed by something. -/
theorem unicodeEscape_before_escape {n m : Nat} {c : Char} {t' tail : Text}
    (hhex : hexFour? t = some (n, '\\' :: 'u' :: tail)) (hhigh : isHighSurrogate n)
    (hlow : hexFour? tail = some (m, rest)) (hrest : rest ≠ []) :
    unicodeEscape 'u' t = .ok (c, t') ↔ code? t = some (c, t') := by
  obtain ⟨front, hfront, rfl⟩ := exists_of_hexFour? hlow
  have hfar : 6 < ('\\' :: 'u' :: (front ++ rest)).length := by
    have := List.length_pos_iff.2 hrest
    simp only [List.length_cons, List.length_append, hfront]
    omega
  unfold unicodeEscape code?
  rw [hhex]
  dsimp only [Option.map_some]
  rw [lowEscape?_eq hlow, if_neg (by simp), hhigh, Bool.true_and, if_pos (decide_eq_true hfar)]
  simp only [hlow]
  cases hpair : isLowSurrogate m <;> exact eq_ok_iff_eq_some rfl rfl

/-- Anything else that follows is left alone. -/
theorem unicodeEscape_before_other {n : Nat} {c : Char} {t' r : Text}
    (hhex : hexFour? t = some (n, r)) (hr : r ≠ [])
    (hother : isHighSurrogate n → ∀ tail, r ≠ '\\' :: 'u' :: tail) :
    unicodeEscape 'u' t = .ok (c, t') ↔ code? t = some (c, t') := by
  unfold unicodeEscape code?
  rw [hhex]
  dsimp only [Option.map_some]
  rw [if_neg (by simpa using hr)]
  cases hhigh : isHighSurrogate n with
  | false =>
    rw [Bool.false_and, if_neg nofun]
    cases lowEscape? r <;> exact eq_ok_iff_eq_some rfl rfl
  | true =>
    have hnone : lowEscape? r = none := by
      refine Option.bind_eq_none_iff.2 fun tail hafter => ?_
      exact absurd (Text.eq_append_of_after? hafter) (hother hhigh tail)
    rw [hnone]
    split
    · split
      · exact absurd rfl (hother hhigh _)
      · exact eq_ok_iff_eq_some rfl rfl
    · exact eq_ok_iff_eq_some rfl rfl

/-- A string goes on neither with a second escape that is none nor with one that ends the document,
however these are read. -/
theorem unicodeEscape_before_end {n : Nat} {c : Char} {t' tail : Text}
    (hhex : hexFour? t = some (n, '\\' :: 'u' :: tail)) (hhigh : isHighSurrogate n)
    (hends : ∀ m r', hexFour? tail = some (m, r') → r' = []) (hend : t' ≠ [])
    (hstops : t' ≠ '\\' :: 'u' :: tail) :
    unicodeEscape 'u' t = .ok (c, t') ↔ code? t = some (c, t') := by
  refine iff_of_false (fun heq => ?_) fun heq => ?_
  · unfold unicodeEscape at heq
    rw [hhex] at heq
    dsimp only at heq
    rw [if_neg (by simp), hhigh, Bool.true_and] at heq
    split at heq
    · next hfar =>
      cases hlow : hexFour? tail with
      | none => simp [hlow] at heq
      | some p =>
        obtain ⟨front, hfront, rfl⟩ := exists_of_hexFour? hlow
        simp [hfront, hends p.1 p.2 hlow] at hfar
    · exact hstops (Prod.mk.inj (Except.ok.inj heq)).2.symm
  · unfold code? at heq
    rw [hhex, Option.map_some] at heq
    dsimp only at heq
    split at heq
    · next m r' hpair =>
      obtain ⟨hlow, -⟩ := Option.filter_eq_some_iff.1 hpair
      obtain rfl := hends m r' hlow
      rw [if_pos hhigh] at heq
      exact hend (Prod.mk.inj (Option.some.inj heq)).2.symm
    · exact hstops (Prod.mk.inj (Option.some.inj heq)).2.symm

/-- How far away the end of the document is does not matter where the string goes on. -/
theorem unicodeEscape_eq_ok_iff {c : Char} {t' : Text} (h : Spells allows t' s rest) :
    unicodeEscape 'u' t = .ok (c, t') ↔ code? t = some (c, t') := by
  have hend : t' ≠ [] := fun hend => not_spells_nil (hend ▸ h)
  cases hhex : hexFour? t with
  | none => simp [unicodeEscape, code?, hhex]
  | some p =>
    obtain ⟨n, r⟩ := p
    by_cases hr : r = []
    · subst hr
      simp [unicodeEscape, code?, hhex, lowEscape?, Text.after?, Ne.symm hend]
    by_cases hescape : isHighSurrogate n ∧ ∃ tail, r = '\\' :: 'u' :: tail
    case neg =>
      exact unicodeEscape_before_other hhex hr fun hhigh tail heq => hescape ⟨hhigh, tail, heq⟩
    obtain ⟨hhigh, tail, rfl⟩ := hescape
    by_cases hlow : ∃ m r', hexFour? tail = some (m, r') ∧ r' ≠ []
    · obtain ⟨m, r', hlow, hr'⟩ := hlow
      exact unicodeEscape_before_escape hhex hhigh hlow hr'
    have hstops : t' ≠ '\\' :: 'u' :: tail := fun heq => hlow (exists_of_spells_code (heq ▸ h))
    have hends (m : Nat) (r' : Text) (hhex : hexFour? tail = some (m, r')) : r' = [] :=
      Classical.not_not.1 fun hr' => hlow ⟨m, r', hhex, hr'⟩
    exact unicodeEscape_before_end hhex hhigh hends hend hstops

theorem hexFour?_suffix {n : Nat} (h : hexFour? t = some (n, rest)) : rest <:+ t := by
  obtain ⟨front, -, rfl⟩ := exists_of_hexFour? h
  exact List.suffix_append front rest

theorem lowEscape?_suffix {n : Nat} (h : lowEscape? t = some (n, rest)) : rest <:+ t := by
  obtain ⟨u, hafter, hlow⟩ := Option.bind_eq_some_iff.1 h
  obtain ⟨hhex, -⟩ := Option.filter_eq_some_iff.1 hlow
  rw [Text.eq_append_of_after? hafter]
  exact (hexFour?_suffix hhex).trans (List.suffix_append _ u)

theorem code?_suffix {c : Char} (h : code? t = some (c, rest)) : rest <:+ t := by
  obtain ⟨⟨n, r⟩, hhex, hpair⟩ := Option.map_eq_some_iff.1 h
  have hr := hexFour?_suffix hhex
  dsimp only at hpair
  split at hpair
  · next m r' hlow =>
    split at hpair
    · obtain ⟨-, rfl⟩ := Prod.mk.inj hpair
      exact (lowEscape?_suffix hlow).trans hr
    · obtain ⟨-, rfl⟩ := Prod.mk.inj hpair
      exact hr
  · obtain ⟨-, rfl⟩ := Prod.mk.inj hpair
    exact hr

theorem Spells.passes (h : Spells allows t s rest) : Passes t rest := by
  induction h with
  | close rest => exact .cons List.suffix_rfl
  | char _ _ _ _ ih => exact .cons ih.suffix
  | simple _ _ ih => exact .cons (ih.suffix.trans (List.suffix_cons _ _))
  | code hcode _ _ ih =>
    exact .cons ((ih.suffix.trans (code?_suffix hcode)).trans (List.suffix_cons _ _))

theorem spells_of_stringBody {fuel : Nat} (h : stringBody start fuel t = .ok (s, rest)) :
    Spells (fun _ => True) t s rest := by
  induction fuel generalizing t s with
  | zero => cases h
  | succ fuel ih =>
    rw [stringBody.eq_def] at h
    dsimp only at h
    split at h
    · cases h
    · cases h
      exact .close rest
    · cases h
    · obtain ⟨⟨c, t'⟩, hcode, h⟩ := exists_of_bind_eq_ok h
      obtain ⟨⟨s', u⟩, hrest, h⟩ := exists_of_bind_eq_ok h
      cases h
      have hspells := ih hrest
      exact .code ((unicodeEscape_eq_ok_iff hspells).1 hcode) trivial hspells
    · split at h
      · next hescape =>
        obtain ⟨⟨s', u⟩, hrest, h⟩ := exists_of_bind_eq_ok h
        cases h
        exact .simple hescape (ih hrest)
      · cases h
    · next c more hmark hend _ hescape =>
      have hne : c ≠ '\\' := by
        rintro rfl
        cases more with
        | nil => exact hend rfl rfl
        | cons e more => exact hescape e more rfl rfl
      split at h
      · cases h
      · next hprintable =>
        obtain ⟨⟨s', u⟩, hrest, h⟩ := exists_of_bind_eq_ok h
        cases h
        exact .char hmark hne hprintable (ih hrest)

section

variable (start : Text) (fuel : Nat) (t : Text)

theorem stringBody_char {c : Char} (hmark : c ≠ '"') (hescape : c ≠ '\\')
    (hprintable : ¬ c.toNat ≤ 0x1F) :
    stringBody start (fuel + 1) (c :: t) =
      (stringBody start fuel t).map fun p => (c :: p.1, p.2) := by
  rw [stringBody.eq_def]
  dsimp only
  split
  next heq => cases heq
  next heq => exact absurd (List.cons.inj heq).1 hmark
  next heq => exact absurd (List.cons.inj heq).1 hescape
  next heq => exact absurd (List.cons.inj heq).1 hescape
  next heq => exact absurd (List.cons.inj heq).1 hescape
  next heq =>
    obtain ⟨rfl, rfl⟩ := List.cons.inj heq
    rw [if_neg hprintable]
    rfl

theorem stringBody_simple {e c : Char} (h : simpleEscape? e = some c) :
    stringBody start (fuel + 1) ('\\' :: e :: t) =
      (stringBody start fuel t).map fun p => (c :: p.1, p.2) := by
  have hcode : e ≠ 'u' := by
    rintro rfl
    cases h
  rw [stringBody.eq_def]
  dsimp only
  split
  next heq => cases heq
  next heq => cases heq
  next heq => cases heq
  next heq => exact absurd (List.cons.inj (List.cons.inj heq).2).1 hcode
  next heq =>
    obtain ⟨rfl, rfl⟩ := List.cons.inj (List.cons.inj heq).2
    rw [h]
    rfl
  next hescape heq =>
    obtain ⟨rfl, rfl⟩ := List.cons.inj heq
    exact absurd rfl (hescape _ _ rfl)

theorem stringBody_code {c : Char} {t' : Text} (h : unicodeEscape 'u' t = .ok (c, t')) :
    stringBody start (fuel + 1) ('\\' :: 'u' :: t) =
      (stringBody start fuel t').map fun p => (c :: p.1, p.2) := by
  rw [stringBody]
  simp only [h]
  rfl

end

theorem stringBody_of_spells {fuel : Nat} (h : Spells allows t s rest) (hfuel : t.length ≤ fuel) :
    stringBody start fuel t = .ok (s, rest) := by
  induction h generalizing fuel with
  | close rest =>
    cases fuel with
    | zero => cases hfuel
    | succ fuel => rfl
  | char hmark hescape hprintable hrest ih =>
    cases fuel with
    | zero => cases hfuel
    | succ fuel =>
      rw [stringBody_char start fuel _ hmark hescape hprintable,
        ih (Nat.le_of_succ_le_succ hfuel)]
      rfl
  | simple hescape hrest ih =>
    cases fuel with
    | zero => cases hfuel
    | succ fuel =>
      rw [stringBody_simple start fuel _ hescape,
        ih (Nat.le_of_succ_le (Nat.le_of_succ_le_succ hfuel))]
      rfl
  | code hcode hallows hrest ih =>
    cases fuel with
    | zero => cases hfuel
    | succ fuel =>
      simp only [List.length_cons] at hfuel
      have hlength := (code?_suffix hcode).length_le
      rw [stringBody_code start fuel _ ((unicodeEscape_eq_ok_iff hrest).2 hcode), ih (by omega)]
      rfl

theorem string_of_spells (h : Spells allows t s rest) : string ('"' :: t) = .ok (s, rest) :=
  stringBody_of_spells h (Nat.le_succ t.length)

/-! ## Numbers and names -/

theorem digits_suffix (t : Text) : (digits t).2 <:+ t := by
  rw [digits, List.span_eq_takeWhile_dropWhile]
  exact List.dropWhile_suffix _

theorem fraction_suffix (t : Text) : (fraction t).2 <:+ t := by
  unfold fraction
  split
  · next rest =>
    split
    · exact List.suffix_rfl
    · next heq =>
      have h := digits_suffix rest
      rw [heq] at h
      exact h.trans (List.suffix_cons _ _)
  · exact List.suffix_rfl

/-- The sign of an exponent, and what follows it. -/
def exponentSign (t : Text) : Bool × Text :=
  match t with
  | '-' :: rest => (true, rest)
  | '+' :: rest => (false, rest)
  | rest => (false, rest)

theorem exponent_cons (e : Char) (t : Text) :
    exponent (e :: t) =
      if e = 'e' || e = 'E' then
        match digits (exponentSign t).2 with
        | ([], _) => (none, e :: t)
        | (ds, rest) =>
          (some (if (exponentSign t).1 then -(ofDigits ds : Int) else ofDigits ds), rest)
      else (none, e :: t) := rfl

theorem exponentSign_suffix (t : Text) : (exponentSign t).2 <:+ t := by
  unfold exponentSign
  split
  · exact List.suffix_cons _ _
  · exact List.suffix_cons _ _
  · exact List.suffix_rfl

theorem exponent_suffix (t : Text) : (exponent t).2 <:+ t := by
  cases t with
  | nil => exact List.suffix_rfl
  | cons e t =>
    rw [exponent_cons]
    split
    · split
      · exact List.suffix_rfl
      · next heq =>
        have h := digits_suffix (exponentSign t).2
        rw [heq] at h
        exact (h.trans (exponentSign_suffix t)).trans (List.suffix_cons e t)
    · exact List.suffix_rfl

/-- The sign of a number, and what follows it. -/
def sign (t : Text) : Bool × Text :=
  match t with
  | '-' :: rest => (true, rest)
  | _ => (false, t)

def whole (t : Text) : Text × Text :=
  match t with
  | '0' :: rest => (['0'], rest)
  | _ => digits t

/-- The parts that a number is read in. -/
structure NumberParts where
  negative : Bool
  whole : Text
  frac : Option Text
  exp : Option Int

def NumberParts.value? (p : NumberParts) : Option Value :=
  if p.whole.isEmpty then none
  else
    match p.frac, p.exp with
    | none, none =>
      if maxDigits < p.whole.length then none
      else some (.int (if p.negative then -(ofDigits p.whole : Int) else ofDigits p.whole))
    | _, _ =>
      let ds := p.frac.getD []
      some (.float (.ofDecimal p.negative (ofDigits (p.whole ++ ds)) (p.exp.getD 0 - ds.length)))

def numberParts (t : Text) : NumberParts × Text :=
  let (negative, t) := sign t
  let (whole, t) := whole t
  let (frac, t) := fraction t
  let (exp, t) := exponent t
  (⟨negative, whole, frac, exp⟩, t)

theorem number_eq (t : Text) :
    number t =
      let p := (numberParts t).1
      if p.whole.isEmpty then .error ⟨.expectingValue, t⟩
      else
        match p.frac, p.exp with
        | none, none =>
          if maxDigits < p.whole.length then .error ⟨.integerTooLong, t⟩
          else
            .ok (.int (if p.negative then -(ofDigits p.whole : Int) else ofDigits p.whole),
              (numberParts t).2)
        | _, _ =>
          let ds := p.frac.getD []
          .ok (.float (.ofDecimal p.negative (ofDigits (p.whole ++ ds))
            (p.exp.getD 0 - ds.length)), (numberParts t).2) := rfl

theorem number_eq_ok_iff {v : Value} :
    number t = .ok (v, rest) ↔ (numberParts t).1.value? = some v ∧ (numberParts t).2 = rest := by
  rw [number_eq, NumberParts.value?]
  dsimp only
  split
  · exact iff_of_false nofun nofun
  · split
    · split
      · exact iff_of_false nofun nofun
      · simp
    · simp

theorem sign_suffix (t : Text) : (sign t).2 <:+ t := by
  unfold sign
  split
  · exact List.suffix_cons _ _
  · exact List.suffix_rfl

theorem whole_passes (h : (whole t).1 ≠ []) : Passes t (whole t).2 := by
  unfold whole at h ⊢
  split
  · exact .cons List.suffix_rfl
  · next hzero =>
    split at h
    · exact absurd rfl (hzero _)
    · rw [digits, List.span_eq_takeWhile_dropWhile] at h ⊢
      cases t with
      | nil => exact absurd rfl h
      | cons c u =>
        by_cases hc : c.isDigit
        · dsimp only
          rw [List.dropWhile_cons_of_pos hc]
          exact .cons (List.dropWhile_suffix _)
        · exact absurd (List.takeWhile_cons_of_neg hc) h

theorem whole_of_not_digit {c : Char} (hc : ¬ c.isDigit) (t : Text) :
    (whole (c :: t)).1 = [] := by
  unfold whole
  split
  · next heq =>
    obtain ⟨rfl, -⟩ := List.cons.inj heq
    exact absurd rfl hc
  · rw [digits, List.span_eq_takeWhile_dropWhile]
    exact List.takeWhile_cons_of_neg hc

theorem whole_ne_nil {v : Value} (h : number t = .ok (v, rest)) : (whole (sign t).2).1 ≠ [] := by
  obtain ⟨hvalue, -⟩ := number_eq_ok_iff.1 h
  intro hempty
  rw [NumberParts.value?, if_pos (by simp [numberParts, hempty])] at hvalue
  cases hvalue

theorem number_passes {v : Value} (h : number t = .ok (v, rest)) : Passes t rest := by
  have hwhole := whole_passes (whole_ne_nil h)
  obtain ⟨-, rfl⟩ := number_eq_ok_iff.1 h
  refine .of_suffix (sign_suffix t) (hwhole.trans_suffix ?_)
  exact (exponent_suffix _).trans (fraction_suffix _)

/-- What is neither a string nor a container. -/
def scalar (t : Text) : Except Stop (Value × Text) :=
  match named? t with
  | some found => .ok found
  | none => number t

theorem exists_of_named? {v : Value} (h : named? t = some (v, rest)) :
    ∃ n ∈ named, n.2 = v ∧ t = n.1 ++ rest := by
  obtain ⟨n, hn, hvalue⟩ := List.exists_of_findSome?_eq_some h
  obtain ⟨u, hafter, hpair⟩ := Option.map_eq_some_iff.1 hvalue
  obtain ⟨hv, rfl⟩ := Prod.mk.inj hpair
  exact ⟨n, hn, hv, Text.eq_append_of_after? hafter⟩

theorem scalar_passes {v : Value} (h : scalar t = .ok (v, rest)) : Passes t rest := by
  unfold scalar at h
  split at h
  · next found hfound =>
    obtain rfl := Except.ok.inj h
    obtain ⟨n, hn, -, rfl⟩ := exists_of_named? hfound
    have hname : ∀ n ∈ named, n.1 ≠ [] := by decide
    obtain ⟨c, cs, hcons⟩ := List.exists_cons_of_ne_nil (hname n hn)
    rw [hcons]
    exact .cons (List.suffix_append cs rest)
  · exact number_passes h

/-- The characters that a value begins with. -/
def beginsValue (c : Char) : Bool :=
  c.isDigit || ['"', '{', '[', '-', 'n', 't', 'f', 'N', 'I'].contains c

theorem beginsValue_of_scalar {c : Char} {v : Value} (h : scalar (c :: t) = .ok (v, rest)) :
    beginsValue c := by
  unfold scalar at h
  split at h
  · next found hfound =>
    obtain ⟨n, hn, -, hhead⟩ := exists_of_named? hfound
    have hname : ∀ n ∈ named, n.1 ≠ [] ∧ n.1.head?.all beginsValue := by decide
    obtain ⟨hne, hbegins⟩ := hname n hn
    obtain ⟨m, ms, hcons⟩ := List.exists_cons_of_ne_nil hne
    rw [hcons] at hhead hbegins
    obtain ⟨rfl, -⟩ := List.cons.inj hhead
    exact hbegins
  · by_cases hminus : c = '-'
    · rw [hminus]
      rfl
    · have hsign : sign (c :: t) = (false, c :: t) := by
        unfold sign
        split
        · next heq => exact absurd (List.cons.inj heq).1 hminus
        · rfl
      have hdigit : c.isDigit := by
        refine Classical.not_not.1 fun hc => whole_ne_nil h ?_
        rw [hsign, whole_of_not_digit hc]
      rw [beginsValue, hdigit, Bool.true_or]

/-! ## Values -/

/-- What a part of a document stands for: a value, the members of an object from a name on, which
are written to a table, or the elements of a list. -/
inductive Part where
  | value (v : Value)
  | members (written read : Table Text Value)
  | elements (items : List Value)

/-- A part of a document stands in front of `rest`. -/
inductive Reads (allows : Char → Prop) : Part → (t rest : Text) → Prop
  | text {t s rest : Text} (hstring : Spells allows t s rest) :
      Reads allows (.value (.text s)) ('"' :: t) rest
  | emptyMap {t rest : Text} (hend : skipSpace t = '}' :: rest) :
      Reads allows (.value (.map [])) ('{' :: t) rest
  | map {t rest : Text} {entries : Table Text Value}
      (hmembers : Reads allows (.members [] entries) (skipSpace t) rest) :
      Reads allows (.value (.map entries)) ('{' :: t) rest
  | emptyList {t rest : Text} (hend : skipSpace t = ']' :: rest) :
      Reads allows (.value (.list [])) ('[' :: t) rest
  | list {t rest : Text} {items : List Value}
      (helements : Reads allows (.elements items) (skipSpace t) rest) :
      Reads allows (.value (.list items)) ('[' :: t) rest
  | scalar {t rest : Text} {v : Value} (hother : ∀ c ∈ t.head?, c ∉ ['"', '{', '['])
      (hscalar : scalar t = .ok (v, rest)) : Reads allows (.value v) t rest
  | lastMember {t u u' w rest name : Text} {v : Value} {entries : Table Text Value}
      (hname : Spells allows t name u) (hcolon : skipSpace u = ':' :: u')
      (hvalue : Reads allows (.value v) (skipSpace u') w) (hend : skipSpace w = '}' :: rest) :
      Reads allows (.members entries (entries.insert name v)) ('"' :: t) rest
  | member {t u u' w w' rest name : Text} {v : Value} {entries read : Table Text Value}
      (hname : Spells allows t name u) (hcolon : skipSpace u = ':' :: u')
      (hvalue : Reads allows (.value v) (skipSpace u') w) (hcomma : skipSpace w = ',' :: w')
      (hmembers : Reads allows (.members (entries.insert name v) read) (skipSpace w') rest) :
      Reads allows (.members entries read) ('"' :: t) rest
  | lastElement {t u rest : Text} {v : Value} (hvalue : Reads allows (.value v) t u)
      (hend : skipSpace u = ']' :: rest) : Reads allows (.elements [v]) t rest
  | element {t u u' rest : Text} {v : Value} {items : List Value}
      (hvalue : Reads allows (.value v) t u) (hcomma : skipSpace u = ',' :: u')
      (helements : Reads allows (.elements items) (skipSpace u') rest) :
      Reads allows (.elements (v :: items)) t rest

/-- One value with white space around it. -/
def IsDocument (allows : Char → Prop) (t : Text) (v : Value) : Prop :=
  t.head? ≠ some '\uFEFF' ∧
    ∃ rest, Reads allows (.value v) (skipSpace t) rest ∧ skipSpace rest = []

theorem skipSpace_suffix (t : Text) : skipSpace t <:+ t := List.dropWhile_suffix isSpace

/-! ## What is read is in the grammar -/

/-- What is read with some fuel is in the grammar. -/
structure IsSound (fuel : Nat) : Prop where
  value : ∀ {t rest v}, Json.value fuel t = .ok (v, rest) →
    Reads (fun _ => True) (.value v) t rest
  members : ∀ {t rest entries read}, Json.members fuel entries t = .ok (read, rest) →
    Reads (fun _ => True) (.members entries read) t rest
  elements : ∀ {t rest items}, Json.elements fuel t = .ok (items, rest) →
    Reads (fun _ => True) (.elements items) t rest

theorem reads_of_value {fuel : Nat} (hsound : IsSound fuel) {v : Value}
    (h : value (fuel + 1) t = .ok (v, rest)) : Reads (fun _ => True) (.value v) t rest := by
  rw [value.eq_def] at h
  dsimp only at h
  split at h
  · obtain ⟨⟨s, u⟩, hstring, h⟩ := exists_of_bind_eq_ok h
    cases h
    exact .text (spells_of_stringBody hstring)
  · split at h
    · next hend =>
      cases h
      exact .emptyMap hend
    · obtain ⟨⟨read, u⟩, hmembers, h⟩ := exists_of_bind_eq_ok h
      cases h
      exact .map (hsound.members hmembers)
  · split at h
    · next hend =>
      cases h
      exact .emptyList hend
    · obtain ⟨⟨items, u⟩, helements, h⟩ := exists_of_bind_eq_ok h
      cases h
      exact .list (hsound.elements helements)
  · next hmark hbrace hbracket =>
    refine .scalar (fun c hc hmem => ?_) h
    obtain ⟨tail, rfl⟩ := List.head?_eq_some_iff.1 hc
    rcases List.mem_cons.1 hmem with rfl | hmem
    · exact hmark _ rfl
    · rcases List.mem_cons.1 hmem with rfl | hmem
      · exact hbrace _ rfl
      · obtain rfl := List.mem_singleton.1 hmem
        exact hbracket _ rfl

theorem reads_of_members {fuel : Nat} (hsound : IsSound fuel)
    {entries read : Table Text Value} (h : members (fuel + 1) entries t = .ok (read, rest)) :
    Reads (fun _ => True) (.members entries read) t rest := by
  rw [members.eq_def] at h
  dsimp only at h
  split at h
  · obtain ⟨⟨name, u⟩, hname, h⟩ := exists_of_bind_eq_ok h
    have hspells := spells_of_stringBody hname
    dsimp only at h
    split at h
    · next hcolon =>
      obtain ⟨⟨v, w⟩, hvalue, h⟩ := exists_of_bind_eq_ok h
      dsimp only at h
      split at h
      · next hend =>
        cases h
        exact .lastMember hspells hcolon (hsound.value hvalue) hend
      · next hcomma =>
        exact .member hspells hcolon (hsound.value hvalue) hcomma (hsound.members h)
      · cases h
    · cases h
  · cases h

theorem reads_of_elements {fuel : Nat} (hsound : IsSound fuel) {items : List Value}
    (h : elements (fuel + 1) t = .ok (items, rest)) :
    Reads (fun _ => True) (.elements items) t rest := by
  rw [elements] at h
  obtain ⟨⟨v, u⟩, hvalue, h⟩ := exists_of_bind_eq_ok h
  dsimp only at h
  split at h
  · next hend =>
    cases h
    exact .lastElement (hsound.value hvalue) hend
  · next hcomma =>
    obtain ⟨⟨vs, w⟩, helements, h⟩ := exists_of_bind_eq_ok h
    cases h
    exact .element (hsound.value hvalue) hcomma (hsound.elements helements)
  · cases h

theorem isSound (fuel : Nat) : IsSound fuel := by
  induction fuel with
  | zero => exact ⟨nofun, nofun, nofun⟩
  | succ fuel ih => exact ⟨reads_of_value ih, reads_of_members ih, reads_of_elements ih⟩

/-! ## What is in the grammar is read -/

theorem skipSpace_cons_suffix {c : Char} (h : skipSpace t = c :: rest) : rest <:+ t :=
  (List.suffix_cons c rest).trans (h ▸ skipSpace_suffix t)

section

variable {u u' w name : Text} {v : Value} (hname : Spells allows t name u)
  (hcolon : skipSpace u = ':' :: u')

include hname hcolon

theorem name_passes : Passes t (skipSpace u') :=
  hname.passes.trans_suffix ((skipSpace_suffix u').trans (skipSpace_cons_suffix hcolon))

theorem members_of_member {fuel : Nat} (entries : Table Text Value)
    (hvalue : value fuel (skipSpace u') = .ok (v, w)) :
    members (fuel + 1) entries ('"' :: t) =
      match skipSpace w with
      | '}' :: rest => .ok (entries.insert name v, rest)
      | ',' :: rest => members fuel (entries.insert name v) (skipSpace rest)
      | rest => .error ⟨.expectingComma, rest⟩ := by
  rw [members, string_of_spells hname]
  dsimp only [bind, Except.bind]
  rw [hcolon]
  simp only [hvalue]
  rfl

end

theorem Reads.passes {part : Part} (h : Reads allows part t rest) : Passes t rest := by
  induction h with
  | text hstring => exact .cons hstring.passes.suffix
  | emptyMap hend => exact .cons (skipSpace_cons_suffix hend)
  | map _ ih => exact .cons (ih.suffix.trans (skipSpace_suffix _))
  | emptyList hend => exact .cons (skipSpace_cons_suffix hend)
  | list _ ih => exact .cons (ih.suffix.trans (skipSpace_suffix _))
  | scalar _ hscalar => exact scalar_passes hscalar
  | lastMember hname hcolon _ hend ih =>
    have hvalue := ih.suffix.trans (name_passes hname hcolon).suffix
    exact .cons ((skipSpace_cons_suffix hend).trans hvalue)
  | member hname hcolon _ hcomma _ ihvalue ihmembers =>
    have hvalue := ihvalue.suffix.trans (name_passes hname hcolon).suffix
    have hmembers := ihmembers.suffix.trans (skipSpace_suffix _)
    exact .cons ((hmembers.trans (skipSpace_cons_suffix hcomma)).trans hvalue)
  | lastElement _ hend ih => exact ih.trans_suffix (skipSpace_cons_suffix hend)
  | element _ hcomma _ ihvalue ihelements =>
    exact ihvalue.trans_suffix ((ihelements.suffix.trans (skipSpace_suffix _)).trans
      (skipSpace_cons_suffix hcomma))

theorem Reads.beginsValue {part : Part} {c : Char} (h : Reads allows part (c :: t) rest) :
    beginsValue c := by
  generalize ht : c :: t = u at h
  induction h with
  | text | emptyMap | map | emptyList | list | lastMember | member =>
    obtain ⟨rfl, -⟩ := List.cons.inj ht
    rfl
  | scalar _ hscalar => exact beginsValue_of_scalar (ht ▸ hscalar)
  | lastElement _ _ ih => exact ih ht
  | element _ _ _ ih => exact ih ht

/-- What the reader has to do with a part of a document; `fuel` is enough for its length. -/
def Part.IsRead (t rest : Text) : Part → Prop
  | value v => ∀ fuel, 2 * t.length < fuel → Json.value fuel t = .ok (v, rest)
  | members written read =>
    ∀ fuel, 2 * t.length < fuel → Json.members fuel written t = .ok (read, rest)
  | elements items => ∀ fuel, 2 * t.length + 1 < fuel → Json.elements fuel t = .ok (items, rest)

theorem isRead_of_reads {part : Part} (h : Reads allows part t rest) : part.IsRead t rest := by
  induction h with
  | text hstring =>
    rintro (_ | fuel) hfuel
    · cases hfuel
    · rw [value, string_of_spells hstring]
      rfl
  | emptyMap hend =>
    rintro (_ | fuel) hfuel
    · cases hfuel
    · rw [value, hend]
      rfl
  | @map t rest entries hmembers ih =>
    rintro (_ | fuel) hfuel
    · cases hfuel
    · have hlength := (skipSpace_suffix t).length_le
      rw [List.length_cons] at hfuel
      rw [value]
      split
      · next hend => exact absurd (Reads.beginsValue (hend ▸ hmembers)) (by decide)
      · rw [ih fuel (by omega)]
        rfl
  | emptyList hend =>
    rintro (_ | fuel) hfuel
    · cases hfuel
    · rw [value, hend]
      rfl
  | @list t rest items helements ih =>
    rintro (_ | fuel) hfuel
    · cases hfuel
    · have hlength := (skipSpace_suffix t).length_le
      rw [List.length_cons] at hfuel
      rw [value]
      split
      · next hend => exact absurd (Reads.beginsValue (hend ▸ helements)) (by decide)
      · rw [ih fuel (by omega)]
        rfl
  | scalar hother hscalar =>
    rintro (_ | fuel) hfuel
    · cases hfuel
    · rw [value.eq_def]
      dsimp only
      split
      · exact absurd (hother _ rfl) (by decide)
      · exact absurd (hother _ rfl) (by decide)
      · exact absurd (hother _ rfl) (by decide)
      · exact hscalar
  | @lastMember t u u' w rest name v entries hname hcolon hvalue hend ih =>
    rintro (_ | fuel) hfuel
    · cases hfuel
    · have hlength := (name_passes hname hcolon).length_lt
      rw [List.length_cons] at hfuel
      rw [members_of_member hname hcolon entries (ih fuel (by omega)), hend]
      rfl
  | @member t u u' w w' rest name v entries read hname hcolon hvalue hcomma hmembers ihvalue
      ihmembers =>
    rintro (_ | fuel) hfuel
    · cases hfuel
    · have hlength := (name_passes hname hcolon).length_lt
      have hrest := hvalue.passes.length_lt
      have hcomma' := (skipSpace_cons_suffix hcomma).length_le
      have hskip := (skipSpace_suffix w').length_le
      rw [List.length_cons] at hfuel
      rw [members_of_member hname hcolon entries (ihvalue fuel (by omega)), hcomma]
      exact ihmembers fuel (by omega)
  | @lastElement t u rest v hvalue hend ih =>
    rintro (_ | fuel) hfuel
    · cases hfuel
    · rw [elements, ih fuel (by omega)]
      dsimp only [bind, Except.bind]
      rw [hend]
      rfl
  | @element t u u' rest v items hvalue hcomma helements ihvalue ihelements =>
    rintro (_ | fuel) hfuel
    · cases hfuel
    · have hrest := hvalue.passes.length_lt
      have hcomma' := (skipSpace_suffix u).length_le
      have hskip := (skipSpace_suffix u').length_le
      rw [hcomma, List.length_cons] at hcomma'
      rw [elements, ihvalue fuel (by omega)]
      dsimp only [bind, Except.bind]
      rw [hcomma]
      simp only [ihelements fuel (by omega)]
      rfl

/-! ## Documents -/

theorem document_of_isDocument {v : Value} (h : IsDocument allows t v) : document t = .ok v := by
  obtain ⟨hmark, rest, hvalue, hend⟩ := h
  have hlength := (skipSpace_suffix t).length_le
  have hread := isRead_of_reads hvalue (2 * t.length + 2) (by omega)
  unfold document
  split
  · exact absurd rfl hmark
  · rw [hread]
    dsimp only [bind, Except.bind]
    rw [hend]
    rfl

theorem isDocument_of_document {v : Value} (h : document t = .ok v) :
    IsDocument (fun _ => True) t v := by
  unfold document at h
  split at h
  · cases h
  · next hmark =>
    obtain ⟨⟨w, rest⟩, hvalue, h⟩ := exists_of_bind_eq_ok h
    dsimp only at h
    split at h
    · next hend =>
      cases h
      refine ⟨fun hhead => ?_, rest, (isSound _).value hvalue, hend⟩
      obtain ⟨u, rfl⟩ := List.head?_eq_some_iff.1 hhead
      exact hmark u rfl
    · cases h

theorem parse_of_isDocument {v : Value} (h : IsDocument allows t v) : parse t = .ok v := by
  rw [parse, document_of_isDocument h]

/-- What is read of a text is what it is a document of. -/
theorem parse_eq_ok_iff {v : Value} : parse t = .ok v ↔ IsDocument (fun _ => True) t v := by
  refine ⟨fun h => ?_, parse_of_isDocument⟩
  unfold parse at h
  split at h
  · next hdocument =>
    obtain rfl := Except.ok.inj h
    exact isDocument_of_document hdocument
  · cases h

/-! ## Escapes -/

theorem Spells.of_no_escape {allows' : Char → Prop} (h : Spells allows t s rest)
    (ht : '\\' ∉ t) : Spells allows' t s rest := by
  induction h with
  | close rest => exact .close rest
  | char hmark hescape hprintable _ ih =>
    exact .char hmark hescape hprintable (ih (List.not_mem_of_not_mem_cons ht))
  | simple | code => exact absurd List.mem_cons_self ht

/-- Where there is no escape, nothing is spelled by its code. -/
theorem Reads.of_no_escape {allows' : Char → Prop} {part : Part} (h : Reads allows part t rest)
    (ht : '\\' ∉ t) : Reads allows' part t rest := by
  have hsuffix {t u : Text} (h : u <:+ t) (ht : '\\' ∉ t) : '\\' ∉ u := fun hu => ht (h.subset hu)
  induction h with
  | text hstring => exact .text (hstring.of_no_escape (hsuffix (List.suffix_cons _ _) ht))
  | emptyMap hend => exact .emptyMap hend
  | map _ ih =>
    exact .map (ih (hsuffix (skipSpace_suffix _) (hsuffix (List.suffix_cons _ _) ht)))
  | emptyList hend => exact .emptyList hend
  | list _ ih =>
    exact .list (ih (hsuffix (skipSpace_suffix _) (hsuffix (List.suffix_cons _ _) ht)))
  | scalar hother hscalar => exact .scalar hother hscalar
  | lastMember hname hcolon _ hend ih =>
    have ht := hsuffix (List.suffix_cons _ _) ht
    exact .lastMember (hname.of_no_escape ht) hcolon
      (ih (hsuffix (name_passes hname hcolon).suffix ht)) hend
  | member hname hcolon hvalue hcomma _ ihvalue ihmembers =>
    have ht := hsuffix (List.suffix_cons _ _) ht
    have hv := hsuffix (name_passes hname hcolon).suffix ht
    have hw := hsuffix (skipSpace_cons_suffix hcomma) (hsuffix hvalue.passes.suffix hv)
    exact .member (hname.of_no_escape ht) hcolon (ihvalue hv) hcomma
      (ihmembers (hsuffix (skipSpace_suffix _) hw))
  | lastElement _ hend ih => exact .lastElement (ih ht) hend
  | element hvalue hcomma _ ihvalue ihelements =>
    have hu := hsuffix (skipSpace_cons_suffix hcomma) (hsuffix hvalue.passes.suffix ht)
    exact .element (ihvalue ht) hcomma (ihelements (hsuffix (skipSpace_suffix _) hu))

theorem isDocument_of_no_escape {v : Value} (h : parse t = .ok v) (ht : '\\' ∉ t) :
    IsDocument allows t v := by
  obtain ⟨hmark, rest, hvalue, hend⟩ := parse_eq_ok_iff.1 h
  exact ⟨hmark, rest, hvalue.of_no_escape fun hmem => ht ((skipSpace_suffix t).subset hmem), hend⟩

end StoryScript.Json
