import Mathlib.Data.Nat.Digits.Defs
import StoryScript.Number.Literal
import StoryScript.Proofs.Number.Integers

/-!
# Integers that are read exactly

Authors write an integer as a sign or none and digits of any script, with single underscores between
them (`IntegerLiteral`). Main statement: a quantity that is such a literal is read as the integer
that it denotes, if a floating-point number is that integer
(`IntegerLiteral.exists_read?_written`).
-/

namespace StoryScript

namespace Digit

theorem toNat_of_isDigit {c : Char} (h : isDigit c) :
    48 ≤ c.toNat ∧ c.toNat ≤ 57 ∨ ∃ z ∈ zeros, z ≤ c.toNat ∧ c.toNat < z + 10 := by
  unfold isDigit value? at h
  split at h
  · split at h
    · next hdigit =>
      simp only [Char.isDigit, Bool.and_eq_true, decide_eq_true_eq, ge_iff_le,
        UInt32.le_iff_toNat_le] at hdigit
      exact .inl hdigit
    · cases h
  · rw [Option.isSome_map, List.find?_isSome] at h
    obtain ⟨z, hz, hrange⟩ := h
    simp only [Bool.and_eq_true, decide_eq_true_eq] at hrange
    exact .inr ⟨z, hz, hrange⟩

/-- Below the digits of other scripts there are none but the ASCII ones. -/
theorem toNat_bounds_of_isDigit {c : Char} (h : isDigit c) :
    48 ≤ c.toNat ∧ c.toNat ≤ 57 ∨ 0x660 ≤ c.toNat := by
  rcases toNat_of_isDigit h with hascii | ⟨z, hz, hle, -⟩
  · exact .inl hascii
  · have hall : ∀ z ∈ zeros, 0x660 ≤ z := by decide
    exact .inr (Nat.le_trans (hall z hz) hle)

theorem isBlank_eq_false {c : Char} (h : isDigit c) : Blank.isBlank c = false := by
  have hnone : ∀ z ∈ zeros, ∀ b ∈ Blank.wideBlanks, ¬ (z ≤ b ∧ b < z + 10) := by decide
  have hbounds := toNat_bounds_of_isDigit h
  unfold Blank.isBlank
  split
  · simp only [Bool.or_eq_false_iff, Bool.and_eq_false_iff, beq_eq_false_iff_ne,
      decide_eq_false_iff_not]
    omega
  · rcases toNat_of_isDigit h with hascii | ⟨z, hz, hrange⟩
    · omega
    · have hnot : c.toNat ∉ Blank.wideBlanks := fun hmem => hnone z hz _ hmem hrange
      simpa using hnot

theorem ne_of_isDigit {c d : Char} (h : isDigit c) (hd : isDigit d = false) : c ≠ d := by
  rintro rfl
  exact Bool.false_ne_true (hd.symm.trans h)

/-- A digit has no other case. -/
theorem toLower_eq {c : Char} (h : isDigit c) : c.toLower = c := by
  have hbounds := toNat_bounds_of_isDigit h
  unfold Char.toLower
  split
  · next hupper =>
    simp only [ge_iff_le, UInt32.le_iff_toNat_le] at hupper
    have hA : ('A' : Char).val.toNat = 65 := rfl
    have hZ : ('Z' : Char).val.toNat = 90 := rfl
    have hc : c.toNat = c.val.toNat := rfl
    omega
  · rfl

theorem run_eq {ds : List Char} (h : ∀ c ∈ ds, isDigit c) : run ds = (ds.filterMap value?, []) := by
  induction ds with
  | nil => rfl
  | cons c ds ih =>
    obtain ⟨hc, hds⟩ := List.forall_mem_cons.1 h
    obtain ⟨d, hd⟩ := Option.isSome_iff_exists.1 hc
    rw [run, hd]
    simp only [ih hds]
    rw [List.filterMap_cons_some hd]

end Digit

namespace Binary64

theorem largest_lt_ten_pow {k j : Nat} (h : 53 + k ≤ 3 * j) : largest k < 10 ^ j :=
  calc
    largest k < 2 ^ (53 + k) := largest_lt k
    _ ≤ 2 ^ (3 * j) := Nat.pow_le_pow_right (by decide) h
    _ = (2 ^ 3) ^ j := Nat.pow_mul 2 3 j
    _ ≤ 10 ^ j := Nat.pow_le_pow_left (by decide) j

/-- A finite integer has fewer decimal places than are told apart. -/
theorem ofDecimal_zero {n : Nat} (h : n ≤ largest 971) (negative : Bool) :
    ofDecimal negative n 0 = ofRatio negative n 1 := by
  have hlt : n < 10 ^ 400 := Nat.lt_of_le_of_lt h (largest_lt_ten_pow (by decide))
  have hlength : (Nat.toDigits 10 n).length ≤ 400 := Nat.toDigits_length 10 n 400 (by decide) hlt
  unfold ofDecimal
  by_cases hn : n = 0
  · simp [hn, ofRatio]
  · have hsmall : ¬ (0 : Int) + (Nat.toDigits 10 n).length < -400 := by omega
    have hlarge : ¬ (400 : Int) < 0 + (Nat.toDigits 10 n).length := by omega
    have hone : n * Nat.pow 10 (0 : Int).toNat = n := Nat.mul_one n
    simp only [hn, hsmall, hlarge, hone, decide_false, Bool.or_self, Bool.false_eq_true, if_false,
      le_refl, if_true]

end Binary64

/-- An integer as authors write it: a sign or none, and digits of any script, where a single
underscore may stand between two digits. -/
structure IntegerLiteral where
  sign : Text
  first : Char
  /-- The digits behind the first one, each with whether an underscore stands in front of it. -/
  others : List (Bool × Char)
  sign_mem : sign ∈ ([[], ['+'], ['-']] : List Text)
  digits : ∀ c ∈ first :: others.map Prod.snd, Digit.isDigit c

namespace IntegerLiteral

variable (l : IntegerLiteral)

def digitText : Text := l.first :: l.others.map Prod.snd

def writtenDigit : Bool × Char → Text
  | (true, c) => ['_', c]
  | (false, c) => [c]

def written : Text := l.sign ++ l.first :: l.others.flatMap writtenDigit

def size : Nat := Digit.ofDigits (l.digitText.filterMap Digit.value?)

def value : Int := if l.sign = ['-'] then -l.size else l.size

theorem sign_cases : l.sign = [] ∨ l.sign = ['+'] ∨ l.sign = ['-'] := by
  simpa using l.sign_mem

/-- The last character of a literal is a digit. -/
theorem exists_written_eq : ∃ front last, l.written = front ++ [last] ∧ Digit.isDigit last := by
  rcases List.eq_nil_or_concat l.others with hnil | ⟨others, ⟨grouped, c⟩, hothers⟩
  · refine ⟨l.sign, l.first, by simp [written, hnil], l.digits _ List.mem_cons_self⟩
  · have hc : Digit.isDigit c := l.digits c (by simp [hothers])
    cases grouped with
    | true =>
      exact ⟨l.sign ++ l.first :: others.flatMap writtenDigit ++ ['_'], c,
        by simp [written, hothers, writtenDigit], hc⟩
    | false =>
      exact ⟨l.sign ++ l.first :: others.flatMap writtenDigit, c,
        by simp [written, hothers, writtenDigit], hc⟩

theorem mem_written {c : Char} (h : c ∈ l.written) : Digit.isDigit c ∨ c ∈ ['+', '-', '_'] := by
  have hothers (ds : List (Bool × Char)) (hds : ∀ c ∈ ds.map Prod.snd, Digit.isDigit c)
      (hc : c ∈ ds.flatMap writtenDigit) : Digit.isDigit c ∨ c = '_' := by
    obtain ⟨⟨grouped, d⟩, hd, hc⟩ := List.mem_flatMap.1 hc
    have hdigit := hds d (List.mem_map.2 ⟨_, hd, rfl⟩)
    cases grouped with
    | true =>
      rcases List.mem_cons.1 hc with rfl | hc
      · exact .inr rfl
      · exact .inl (List.mem_singleton.1 hc ▸ hdigit)
    | false => exact .inl (List.mem_singleton.1 hc ▸ hdigit)
  rcases List.mem_append.1 h with h | h
  · refine .inr ?_
    rcases l.sign_cases with hsign | hsign | hsign <;> rw [hsign] at h <;> simp_all
  · rcases List.mem_cons.1 h with rfl | h
    · exact .inl (l.digits _ List.mem_cons_self)
    · have hdigits := fun d hd => l.digits d (List.mem_cons_of_mem _ hd)
      exact (hothers _ hdigits h).imp_right (by simp_all)

theorem isMargin_eq_false {c : Char} (h : Blank.isBlank c = false) :
    Quantity.isMargin c = false := by
  unfold Quantity.isMargin
  unfold Blank.isBlank at h
  split
  · next hascii =>
    simp only [hascii, if_true, Bool.or_eq_false_iff] at h
    simp [h]
  · next hwide => simpa [Blank.isBlank, hwide] using h

/-- No blanks surround a literal. -/
theorem trimmed :
    ((l.written.dropWhile Quantity.isMargin).reverse.dropWhile Quantity.isMargin).reverse =
      l.written := by
  have hfirst : l.written.dropWhile Quantity.isMargin = l.written := by
    have hdigit : Quantity.isMargin l.first = false :=
      isMargin_eq_false (Digit.isBlank_eq_false (l.digits _ List.mem_cons_self))
    rcases l.sign_cases with hsign | hsign | hsign
    · simp [written, hsign, hdigit]
    · simp [written, hsign, Quantity.isMargin]
    · simp [written, hsign, Quantity.isMargin]
  obtain ⟨front, last, hwritten, hlast⟩ := l.exists_written_eq
  rw [hfirst, hwritten, List.reverse_append, List.reverse_singleton, List.singleton_append,
    List.dropWhile_cons_of_neg]
  · simp
  · simp [isMargin_eq_false (Digit.isBlank_eq_false hlast)]

/-! ## Reading a literal -/

theorem ungroup_others {ds : List (Bool × Char)} (h : ∀ c ∈ ds.map Prod.snd, Digit.isDigit c) :
    Quantity.ungroup true (ds.flatMap writtenDigit) = some (ds.map Prod.snd) := by
  induction ds with
  | nil => rfl
  | cons d ds ih =>
    obtain ⟨grouped, c⟩ := d
    obtain ⟨hc, hds⟩ := List.forall_mem_cons.1 h
    have hnot : c ≠ '_' := Digit.ne_of_isDigit hc (by decide)
    have hc : Digit.isDigit c = true := hc
    cases grouped <;> simp [writtenDigit, Quantity.ungroup, hnot, hc, ih hds]

theorem ungroup_written : Quantity.ungroup false l.written = some (l.sign ++ l.digitText) := by
  have hfirst : Digit.isDigit l.first = true := l.digits _ List.mem_cons_self
  have hothers := ungroup_others fun c hc => l.digits c (List.mem_cons_of_mem _ hc)
  have hnot : l.first ≠ '_' := Digit.ne_of_isDigit hfirst (by decide)
  have hdigits : Quantity.ungroup false (l.first :: l.others.flatMap writtenDigit) =
      some l.digitText := by
    simp [Quantity.ungroup, hnot, hfirst, hothers, digitText]
  have hsigned {c : Char} (hc : c ≠ '_') (hsign : Digit.isDigit c = false) :
      Quantity.ungroup false (c :: l.first :: l.others.flatMap writtenDigit) =
        some (c :: l.digitText) := by
    rw [Quantity.ungroup, if_neg hc, hsign, hdigits]
    rfl
  unfold written
  rcases l.sign_cases with hsign | hsign | hsign <;> rw [hsign]
  · exact hdigits
  · exact hsigned (by decide) (by decide)
  · exact hsigned (by decide) (by decide)

theorem readSign_eq (t : Text) :
    Numeral.readSign (l.sign ++ l.first :: t) = (decide (l.sign = ['-']), l.first :: t) := by
  have hfirst := l.digits _ List.mem_cons_self
  rcases l.sign_cases with hsign | hsign | hsign
  · have hminus : l.first ≠ '-' := Digit.ne_of_isDigit hfirst (by decide)
    have hplus : l.first ≠ '+' := Digit.ne_of_isDigit hfirst (by decide)
    rw [hsign, List.nil_append]
    unfold Numeral.readSign
    split <;> simp_all
  · rw [hsign]
    rfl
  · rw [hsign]
    rfl

theorem read?_digits : Numeral.read? (l.sign ++ l.digitText) =
    some ⟨decide (l.sign = ['-']), l.digitText.filterMap Digit.value?, none, none⟩ := by
  have hrun := Digit.run_eq l.digits
  have hnonempty : (l.digitText.filterMap Digit.value?).isEmpty = false := by
    obtain ⟨d, hd⟩ := Option.isSome_iff_exists.1 (l.digits _ List.mem_cons_self)
    rw [digitText, List.filterMap_cons_some hd]
    rfl
  have hfront : Numeral.readFront (l.sign ++ l.digitText) =
      some (⟨decide (l.sign = ['-']), l.digitText.filterMap Digit.value?, none, none⟩, []) := by
    unfold Numeral.readFront
    rw [digitText, readSign_eq]
    simp only [hrun]
    rw [← digitText, hnonempty]
    rfl
  rw [Numeral.read?, hfront]

theorem value_eq : l.value = Binary64.signed (decide (l.sign = ['-'])) l.size 0 := by
  unfold value Binary64.signed
  by_cases hsign : l.sign = ['-'] <;> simp [hsign]

/-- A literal is read as the integer that it denotes, if a floating-point number is that. -/
theorem exists_read?_written (h : ∃ y : Binary64, y.toInt? = some l.value) :
    ∃ x, Quantity.read? l.written = some x ∧ x.toInt? = some l.value := by
  obtain ⟨y, hy⟩ := h
  have hexact : Binary64.Exact l.size := by
    have h := Binary64.exact_of_toInt? hy
    rw [value_eq, Binary64.natAbs_signed] at h
    exact (Nat.mul_one l.size) ▸ h
  have hfirst := l.digits _ List.mem_cons_self
  have hlower {c : Char} (hc : Digit.isDigit c = false) : l.first.toLower ≠ c := by
    rw [Digit.toLower_eq hfirst]
    exact Digit.ne_of_isDigit hfirst hc
  have hread := Quantity.read?_of_not_named l.trimmed
    (congrArg Prod.snd (l.readSign_eq (l.others.flatMap writtenDigit))) (hlower (by decide))
    (hlower (by decide))
  refine ⟨Binary64.ofRatio (decide (l.sign = ['-'])) l.size 1, ?_, ?_⟩
  · rw [hread, ungroup_written, Option.bind_some, read?_digits, Option.map_some, Numeral.value]
    simp only [Option.getD_none, List.append_nil]
    exact congrArg some (Binary64.ofDecimal_zero hexact.le_largest _)
  · rw [hexact.toInt?_ofRatio, value_eq]

end IntegerLiteral

end StoryScript
