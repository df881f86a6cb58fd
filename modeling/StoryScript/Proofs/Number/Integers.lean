import StoryScript.Number.Binary64

/-!
# Integers within the range of floating-point numbers

An integer up to the largest finite number rounds to a finite number. Main statements: so does every
integer that a number is (`Binary64.isSome_ofInt?_of_toInt?`), and it is rounded to itself
(`Binary64.Exact.toInt?_ofRatio`). Numbers that are integers are ordered as these are
(`Binary64.lt_iff_of_toInt?`).
-/

namespace StoryScript

theorem roundDiv_le {n d m : Nat} (hd : 0 < d) (h : n ≤ m * d) : roundDiv n d ≤ m := by
  have hdiv : n / d ≤ m := Nat.div_le_of_le_mul (by rwa [Nat.mul_comm] at h)
  rcases Nat.lt_or_eq_of_le hdiv with hlt | heq
  · unfold roundDiv
    split
    · exact hdiv
    · split
      · exact hlt
      · omega
  · -- The quotient is the bound, so nothing is left over.
    have hmod : n % d = 0 := by
      have := Nat.div_add_mod n d
      rw [heq, Nat.mul_comm] at this
      omega
    rw [roundDiv, hmod, if_pos (by omega)]
    exact hdiv

theorem le_roundDiv {n d m : Nat} (hd : 0 < d) (h : m * d ≤ n) : m ≤ roundDiv n d := by
  have hdiv : m ≤ n / d := (Nat.le_div_iff_mul_le hd).2 h
  unfold roundDiv
  split
  · exact hdiv
  · split
    · exact Nat.le_succ_of_le hdiv
    · exact Nat.le_trans hdiv (Nat.le_add_right ..)

namespace Binary64

/-- The largest number of an exponent. -/
def largest (exponent : Nat) : Nat := (Nat.pow 2 53 - 1) * Nat.pow 2 exponent

theorem scaled_of_nonneg (n : Nat) {e : Int} (he : 0 ≤ e) :
    scaled n 1 e = (n, Nat.pow 2 e.toNat) := by
  rw [scaled, if_pos he, Nat.one_mul]

def isFinite : Binary64 → Bool
  | .finite .. => true
  | _ => false

theorem isFinite_ofParts {negative : Bool} {m : Nat} {e : Int} (h : Canonical m e) :
    (ofParts negative m e).isFinite := by
  rw [ofParts, dif_pos h]
  rfl

theorem scaled_zero (e : Int) : (scaled 0 1 e).1 = 0 := by
  unfold scaled
  split
  · rfl
  · exact Nat.zero_mul _

theorem scaled_pos (n : Nat) (e : Int) : 0 < (scaled n 1 e).2 := by
  unfold scaled
  split
  · exact Nat.mul_pos Nat.one_pos (Nat.two_pow_pos _)
  · exact Nat.one_pos

/-- The significand of an integer at an exponent has as many bits as are left of the exponent. -/
theorem scaled_bounds {n : Nat} (hn : n ≠ 0) {e : Int} {k : Nat} (hk : (n.log2 : Int) - e = k) :
    Nat.pow 2 k * (scaled n 1 e).2 ≤ (scaled n 1 e).1 ∧
      (scaled n 1 e).1 < Nat.pow 2 (k + 1) * (scaled n 1 e).2 := by
  have hadd (i j : Nat) : Nat.pow 2 (i + j) = Nat.pow 2 i * Nat.pow 2 j := Nat.pow_add 2 i j
  have hlow : Nat.pow 2 n.log2 ≤ n := Nat.log2_self_le hn
  have hhigh : n < Nat.pow 2 (n.log2 + 1) := Nat.lt_log2_self
  unfold scaled
  by_cases he : 0 ≤ e
  · have hlog : n.log2 = k + e.toNat := by omega
    rw [hlog] at hlow hhigh
    rw [if_pos he, Nat.one_mul]
    constructor
    · rwa [hadd] at hlow
    · rwa [Nat.add_right_comm, hadd] at hhigh
  · have hlog : k = n.log2 + (-e).toNat := by omega
    rw [if_neg he, Nat.mul_one, Nat.mul_one, hlog]
    constructor
    · rw [hadd]
      exact Nat.mul_le_mul_right _ hlow
    · rw [Nat.add_right_comm, hadd]
      exact Nat.mul_lt_mul_of_pos_right hhigh (Nat.two_pow_pos _)

/-- The significand of an integer has 53 bits at the exponent that is 52 below the leading bit. -/
theorem exponentOf_one {n : Nat} (hn : n ≠ 0) : exponentOf n 1 = n.log2 - 52 := by
  have hone : Nat.log2 1 = 0 := by decide
  have hmax : max ((n.log2 : Int) - Nat.log2 1 - 53) (-1074) = n.log2 - 53 := by
    rw [hone]
    omega
  have hbits : Nat.pow 2 53 ≤ (scaled n 1 (n.log2 - 53)).1 / (scaled n 1 (n.log2 - 53)).2 := by
    refine (Nat.le_div_iff_mul_le (scaled_pos n _)).2 ?_
    exact (scaled_bounds hn (k := 53) (by omega)).1
  rw [exponentOf]
  simp only [hmax]
  rw [if_pos hbits]
  omega

theorem largest_lt (k : Nat) : largest k < Nat.pow 2 (53 + k) :=
  calc
    largest k < Nat.pow 2 53 * Nat.pow 2 k :=
      Nat.mul_lt_mul_of_pos_right (by decide) (Nat.two_pow_pos k)
    _ = Nat.pow 2 (53 + k) := (Nat.pow_add 2 53 k).symm

theorem log2_lt_of_le_largest {n k : Nat} (hn : n ≠ 0) (h : n ≤ largest k) :
    n.log2 < 53 + k :=
  (Nat.log2_lt hn).2 (Nat.lt_of_le_of_lt h (largest_lt k))

/-- Where the leading bit of a number is at the top, rounding does not go beyond the largest one. -/
theorem roundDiv_scaled_le {n k : Nat} (h : n ≤ largest k) {e : Int} (he : e = k) :
    roundDiv (scaled n 1 e).1 (scaled n 1 e).2 ≤ Nat.pow 2 53 - 1 := by
  refine roundDiv_le (scaled_pos n e) ?_
  rw [scaled_of_nonneg n (by omega), he, Int.toNat_natCast]
  exact h

theorem isFinite_ofRatio_one {n : Nat} (h : n ≤ largest 971) (negative : Bool) :
    (ofRatio negative n 1).isFinite := by
  by_cases hn : n = 0
  · rw [ofRatio, if_pos hn]
    rfl
  obtain ⟨hlow, hhigh⟩ := scaled_bounds hn (e := n.log2 - 52) (k := 52) (by omega)
  have hpos := scaled_pos n (n.log2 - 52)
  have hm := le_roundDiv hpos hlow
  have hm' := roundDiv_le (m := Nat.pow 2 53) hpos (Nat.le_of_lt hhigh)
  have hlog := log2_lt_of_le_largest hn h
  have htop := @roundDiv_scaled_le n 971 h (n.log2 - 52)
  rw [ofRatio, if_neg hn]
  simp only [exponentOf_one hn]
  generalize roundDiv (scaled n 1 (n.log2 - 52)).1 (scaled n 1 (n.log2 - 52)).2 = m at *
  have hpow52 : Nat.pow 2 52 = 4503599627370496 := rfl
  have hpow53 : Nat.pow 2 53 = 9007199254740992 := rfl
  -- Rounding up to the next power of two moves the exponent by one; at the top it cannot happen.
  split
  · refine isFinite_ofParts ⟨by decide, by omega, ?_, .inl (Nat.le_refl _)⟩
    omega
  · refine isFinite_ofParts ⟨?_, by omega, by omega, .inl ?_⟩ <;> omega

/-- Whether a number is a significand of 53 bits moved to the left as far as exponents reach. -/
def Exact (n : Nat) : Prop := ∃ m k, m < Nat.pow 2 53 ∧ k ≤ 971 ∧ n = m * Nat.pow 2 k

theorem mul_pow_le_largest {m k top : Nat} (hm : m < Nat.pow 2 53) (hk : k ≤ top) :
    m * Nat.pow 2 k ≤ largest top :=
  Nat.mul_le_mul (Nat.le_pred_of_lt hm) (Nat.pow_le_pow_right (by decide) hk)

theorem Exact.le_largest {n : Nat} (h : Exact n) : n ≤ largest 971 := by
  obtain ⟨m, k, hm, hk, rfl⟩ := h
  exact mul_pow_le_largest hm hk

theorem natAbs_signed (negative : Bool) (m k : Nat) :
    (signed negative m k).natAbs = m * Nat.pow 2 k := by
  cases negative
  · exact Int.natAbs_natCast _
  · exact (Int.natAbs_neg _).trans (Int.natAbs_natCast _)

/-- The integers that numbers are. -/
theorem exact_of_toInt? {x : Binary64} {n : Int} (h : x.toInt? = some n) : Exact n.natAbs := by
  match x with
  | .nan | .infinite _ => cases h
  | .finite negative m e ⟨hm, _, he, _⟩ =>
    simp only [toInt?] at h
    split at h
    · obtain rfl := Option.some.inj h
      exact ⟨m, e.toNat, hm, by omega, natAbs_signed ..⟩
    · split at h
      · obtain rfl := Option.some.inj h
        exact ⟨_, 0, Nat.lt_of_le_of_lt (Nat.div_le_self ..) hm, Nat.zero_le _, natAbs_signed ..⟩
      · cases h

theorem natAbs_le_largest {x : Binary64} {n : Int} (h : x.toInt? = some n) :
    n.natAbs ≤ largest 971 :=
  (exact_of_toInt? h).le_largest

/-! ## Integers that are rounded to themselves -/

theorem roundDiv_of_dvd {n d : Nat} (hd : 0 < d) (h : d ∣ n) : roundDiv n d = n / d := by
  rw [roundDiv, Nat.mod_eq_zero_of_dvd h, if_pos (by omega)]

/-- The exponent of an exact number is at most the one that it was given with, so nothing is left
over at it. -/
theorem Exact.dvd_scaled {n : Nat} (h : Exact n) (hn : n ≠ 0) :
    (scaled n 1 (n.log2 - 52)).2 ∣ (scaled n 1 (n.log2 - 52)).1 := by
  obtain ⟨m, k, hm, -, hmk⟩ := h
  have hlog : n.log2 < 53 + k := log2_lt_of_le_largest hn
    (hmk ▸ mul_pow_le_largest hm (Nat.le_refl k))
  unfold scaled
  split
  · have hpow : Nat.pow 2 ((n.log2 : Int) - 52).toNat ∣ Nat.pow 2 k :=
      Nat.pow_dvd_pow 2 (by omega)
    rw [Nat.one_mul]
    exact hmk ▸ Nat.dvd_mul_left_of_dvd hpow m
  · exact Nat.one_dvd _

/-- A number with the leading bit of its significand set is the quotient it was scaled to. -/
theorem toInt?_finite_of_scaled {n q : Nat} {e : Int} (hq : q * (scaled n 1 e).2 = (scaled n 1 e).1)
    (negative : Bool) (hcanonical : Canonical q e) :
    (finite negative q e hcanonical).toInt? = some (signed negative n 0) := by
  have hnot : signed negative n 0 = if negative then -(n : Int) else n := by simp [signed]
  show (if 0 ≤ e then some (signed negative q e.toNat)
    else if q % Nat.pow 2 (-e).toNat = 0 then
      some (signed negative (q / Nat.pow 2 (-e).toNat) 0)
    else none) = _
  unfold scaled at hq
  split at hq
  · next he =>
    simp only [Nat.one_mul] at hq
    rw [if_pos he, hnot, signed, hq]
  · next he =>
    simp only [Nat.mul_one] at hq
    have hdiv : n * Nat.pow 2 (-e).toNat / Nat.pow 2 (-e).toNat = n :=
      Nat.mul_div_cancel n (Nat.two_pow_pos _)
    rw [if_neg he, hq, Nat.mul_mod_left, if_pos rfl, hdiv]

/-- An exact number is rounded to itself. -/
theorem Exact.toInt?_ofRatio {n : Nat} (h : Exact n) (negative : Bool) :
    (ofRatio negative n 1).toInt? = some (signed negative n 0) := by
  by_cases hn : n = 0
  · subst hn
    exact toInt?_finite_of_scaled ((Nat.zero_mul _).trans (scaled_zero _).symm) negative _
  have hlog : n.log2 < 53 + 971 := log2_lt_of_le_largest hn h.le_largest
  have hpos := scaled_pos n (n.log2 - 52)
  obtain ⟨hlow, hhigh⟩ := scaled_bounds hn (e := n.log2 - 52) (k := 52) (by omega)
  have hdvd := h.dvd_scaled hn
  have hq := Nat.div_mul_cancel hdvd
  have hlow := (Nat.le_div_iff_mul_le hpos).2 hlow
  have hhigh := (Nat.div_lt_iff_lt_mul hpos).2 hhigh
  rw [ofRatio, if_neg hn]
  simp only [exponentOf_one hn, roundDiv_of_dvd hpos hdvd]
  rw [if_neg (Nat.ne_of_lt hhigh), ofParts,
    dif_pos ⟨hhigh, by omega, by omega, .inl hlow⟩]
  exact toInt?_finite_of_scaled hq negative _

theorem isSome_ofInt?_of_natAbs_le {n : Int} (h : n.natAbs ≤ largest 971) : (ofInt? n).isSome := by
  have hfinite := isFinite_ofRatio_one h (n < 0)
  unfold ofInt?
  split
  · next hinfinite => simp [hinfinite, isFinite] at hfinite
  · rfl

/-- An integer that a number is counts as a number. -/
theorem isSome_ofInt?_of_toInt? {x : Binary64} {n : Int} (h : x.toInt? = some n) :
    (ofInt? n).isSome :=
  isSome_ofInt?_of_natAbs_le (natAbs_le_largest h)

/-! ## Comparing integers -/

theorem exact_of_natAbs_le {n : Int} (h : n.natAbs ≤ Nat.pow 2 53) : Exact n.natAbs := by
  rcases Nat.lt_or_eq_of_le h with hlt | heq
  · exact ⟨n.natAbs, 0, hlt, Nat.zero_le _, (Nat.mul_one _).symm⟩
  · exact ⟨Nat.pow 2 52, 1, by decide, by decide, heq⟩

/-- An exact integer counts as the number that it is. -/
theorem Exact.exists_ofInt? {n : Int} (h : Exact n.natAbs) :
    ∃ x, ofInt? n = some x ∧ x.toInt? = some n := by
  have hvalue := h.toInt?_ofRatio (n < 0)
  have hsigned : signed (n < 0) n.natAbs 0 = n := by
    have hone : n.natAbs * Nat.pow 2 0 = n.natAbs := Nat.mul_one _
    unfold signed
    rw [hone]
    by_cases hn : n < 0
    · rw [if_pos (decide_eq_true hn)]
      omega
    · rw [if_neg (by simpa using hn)]
      omega
  rw [hsigned] at hvalue
  refine ⟨ofRatio (n < 0) n.natAbs 1, ?_, hvalue⟩
  unfold ofInt?
  split
  · next hinfinite =>
    rw [hinfinite] at hvalue
    cases hvalue
  · rfl

theorem signed_add (negative : Bool) (m i j : Nat) :
    signed negative m (i + j) = signed negative m i * (Nat.pow 2 j : Nat) := by
  have hpow : m * Nat.pow 2 (i + j) = m * Nat.pow 2 i * Nat.pow 2 j := by
    rw [Nat.mul_assoc]
    exact congrArg (m * ·) (Nat.pow_add 2 i j)
  unfold signed
  rw [hpow]
  cases negative with
  | false => exact Int.natCast_mul _ _
  | true => exact (congrArg Neg.neg (Int.natCast_mul _ _)).trans (Int.neg_mul _ _).symm

theorem signed_mul_pow (negative : Bool) (m i j : Nat) :
    signed negative (m * Nat.pow 2 i) j = signed negative m (i + j) := by
  have hpow : m * Nat.pow 2 i * Nat.pow 2 j = m * Nat.pow 2 (i + j) := by
    rw [Nat.mul_assoc]
    exact congrArg (m * ·) (Nat.pow_add 2 i j).symm
  unfold signed
  rw [hpow]

/-- The significand of an integer, moved to another exponent, is the integer as far off. -/
theorem signed_mul_of_toInt? {negative : Bool} {m : Nat} {e : Int} {h : Canonical m e} {n : Int}
    (hn : (finite negative m e h).toInt? = some n) {base : Int} (hbase : base ≤ e) :
    signed negative m (e - base).toNat * (Nat.pow 2 base.toNat : Nat) =
      n * (Nat.pow 2 (-base).toNat : Nat) := by
  simp only [toInt?] at hn
  split at hn
  · obtain rfl := Option.some.inj hn
    rw [← signed_add, ← signed_add]
    congr 1
    omega
  · split at hn
    · next hdvd =>
      obtain rfl := Option.some.inj hn
      obtain ⟨q, rfl⟩ := Nat.dvd_of_mod_eq_zero hdvd
      have hpos : 0 < Nat.pow 2 (-e).toNat := Nat.two_pow_pos _
      rw [Nat.mul_div_cancel_left q hpos, Nat.mul_comm, ← signed_add, ← signed_add,
        signed_mul_pow]
      congr 1
      omega
    · cases hn

theorem exists_eq_finite_of_toInt? {x : Binary64} {n : Int} (h : x.toInt? = some n) :
    ∃ s m e hcanonical, x = finite s m e hcanonical := by
  cases x with
  | nan => cases h
  | infinite s => cases h
  | finite s m e hcanonical => exact ⟨s, m, e, hcanonical, rfl⟩

section

variable {x y : Binary64} {m n : Int} (hx : x.toInt? = some m) (hy : y.toInt? = some n)
include hx hy

/-- Numbers that are integers are compared at one exponent. -/
theorem lt_iff_of_toInt? : x.lt y = true ↔ m < n := by
  obtain ⟨s, p, e, he, rfl⟩ := exists_eq_finite_of_toInt? hx
  obtain ⟨t, q, f, hf, rfl⟩ := exists_eq_finite_of_toInt? hy
  have hp := signed_mul_of_toInt? hx (Int.min_le_left e f)
  have hq := signed_mul_of_toInt? hy (Int.min_le_right e f)
  have hpow (k : Nat) : (0 : Int) < (Nat.pow 2 k : Nat) := Int.natCast_pos.2 (Nat.two_pow_pos k)
  rw [lt, decide_eq_true_eq, ← Int.mul_lt_mul_right (hpow (min e f).toNat), hp, hq,
    Int.mul_lt_mul_right (hpow _)]

theorem eq_iff_of_toInt? : x.eq y = true ↔ m = n := by
  obtain ⟨s, p, e, he, rfl⟩ := exists_eq_finite_of_toInt? hx
  obtain ⟨t, q, f, hf, rfl⟩ := exists_eq_finite_of_toInt? hy
  have hp := signed_mul_of_toInt? hx (Int.min_le_left e f)
  have hq := signed_mul_of_toInt? hy (Int.min_le_right e f)
  have hpow (k : Nat) : ((Nat.pow 2 k : Nat) : Int) ≠ 0 :=
    Int.ne_of_gt (Int.natCast_pos.2 (Nat.two_pow_pos k))
  rw [eq, beq_iff_eq, ← Int.mul_eq_mul_right_iff (hpow (min e f).toNat), hp, hq,
    Int.mul_eq_mul_right_iff (hpow _)]

theorem le_iff_of_toInt? : x.le y = true ↔ m ≤ n := by
  rw [le, Bool.or_eq_true, lt_iff_of_toInt? hx hy, eq_iff_of_toInt? hx hy]
  omega

end

end Binary64

end StoryScript
