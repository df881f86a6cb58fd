import StoryScript.Proofs.Store.Operations

/-!
# Changes that are skipped

A change whose amount is no well-formed number is skipped with a notice, and every other one is made
(`FlagStore.effect`), unless it is of an integer that is too large for a floating-point number
(`FlagStore.Overflows`): nothing catches that, so it ends what is applied where it stands. Main
statement: `FlagStore.apply_skips_malformed`.
-/

namespace StoryScript

namespace Value

theorem plus_float_of_isTooLarge {v : Value} (h : v.isTooLarge) (y : Binary64) :
    v.plus (.float y) = .error .integerTooLarge := by
  cases v with
  | int n =>
    have hn : Binary64.ofInt? n = none := Option.isNone_iff_eq_none.1 h
    simp only [plus, toExact?, isNumber, Bool.and_self, if_true, toSummand, hn]
    rfl
  | null | bool _ | float _ | text _ | list _ | map _ => cases h

/-- A number that is too large still has an exact sum with an integer. -/
theorem exists_plus_eq {v w : Value} (hv : v.isNumber) (hw : w.isNumber)
    (hfits : w.isTooLarge = false) (hlarge : v.isTooLarge → ∃ n, w = .int n) :
    ∃ u, v.plus w = .ok u ∧ u.isNumber := by
  rcases plus_of_isNumber hv hw with hsum | ⟨hfails, hv' | hw'⟩
  · exact hsum
  · obtain ⟨n, rfl⟩ := hlarge hv'
    cases v with
    | int m => cases hfails
    | null | bool _ | float _ | text _ | list _ | map _ => cases hv'
  · rw [hfits] at hw'
    cases hw'

end Value

namespace FlagStore

namespace Change

/-- What a flag holds after a change by a number. -/
def Kind.outcome (held amount : Value) : Kind → Except Failure Value
  | .assign => .ok amount
  | .increase => held.plus amount
  | .decrease => held.plus (negated amount)

/-- Whether an amount is no number, and no text that is read as one. -/
def isMalformed (c : Change) : Bool :=
  match c.amount with
  | .text t => (Quantity.read? t).isNone
  | v => !v.isNumber

/-- The number that an amount is, as a flag holds it; none if it is malformed or too large. -/
def number? (c : Change) : Option Value :=
  match amountOf c.amount with
  | .ok (some x) => some (heldValue x)
  | _ => none

/-- What there is to report about a change that is skipped. -/
def complaints (c : Change) : List Notice :=
  if c.isMalformed then [.flagNotANumber c.amount c.flag] else []

theorem amountOf_cases (c : Change) :
    (c.isMalformed ∧ c.amount.isTooLarge = false ∧ amountOf c.amount = .ok none) ∨
      (c.isMalformed = false ∧ c.amount.isTooLarge ∧
        amountOf c.amount = .error .integerTooLarge) ∨
      c.isMalformed = false ∧ c.amount.isTooLarge = false ∧
        ∃ x, amountOf c.amount = .ok (some x) := by
  obtain ⟨flag, kind, amount⟩ := c
  cases amount with
  | null | list _ | map _ => exact .inl ⟨rfl, rfl, rfl⟩
  | text t =>
    cases ht : Quantity.read? t with
    | none => exact .inl ⟨by simp [isMalformed, ht], rfl, congrArg Except.ok ht⟩
    | some x => exact .inr (.inr ⟨by simp [isMalformed, ht], rfl, x, congrArg Except.ok ht⟩)
  | bool b => exact .inr (.inr ⟨rfl, rfl, by cases b <;> exact ⟨_, rfl⟩⟩)
  | float x => exact .inr (.inr ⟨rfl, rfl, x, rfl⟩)
  | int n =>
    cases hn : Binary64.ofInt? n with
    | none =>
      exact .inr (.inl ⟨rfl, by simp [Value.isTooLarge, hn], by
        simp [amountOf, Value.toSummand, Value.toExact?, hn, Except.map]⟩)
    | some x =>
      exact .inr (.inr ⟨rfl, by simp [Value.isTooLarge, hn], x, by
        simp [amountOf, Value.toSummand, Value.toExact?, hn, Except.map]⟩)

end Change

/-- A store after a change, which leaves it as it was where the change is skipped. -/
def effect (s : FlagStore) (c : Change) : FlagStore :=
  match c.number? with
  | none => s
  | some n =>
    match c.kind.outcome (s.get c.flag) n with
    | .ok v => s.set c.flag v
    | .error _ => s

/-- Whether an integer that a change is about is too large: its amount, or what the flag holds that
a fraction is added to or taken from. -/
def Overflows (s : FlagStore) (c : Change) : Prop :=
  c.amount.isTooLarge ∨
    c.kind ≠ .assign ∧ (s.get c.flag).isTooLarge ∧ ∃ x, c.number? = some (.float x)

/-- Whether no change overflows when it is made after those in front of it. -/
def Fits : FlagStore → List Change → Prop
  | _, [] => True
  | s, c :: cs => ¬ s.Overflows c ∧ Fits (s.effect c) cs

/-! ## One change -/

section

variable {s : FlagStore} {c : Change}

theorem change_eq_outcome (s : FlagStore) {x : Binary64} (h : amountOf c.amount = .ok (some x)) :
    s.change c = (c.kind.outcome (s.get c.flag) (heldValue x)).map (s.set c.flag ·, []) := by
  rw [change_of_amount s h]
  cases c.kind with
  | assign => rfl
  | increase =>
    simp only [add, Change.Kind.outcome]
    cases (s.get c.flag).plus (heldValue x) <;> rfl
  | decrease =>
    simp only [add, Change.Kind.outcome]
    cases (s.get c.flag).plus (negated (heldValue x)) <;> rfl

/-- The amount that an overflow is about is read as a fraction, and its negation is one too. -/
theorem change_of_overflows (h : s.Overflows c) : s.change c = .error .integerTooLarge := by
  rcases h with hlarge | ⟨hkind, hlarge, x, hx⟩
  · rcases c.amountOf_cases with ⟨-, hfits, -⟩ | ⟨-, -, hamount⟩ | ⟨-, hfits, -⟩
    · rw [hfits] at hlarge
      cases hlarge
    · rw [change, hamount]
      rfl
    · rw [hfits] at hlarge
      cases hlarge
  · unfold Change.number? at hx
    split at hx
    · next y hy =>
      obtain hy' := Option.some.inj hx
      rw [change_eq_outcome s hy, hy']
      cases hk : c.kind with
      | assign => exact absurd hk hkind
      | increase =>
        rw [Change.Kind.outcome, Value.plus_float_of_isTooLarge hlarge]
        rfl
      | decrease =>
        rw [Change.Kind.outcome, negated, Value.plus_float_of_isTooLarge hlarge]
        rfl
    · cases hx

theorem Numeric.exists_outcome (h : s.Numeric) (hfits : ¬ s.Overflows c) {x : Binary64}
    (hx : amountOf c.amount = .ok (some x)) :
    ∃ v, c.kind.outcome (s.get c.flag) (heldValue x) = .ok v ∧ v.isNumber := by
  have hnumber : c.number? = some (heldValue x) := by rw [Change.number?, hx]
  -- What is too large is not changed by a fraction, so the amount is an integer.
  have hlarge (hkind : c.kind ≠ .assign) (hlarge : (s.get c.flag).isTooLarge) :
      ∃ n, heldValue x = .int n := by
    have hne : ∀ y, c.number? ≠ some (.float y) := fun y hy =>
      hfits (.inr ⟨hkind, hlarge, y, hy⟩)
    rw [hnumber] at hne
    unfold heldValue at hne ⊢
    split
    · exact ⟨_, rfl⟩
    · next hx => exact absurd (by rw [hx]) (hne x)
  cases hkind : c.kind with
  | assign => exact ⟨_, rfl, (heldValue_fits x).1⟩
  | increase =>
    obtain ⟨hnum, hfit⟩ := heldValue_fits x
    exact Value.exists_plus_eq (h c.flag) hnum hfit (hlarge (by simp [hkind]))
  | decrease =>
    obtain ⟨hnum, hfit⟩ := negated_heldValue_fits x
    refine Value.exists_plus_eq (h c.flag) hnum hfit fun htoo => ?_
    obtain ⟨n, hn⟩ := hlarge (by simp [hkind]) htoo
    exact ⟨-n, by rw [hn]; rfl⟩

theorem Numeric.change_of_not_overflows (h : s.Numeric) (hfits : ¬ s.Overflows c) :
    s.change c = .ok (s.effect c, c.complaints) ∧ (s.effect c).Numeric := by
  rcases c.amountOf_cases with ⟨hmalformed, -, hnone⟩ | ⟨-, hlarge, -⟩ | ⟨hwell, -, x, hx⟩
  · have heffect : s.effect c = s := by simp [effect, Change.number?, hnone]
    rw [heffect, Change.complaints, if_pos hmalformed, FlagStore.change, hnone]
    exact ⟨rfl, h⟩
  · exact absurd (.inl hlarge) hfits
  · obtain ⟨v, hv, hnumber⟩ := h.exists_outcome hfits hx
    have heffect : s.effect c = s.set c.flag v := by simp [effect, Change.number?, hx, hv]
    rw [change_eq_outcome s hx, hv, heffect, Change.complaints, if_neg (by simp [hwell])]
    exact ⟨rfl, h.set c.flag hnumber⟩

end

/-! ## Runs of changes -/

section

variable {s : FlagStore}

theorem exists_fits (s : FlagStore) (cs : List Change) :
    ∃ made left, cs = made ++ left ∧ s.Fits made ∧
      ∀ c ∈ left.head?, (made.foldl effect s).Overflows c := by
  induction cs generalizing s with
  | nil => exact ⟨[], [], rfl, trivial, by simp⟩
  | cons c cs ih =>
    by_cases hc : s.Overflows c
    · exact ⟨[], c :: cs, rfl, trivial, by simpa using hc⟩
    · obtain ⟨made, left, rfl, hfits, hleft⟩ := ih (s.effect c)
      exact ⟨c :: made, left, rfl, ⟨hc, hfits⟩, hleft⟩

/-- What fits is made or skipped, one change after another. -/
theorem Numeric.changeAll_append (h : s.Numeric) {made : List Change} (hfits : s.Fits made)
    (left : List Change) :
    s.changeAll (made ++ left) =
      let rest := (made.foldl effect s).changeAll left
      { rest with notices := made.flatMap Change.complaints ++ rest.notices } := by
  induction made generalizing s with
  | nil => rfl
  | cons c made ih =>
    obtain ⟨hc, hmade⟩ := hfits
    obtain ⟨hchange, hnumeric⟩ := h.change_of_not_overflows hc
    rw [List.cons_append, FlagStore.changeAll, hchange]
    simp only [ih hnumeric hmade, List.foldl_cons, List.flatMap_cons, List.append_assoc]

theorem Numeric.changeAll_eq (h : s.Numeric) {made left : List Change} (hfits : s.Fits made)
    (hleft : ∀ c ∈ left.head?, (made.foldl effect s).Overflows c) :
    s.changeAll (made ++ left) =
      ⟨made.foldl effect s, made.flatMap Change.complaints,
        if left.isEmpty then none else some .integerTooLarge⟩ := by
  rw [h.changeAll_append hfits]
  cases left with
  | nil => simp [FlagStore.changeAll]
  | cons c left => simp [FlagStore.changeAll, change_of_overflows (hleft c rfl)]

theorem Numeric.failure_changeAll_eq_none (h : s.Numeric) (cs : List Change) :
    (s.changeAll cs).failure = none ↔ s.Fits cs := by
  constructor
  · intro hnone
    obtain ⟨made, left, rfl, hfits, hleft⟩ := exists_fits s cs
    rw [h.changeAll_eq hfits hleft] at hnone
    cases left with
    | nil => rwa [List.append_nil]
    | cons c left => cases hnone
  · intro hfits
    have hall := h.changeAll_append hfits []
    rw [List.append_nil] at hall
    rw [hall]
    rfl

/-- Setting a flag asks for nothing of what it held. -/
theorem fits_ofEntries (s : FlagStore) (entries : Table Text Value) :
    s.Fits (Change.ofEntries entries) ↔ ∀ e ∈ entries, e.2.isTooLarge = false := by
  induction entries generalizing s with
  | nil => simp [Change.ofEntries, Fits]
  | cons e entries ih =>
    have hcons : Change.ofEntries (e :: entries) =
        ⟨e.1, .assign, e.2⟩ :: Change.ofEntries entries := rfl
    rw [hcons, Fits, ih]
    simp [Overflows]

end

/-! ## What is applied -/

/-- What there is to report about entries that are not even of the form of a change. -/
def formatComplaints : Value → List Notice
  | .text t =>
    (Change.ofText t).filterMap fun c => match c with | .error n => some n | .ok _ => none
  | _ => []

theorem apply_eq_changeAll (s : FlagStore) {data : Value}
    (h : (∃ t, data = .text t) ∨ ∃ entries, data = .map entries) :
    s.apply data =
      let applied := s.changeAll (changesOf data)
      { applied with notices := formatComplaints data ++ applied.notices } := by
  rcases h with ⟨t, rfl⟩ | ⟨entries, rfl⟩ <;> rfl

/-- Of a text or a map that is applied to numeric flags, the entries that are no well-formed numbers
are skipped with a notice, and all others are made, before and after them, up to the first that
overflows. That one ends the call with a failure, what was made before it stays, and nothing behind
it is made or reported. A map is applied in full just if none of its integers is too large. -/
theorem apply_skips_malformed {s : FlagStore} (h : s.Numeric) {data : Value}
    (hdata : (∃ t, data = .text t) ∨ ∃ entries, data = .map entries) :
    (∃ made left, changesOf data = made ++ left ∧ s.Fits made ∧
      (∀ c ∈ left.head?, (made.foldl effect s).Overflows c) ∧
      s.apply data =
        ⟨made.foldl effect s, formatComplaints data ++ made.flatMap Change.complaints,
          if left.isEmpty then none else some .integerTooLarge⟩) ∧
      ((s.apply data).failure = none ↔ s.Fits (changesOf data)) ∧
      ∀ entries, data = .map entries →
        (s.Fits (changesOf data) ↔ ∀ e ∈ entries, e.2.isTooLarge = false) := by
  rw [apply_eq_changeAll s hdata]
  refine ⟨?_, h.failure_changeAll_eq_none (changesOf data), ?_⟩
  · obtain ⟨made, left, hsplit, hfits, hleft⟩ := exists_fits s (changesOf data)
    refine ⟨made, left, hsplit, hfits, hleft, ?_⟩
    rw [hsplit, h.changeAll_eq hfits hleft]
  · rintro entries rfl
    exact fits_ofEntries s entries

/-- A store with some gold. -/
def satchel : FlagStore := create (.text "main") [(.text "main", [(.text "gold", .int 5)])]

theorem numeric_satchel : satchel.Numeric := by
  refine numeric_of_containers fun container hcontainer entry hentry => ?_
  obtain rfl := List.mem_singleton.1 hcontainer
  obtain rfl := List.mem_singleton.1 hentry
  rfl

def looseEntries : Table Text Value :=
  [("rope", .null), ("gold", .text " 1_0 "), ("name", .text "lots"), ("lit", .bool true)]

/-- Nothing and a word are skipped between entries that are made. -/
theorem apply_looseEntries :
    satchel.apply (.map looseEntries) =
      ⟨(satchel.set "gold" (.int 10)).set "lit" (.int 1),
        [.flagNotANumber .null "rope", .flagNotANumber (.text "lots") "name"], none⟩ := by
  obtain ⟨⟨made, left, hsplit, hfits, -, happly⟩, hreturns, hmap⟩ :=
    apply_skips_malformed numeric_satchel (.inr ⟨looseEntries, rfl⟩)
  have hfailure : (satchel.apply (.map looseEntries)).failure = none :=
    hreturns.2 ((hmap looseEntries rfl).2 (by simp [looseEntries]; decide +kernel))
  have hleft : left = [] := by
    rw [happly] at hfailure
    cases left with
    | nil => rfl
    | cons c left => cases hfailure
  rw [hleft, List.append_nil] at hsplit
  rw [happly, ← hsplit, hleft]
  rfl

/-- A number that is larger than any floating-point number. -/
def hugeAmount : Int := Int.pow 10 400

def hugeEntries : Table Text Value :=
  [("torch", .int 1), ("gold", .int hugeAmount), ("rope", .null), ("lamp", .int 2)]

/-- A number that is well-formed and too large ends the call: the entry behind it that is none is
not reported, and the one behind that is not made. -/
theorem apply_hugeEntries_stops :
    satchel.apply (.map hugeEntries) =
      ⟨satchel.set "torch" (.int 1), [], some .integerTooLarge⟩ := by
  have hlarge : (Value.int hugeAmount).isTooLarge := by decide +kernel
  have hfits : satchel.Fits [⟨"torch", .assign, .int 1⟩] :=
    (fits_ofEntries satchel [("torch", .int 1)]).2 (by simp; decide +kernel)
  have happly : satchel.apply (.map hugeEntries) =
      satchel.changeAll (Change.ofEntries hugeEntries) := rfl
  have hentries : Change.ofEntries hugeEntries = [⟨"torch", .assign, .int 1⟩] ++
      [⟨"gold", .assign, .int hugeAmount⟩, ⟨"rope", .assign, .null⟩,
        ⟨"lamp", .assign, .int 2⟩] := rfl
  rw [happly, hentries, numeric_satchel.changeAll_eq hfits]
  · rfl
  · intro c hc
    cases hc
    exact .inl hlarge

end FlagStore

end StoryScript
