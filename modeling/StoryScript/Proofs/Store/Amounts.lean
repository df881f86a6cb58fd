import StoryScript.Proofs.Number.Integers
import StoryScript.Store.Flags

/-!
# Applying changes to numeric flags

Main statement: flags that are numbers stay numbers whatever is applied to them, and all of it is
applied unless it is no text and no map or meets an integer too large for a floating-point number
(`FlagStore.apply_of_numeric`).
-/

namespace StoryScript

namespace Value

/-- An integer that counts as no floating-point number. -/
def isTooLarge : Value → Bool
  | .int n => (Binary64.ofInt? n).isNone
  | _ => false

theorem toSummand_of_isNumber {v : Value} (h : v.isNumber) :
    (∃ x, v.toSummand = .ok x) ∨ v.toSummand = .error .integerTooLarge ∧ v.isTooLarge := by
  cases v with
  | null | text _ | list _ | map _ => cases h
  | float x => exact .inl ⟨x, rfl⟩
  | bool b => cases b <;> exact .inl ⟨_, rfl⟩
  | int n =>
    cases hn : Binary64.ofInt? n with
    | some x => exact .inl ⟨x, by simp [toSummand, toExact?, hn]⟩
    | none => exact .inr ⟨by simp [toSummand, toExact?, hn], by simp [isTooLarge, hn]⟩

theorem plus_of_isNumber {v w : Value} (hv : v.isNumber) (hw : w.isNumber) :
    (∃ u, v.plus w = .ok u ∧ u.isNumber) ∨
      v.plus w = .error .integerTooLarge ∧ (v.isTooLarge ∨ w.isTooLarge) := by
  unfold plus
  split
  · exact .inl ⟨_, rfl, rfl⟩
  · simp only [hv, hw, Bool.and_self, if_true]
    rcases toSummand_of_isNumber hv with ⟨x, hx⟩ | ⟨hx, hlarge⟩
    · rcases toSummand_of_isNumber hw with ⟨y, hy⟩ | ⟨hy, hlarge⟩
      · exact .inl ⟨.float (x.add y), by rw [hx, hy]; rfl, rfl⟩
      · exact .inr ⟨by rw [hx, hy]; rfl, .inr hlarge⟩
    · exact .inr ⟨by rw [hx]; rfl, .inl hlarge⟩

end Value

namespace FlagStore

theorem heldValue_fits (x : Binary64) :
    (heldValue x).isNumber ∧ (heldValue x).isTooLarge = false := by
  unfold heldValue
  cases hx : x.toInt? with
  | none => exact ⟨rfl, rfl⟩
  | some n =>
    have hsome := Binary64.isSome_ofInt?_of_toInt? hx
    exact ⟨rfl, by simp [Value.isTooLarge, hsome]⟩

theorem negated_heldValue_fits (x : Binary64) :
    (negated (heldValue x)).isNumber ∧ (negated (heldValue x)).isTooLarge = false := by
  unfold heldValue
  cases hx : x.toInt? with
  | none => exact ⟨rfl, rfl⟩
  | some n =>
    have hsome : (Binary64.ofInt? (-n)).isSome := Binary64.isSome_ofInt?_of_natAbs_le
      (by rw [Int.natAbs_neg]; exact Binary64.natAbs_le_largest hx)
    exact ⟨rfl, by simp [negated, Value.isTooLarge, hsome]⟩

theorem amountOf_returns (v : Value) :
    (∃ x, amountOf v = .ok x) ∨ amountOf v = .error .integerTooLarge ∧ v.isTooLarge := by
  have hnumber (h : v.isNumber) : (∃ x, (v.toSummand).map some = .ok x) ∨
      (v.toSummand).map some = .error .integerTooLarge ∧ v.isTooLarge := by
    rcases Value.toSummand_of_isNumber h with ⟨x, hx⟩ | ⟨hx, hlarge⟩
    · exact .inl ⟨some x, by rw [hx]; rfl⟩
    · exact .inr ⟨by rw [hx]; rfl, hlarge⟩
  cases v with
  | text t => exact .inl ⟨_, rfl⟩
  | null | list _ | map _ => exact .inl ⟨none, rfl⟩
  | bool _ | int _ | float _ => exact hnumber rfl

/-- The amounts that a text gives are texts until they are read. -/
theorem Change.exists_amount_eq_text {t : Text} {c : Change}
    (h : c ∈ (ofText t).filterMap Except.toOption) : ∃ u, c.amount = .text u := by
  obtain ⟨read, hread, hc⟩ := List.mem_filterMap.1 h
  obtain ⟨pair, -, rfl⟩ := List.mem_map.1 hread
  unfold ofPair at hc
  split at hc
  · cases hc
  · dsimp only at hc
    split at hc
    · cases hc
    · obtain rfl := Option.some.inj hc
      exact ⟨_, rfl⟩

/-- Whether all flags are numbers. -/
def Numeric (s : FlagStore) : Prop := ∀ flag, (s.get flag).isNumber

/-- A store of numbers is one, as flags that were never set are zero. -/
theorem numeric_of_containers {s : FlagStore}
    (h : ∀ container ∈ s.containers, ∀ entry ∈ container.2, entry.2.isNumber) : s.Numeric := by
  intro flag
  unfold get valueAt
  cases hcontainer : s.containers.get? (s.locate flag).1 with
  | none => rfl
  | some container =>
    cases hentry : Table.get? container (s.locate flag).2 with
    | none => simp [hentry, Value.isNumber]
    | some v =>
      simp only [Option.getD_some, hentry]
      exact h _ (Table.mem_of_get? hcontainer) _ (Table.mem_of_get? hentry)

theorem Numeric.set {s : FlagStore} (h : s.Numeric) (flag : Text) {v : Value} (hv : v.isNumber) :
    (s.set flag v).Numeric := by
  intro other
  by_cases hother : s.locate flag = s.locate other
  · have hget : (s.set flag v).get other = v := by
      show (s.setAt (s.locate flag) v).valueAt (s.locate other) = v
      rw [← hother, valueAt_setAt_self]
    rw [hget]
    exact hv
  · rw [get_set_of_ne s v hother]
    exact h other

theorem Numeric.add {s : FlagStore} (h : s.Numeric) (flag : Text) {v : Value} (hv : v.isNumber)
    (hfits : v.isTooLarge = false) :
    (∃ s', s.add flag v = .ok s' ∧ s'.Numeric) ∨
      s.add flag v = .error .integerTooLarge ∧ (s.get flag).isTooLarge := by
  unfold FlagStore.add
  rcases Value.plus_of_isNumber (h flag) hv with ⟨u, hu, hnumber⟩ | ⟨hu, hlarge⟩
  · exact .inl ⟨s.set flag u, by rw [hu]; rfl, h.set flag hnumber⟩
  · exact .inr ⟨by rw [hu]; rfl, hlarge.resolve_right (by simp [hfits])⟩

theorem change_of_amount (s : FlagStore) {c : Change} {x : Binary64}
    (h : amountOf c.amount = .ok (some x)) :
    s.change c =
      match c.kind with
      | .assign => .ok (s.set c.flag (heldValue x), [])
      | .increase => (s.add c.flag (heldValue x)).map (·, [])
      | .decrease => (s.add c.flag (negated (heldValue x))).map (·, []) := by
  rw [change, h]
  cases hkind : c.kind with
  | assign => rfl
  | increase =>
    show (do return (← s.add c.flag (heldValue x), [])) = _
    cases s.add c.flag (heldValue x) <;> rfl
  | decrease =>
    show (do return (← s.add c.flag (negated (heldValue x)), [])) = _
    cases s.add c.flag (negated (heldValue x)) <;> rfl

theorem Numeric.change {s : FlagStore} (h : s.Numeric) (c : Change) :
    (∃ s' notices, s.change c = .ok (s', notices) ∧ s'.Numeric) ∨
      s.change c = .error .integerTooLarge ∧ (c.amount.isTooLarge ∨ (s.get c.flag).isTooLarge) := by
  have hadd {v : Value} (hv : v.isNumber ∧ v.isTooLarge = false) :
      (∃ s' notices, (s.add c.flag v).map (·, ([] : List Notice)) = .ok (s', notices) ∧
        s'.Numeric) ∨
      (s.add c.flag v).map (·, ([] : List Notice)) = .error .integerTooLarge ∧
        (c.amount.isTooLarge ∨ (s.get c.flag).isTooLarge) := by
    rcases h.add c.flag hv.1 hv.2 with ⟨s', hs', hnumeric⟩ | ⟨hfailure, hlarge⟩
    · exact .inl ⟨s', [], by rw [hs']; rfl, hnumeric⟩
    · exact .inr ⟨by rw [hfailure]; rfl, .inr hlarge⟩
  rcases amountOf_returns c.amount with ⟨x, hx⟩ | ⟨hx, hlarge⟩
  · cases x with
    | none =>
      exact .inl ⟨s, [.flagNotANumber c.amount c.flag], by rw [FlagStore.change, hx]; rfl, h⟩
    | some x =>
      rw [change_of_amount s hx]
      cases c.kind with
      | assign => exact .inl ⟨_, [], rfl, h.set c.flag (heldValue_fits x).1⟩
      | increase => exact hadd (heldValue_fits x)
      | decrease => exact hadd (negated_heldValue_fits x)
  · exact .inr ⟨by rw [FlagStore.change, hx]; rfl, .inl hlarge⟩

theorem Numeric.changeAll {s : FlagStore} (h : s.Numeric) (cs : List Change) :
    (s.changeAll cs).store.Numeric ∧
      ∀ failure, (s.changeAll cs).failure = some failure → failure = .integerTooLarge ∧
        ((∃ c ∈ cs, c.amount.isTooLarge) ∨
          ∃ flag, ((s.changeAll cs).store.get flag).isTooLarge) := by
  induction cs generalizing s with
  | nil =>
    refine ⟨h, fun failure hfailure => ?_⟩
    cases hfailure
  | cons c cs ih =>
    rw [FlagStore.changeAll]
    rcases h.change c with ⟨s', notices, hchange, hnumeric⟩ | ⟨hfailure, hlarge⟩
    · obtain ⟨hstore, hfails⟩ := ih hnumeric
      simp only [hchange]
      refine ⟨hstore, fun failure hfailure => ?_⟩
      obtain ⟨rfl, hlarge⟩ := hfails failure hfailure
      exact ⟨rfl, hlarge.imp_left fun ⟨c', hc', hlarge⟩ => ⟨c', List.mem_cons_of_mem c hc', hlarge⟩⟩
    · simp only [hfailure]
      refine ⟨h, fun failure hsome => ?_⟩
      obtain rfl := Option.some.inj hsome
      exact ⟨rfl, hlarge.imp (fun h => ⟨c, List.mem_cons_self, h⟩) fun h => ⟨c.flag, h⟩⟩

/-- What stops a store at something to apply: that it is no text and no map, or an integer too
large for a floating-point number, in it or among the flags. -/
inductive StopsAt (s : FlagStore) : Value → Failure → Prop
  | kind {data : Value} (htext : ∀ t, data ≠ .text t) (hmap : ∀ entries, data ≠ .map entries) :
    StopsAt s data .notAMap
  | entry {entries : Table Text Value} {key : Text} {v : Value} (hmem : (key, v) ∈ entries)
    (hlarge : v.isTooLarge) : StopsAt s (.map entries) .integerTooLarge
  | flag {data : Value} {flag : Text} (hlarge : (s.get flag).isTooLarge) :
    StopsAt s data .integerTooLarge

/-- Flags that are numbers stay numbers whatever is applied to them, and all of it is applied unless
something stops that. -/
theorem apply_of_numeric {s : FlagStore} (h : s.Numeric) (data : Value) :
    (s.apply data).store.Numeric ∧
      ∀ failure, (s.apply data).failure = some failure →
        (s.apply data).store.StopsAt data failure := by
  cases data with
  | text t =>
    obtain ⟨hstore, hfails⟩ := h.changeAll ((Change.ofText t).filterMap Except.toOption)
    refine ⟨hstore, fun failure hfailure => ?_⟩
    obtain ⟨rfl, ⟨c, hc, hlarge⟩ | ⟨flag, hlarge⟩⟩ := hfails failure hfailure
    · obtain ⟨u, hu⟩ := Change.exists_amount_eq_text hc
      rw [hu] at hlarge
      cases hlarge
    · exact .flag hlarge
  | map entries =>
    obtain ⟨hstore, hfails⟩ := h.changeAll (Change.ofEntries entries)
    refine ⟨hstore, fun failure hfailure => ?_⟩
    obtain ⟨rfl, ⟨c, hc, hlarge⟩ | ⟨flag, hlarge⟩⟩ := hfails failure hfailure
    · obtain ⟨entry, hentry, rfl⟩ := List.mem_map.1 hc
      exact .entry hentry hlarge
    · exact .flag hlarge
  | null | bool _ | int _ | float _ | list _ =>
    refine ⟨h, fun failure hfailure => ?_⟩
    obtain rfl := Option.some.inj hfailure
    exact .kind nofun nofun

end FlagStore

end StoryScript
