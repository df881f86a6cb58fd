import Mathlib.Data.List.Forall2
import StoryScript.Proofs.Store.Amounts
import StoryScript.Proofs.Table

/-!
# Runs of store operations

A store starts with flags by container (`FlagStore.create`) and goes through operations, any of
which may fail and leave it as far as it got (`FlagStore.perform`). Two stores are alike if no flag
tells them apart in any current container. Main statements: operations keep stores alike, and report
the same of both (`FlagStore.Alike.perform`); and the store that a snapshot restores stays like the
one that it was taken of, whatever is done to both (`FlagStore.get_after_restore`).
-/

namespace StoryScript

namespace FlagStore

inductive Operation where
  | set (flag : Text) (v : Value)
  | add (flag : Text) (amount : Value)
  | apply (data : Value)
  | goTo (container : Key)

def perform (s : FlagStore) : Operation → Applied
  | .set flag v => ⟨s.set flag v, [], none⟩
  | .add flag amount =>
    match s.add flag amount with
    | .ok s' => ⟨s', [], none⟩
    | .error failure => ⟨s, [], some failure⟩
  | .apply data => s.apply data
  | .goTo container => ⟨{ s with current := container }, [], none⟩

/-- The store after operations, where one that fails does not keep the next from being made. -/
def after (s : FlagStore) : List Operation → FlagStore
  | [] => s
  | op :: ops => after (s.perform op).store ops

/-- What comes of each of the operations. -/
def trace (s : FlagStore) : List Operation → List Applied
  | [] => []
  | op :: ops => s.perform op :: trace (s.perform op).store ops

/-- The changes that something to apply asks for. -/
def changesOf : Value → List Change
  | .text t => (Change.ofText t).filterMap Except.toOption
  | .map entries => Change.ofEntries entries
  | _ => []

/-- The flags that an operation may set. -/
def Operation.flags : Operation → List Text
  | .set flag _ | .add flag _ => [flag]
  | .apply data => (changesOf data).map Change.flag
  | .goTo _ => []

/-! ## What an operation writes -/

section

variable {s s' : FlagStore} {place : Key × Key}

theorem exists_eq_set_of_add {flag : Text} {amount : Value} (h : s.add flag amount = .ok s') :
    ∃ v, s' = s.set flag v := by
  unfold add at h
  cases hplus : (s.get flag).plus amount with
  | error failure =>
    rw [hplus] at h
    cases h
  | ok v =>
    rw [hplus] at h
    cases h
    exact ⟨v, rfl⟩

/-- A change that is made sets its flag, unless its amount is no number. -/
theorem eq_or_of_change {c : Change} {notices : List Notice} (h : s.change c = .ok (s', notices)) :
    s' = s ∨ ∃ v, s' = s.set c.flag v := by
  have hadd {v : Value} (h : (s.add c.flag v).map (·, ([] : List Notice)) = .ok (s', notices)) :
      ∃ v, s' = s.set c.flag v := by
    cases hv : s.add c.flag v with
    | error failure =>
      rw [hv] at h
      cases h
    | ok s₁ =>
      rw [hv] at h
      cases h
      exact exists_eq_set_of_add hv
  cases hamount : amountOf c.amount with
  | error failure =>
    rw [change, hamount] at h
    cases h
  | ok x =>
    cases x with
    | none =>
      rw [change, hamount] at h
      cases h
      exact .inl rfl
    | some x =>
      rw [change_of_amount s hamount] at h
      cases hkind : c.kind with
      | assign =>
        rw [hkind] at h
        cases h
        exact .inr ⟨_, rfl⟩
      | increase =>
        rw [hkind] at h
        exact .inr (hadd h)
      | decrease =>
        rw [hkind] at h
        exact .inr (hadd h)

theorem store_apply (s : FlagStore) (data : Value) :
    (s.apply data).store = (s.changeAll (changesOf data)).store := by
  cases data <;> rfl

theorem valueAt_set_of_ne {flag : Text} (h : place ≠ s.locate flag) (v : Value) :
    (s.set flag v).valueAt place = s.valueAt place :=
  valueAt_setAt_of_ne s v h.symm

theorem valueAt_changeAll_of_not_mem {cs : List Change}
    (h : place ∉ cs.map fun c => s.locate c.flag) :
    (s.changeAll cs).store.valueAt place = s.valueAt place := by
  induction cs generalizing s with
  | nil => rfl
  | cons c cs ih =>
    obtain ⟨hc, hcs⟩ := not_or.1 (mt List.mem_cons.2 h)
    rw [changeAll]
    split
    · rfl
    · next s₁ notices hchange =>
      show (s₁.changeAll cs).store.valueAt place = s.valueAt place
      rcases eq_or_of_change hchange with rfl | ⟨v, rfl⟩
      · exact ih hcs
      · rw [← valueAt_set_of_ne hc v]
        exact ih hcs

/-- An operation keeps what is held at every place but those of the flags that it may set. -/
theorem valueAt_perform_of_not_mem {op : Operation} (h : place ∉ op.flags.map s.locate) :
    (s.perform op).store.valueAt place = s.valueAt place := by
  cases op with
  | set flag v => exact valueAt_set_of_ne (List.ne_of_not_mem_cons h) v
  | add flag amount =>
    rw [perform]
    split
    · next hadd =>
      obtain ⟨v, rfl⟩ := exists_eq_set_of_add hadd
      exact valueAt_set_of_ne (List.ne_of_not_mem_cons h) v
    · rfl
  | apply data =>
    rw [perform, store_apply]
    exact valueAt_changeAll_of_not_mem (by simpa [Operation.flags] using h)
  | goTo container => rfl

end

/-! ## Starting -/

theorem valueAt_create (current : Key) (flags : Table Key (Table Key Value)) (place : Key × Key) :
    (create current flags).valueAt place =
      ((Table.ofEntries (Table.entriesAt place.1 flags)).get? place.2).getD (.int 0) := by
  have hnew : (Table.get? [(current, ([] : Table Key Value))] place.1).getD [] = [] := by
    by_cases h : current = place.1 <;> simp [Table.get?, h]
  rw [valueAt, create, Table.getD_get?_foldl_merge, hnew]
  rfl

/-! ## Stores that no flag tells apart -/

/-- Whether two attempts fail alike or come to results that belong together. -/
inductive Agree {α : Type} (r : α → α → Prop) : Except Failure α → Except Failure α → Prop
  | error (failure : Failure) : Agree r (.error failure) (.error failure)
  | ok {a b : α} (h : r a b) : Agree r (.ok a) (.ok b)

theorem Agree.map {α β : Type} {r : α → α → Prop} {q : β → β → Prop} {f : α → β}
    {x y : Except Failure α} (h : Agree r x y) (hf : ∀ {a b}, r a b → q (f a) (f b)) :
    Agree q (x.map f) (y.map f) := by
  cases h with
  | error failure => exact .error failure
  | ok h => exact .ok (hf h)

/-- Two stores that no flag tells apart, whichever container becomes the current one. -/
structure Alike (s t : FlagStore) : Prop where
  current : s.current = t.current
  valueAt : ∀ place, s.valueAt place = t.valueAt place

namespace Alike

variable {s t : FlagStore}

theorem locate (h : s.Alike t) (flag : Text) : s.locate flag = t.locate flag := by
  unfold FlagStore.locate
  rw [h.current]

theorem get (h : s.Alike t) (flag : Text) : s.get flag = t.get flag := by
  rw [FlagStore.get, h.locate, h.valueAt]
  rfl

theorem set (h : s.Alike t) (flag : Text) (v : Value) : (s.set flag v).Alike (t.set flag v) := by
  refine ⟨h.current, fun place => ?_⟩
  unfold FlagStore.set
  rw [h.locate]
  by_cases hplace : t.locate flag = place
  · subst hplace
    rw [valueAt_setAt_self, valueAt_setAt_self]
  · rw [valueAt_setAt_of_ne s v hplace, valueAt_setAt_of_ne t v hplace, h.valueAt]

theorem add (h : s.Alike t) (flag : Text) (amount : Value) :
    Agree Alike (s.add flag amount) (t.add flag amount) := by
  unfold FlagStore.add
  rw [h.get]
  cases (t.get flag).plus amount with
  | error failure => exact .error failure
  | ok v => exact .ok (h.set flag v)

theorem change (h : s.Alike t) (c : Change) :
    Agree (fun a b => a.1.Alike b.1 ∧ a.2 = b.2) (s.change c) (t.change c) := by
  cases hamount : amountOf c.amount with
  | error failure =>
    rw [FlagStore.change, FlagStore.change, hamount]
    exact .error failure
  | ok x =>
    cases x with
    | none =>
      rw [FlagStore.change, FlagStore.change, hamount]
      exact .ok ⟨h, rfl⟩
    | some x =>
      rw [change_of_amount s hamount, change_of_amount t hamount]
      cases c.kind with
      | assign => exact .ok ⟨h.set c.flag (heldValue x), rfl⟩
      | increase => exact (h.add c.flag (heldValue x)).map fun halike => ⟨halike, rfl⟩
      | decrease => exact (h.add c.flag (negated (heldValue x))).map fun halike => ⟨halike, rfl⟩

end Alike

/-- Whether the same came of two operations: alike stores, the same to report, and the same
failure. -/
structure Applied.Alike (a b : Applied) : Prop where
  store : a.store.Alike b.store
  notices : a.notices = b.notices
  failure : a.failure = b.failure

namespace Alike

variable {s t : FlagStore}

theorem changeAll (h : s.Alike t) (cs : List Change) :
    (s.changeAll cs).Alike (t.changeAll cs) := by
  induction cs generalizing s t with
  | nil => exact ⟨h, rfl, rfl⟩
  | cons c cs ih =>
    have hchange := h.change c
    rw [FlagStore.changeAll, FlagStore.changeAll]
    generalize s.change c = x at hchange ⊢
    generalize t.change c = y at hchange ⊢
    cases hchange with
    | error failure => exact ⟨h, rfl, rfl⟩
    | ok hresults =>
      obtain ⟨halike, hsame⟩ := hresults
      obtain ⟨hstore, hnotices, hfailure⟩ := ih halike
      exact ⟨hstore, congrArg₂ (· ++ ·) hsame hnotices, hfailure⟩

theorem apply (h : s.Alike t) (data : Value) : (s.apply data).Alike (t.apply data) := by
  cases data with
  | text u =>
    obtain ⟨hstore, hnotices, hfailure⟩ :=
      h.changeAll ((Change.ofText u).filterMap Except.toOption)
    exact ⟨hstore, congrArg (_ ++ ·) hnotices, hfailure⟩
  | map entries => exact h.changeAll (Change.ofEntries entries)
  | null | bool _ | int _ | float _ | list _ => exact ⟨h, rfl, rfl⟩

/-- An operation keeps stores alike, and reports the same of both. -/
theorem perform (h : s.Alike t) (op : Operation) : (s.perform op).Alike (t.perform op) := by
  cases op with
  | set flag v => exact ⟨h.set flag v, rfl, rfl⟩
  | add flag amount =>
    have hadd := h.add flag amount
    rw [FlagStore.perform, FlagStore.perform]
    generalize s.add flag amount = x at hadd ⊢
    generalize t.add flag amount = y at hadd ⊢
    cases hadd with
    | error failure => exact ⟨h, rfl, rfl⟩
    | ok halike => exact ⟨halike, rfl, rfl⟩
  | apply data => exact h.apply data
  | goTo container => exact ⟨⟨rfl, h.valueAt⟩, rfl, rfl⟩

theorem after (h : s.Alike t) (ops : List Operation) : (s.after ops).Alike (t.after ops) := by
  induction ops generalizing s t with
  | nil => exact h
  | cons op ops ih => exact ih (h.perform op).store

theorem trace (h : s.Alike t) (ops : List Operation) :
    List.Forall₂ Applied.Alike (s.trace ops) (t.trace ops) := by
  induction ops generalizing s t with
  | nil => exact .nil
  | cons op ops ih => exact .cons (h.perform op) (ih (h.perform op).store)

end Alike

/-! ## Snapshots -/

theorem wellKeyed_create (current : Key) (flags : Table Key (Table Key Value)) :
    (create current flags).containers.WellKeyed := by
  refine Table.WellKeyed.foldl_merge ⟨by simp [Table.keys], fun {key part} hpart => ?_⟩ flags
  obtain rfl : part = [] := by
    unfold Table.get? at hpart
    split at hpart
    · exact (Option.some.inj hpart).symm
    · cases hpart
  exact Table.nodup_keys_nil

section WellKeyed

variable {s : FlagStore}

theorem wellKeyed_set (h : s.containers.WellKeyed) (flag : Text) (v : Value) :
    (s.set flag v).containers.WellKeyed :=
  h.insert _ (Table.nodup_keys_insert (h.nodup_getD _) _ v)

theorem wellKeyed_change (h : s.containers.WellKeyed) {c : Change} {s' : FlagStore}
    {notices : List Notice} (hchange : s.change c = .ok (s', notices)) :
    s'.containers.WellKeyed := by
  rcases eq_or_of_change hchange with rfl | ⟨v, rfl⟩
  · exact h
  · exact wellKeyed_set h c.flag v

theorem wellKeyed_changeAll (h : s.containers.WellKeyed) (cs : List Change) :
    (s.changeAll cs).store.containers.WellKeyed := by
  induction cs generalizing s with
  | nil => exact h
  | cons c cs ih =>
    rw [changeAll]
    split
    · exact h
    · next hchange => exact ih (wellKeyed_change h hchange)

theorem wellKeyed_perform (h : s.containers.WellKeyed) (op : Operation) :
    (s.perform op).store.containers.WellKeyed := by
  cases op with
  | set flag v => exact wellKeyed_set h flag v
  | add flag amount =>
    rw [perform]
    split
    · next hadd =>
      obtain ⟨v, rfl⟩ := exists_eq_set_of_add hadd
      exact wellKeyed_set h flag v
    · exact h
  | apply data =>
    rw [perform, store_apply]
    exact wellKeyed_changeAll h (changesOf data)
  | goTo container => exact h

theorem wellKeyed_after (h : s.containers.WellKeyed) (ops : List Operation) :
    (s.after ops).containers.WellKeyed := by
  induction ops generalizing s with
  | nil => exact h
  | cons op ops ih => exact ih (wellKeyed_perform h op)

end WellKeyed

/-- What is kept of a store. -/
structure Snapshot where
  current : Key
  flags : Table Key (Table Key Value)

def snapshot (s : FlagStore) : Snapshot := ⟨s.current, s.containers⟩

def Snapshot.restore (d : Snapshot) : FlagStore := create d.current d.flags

/-- The store that is restored may order its containers differently, and has one that is empty where
the current one was not there. -/
theorem alike_restore {s : FlagStore} (h : s.containers.WellKeyed) :
    s.snapshot.restore.Alike s := by
  refine ⟨rfl, fun place => ?_⟩
  show (create s.current s.containers).valueAt place = _
  rw [valueAt_create, Table.entriesAt_of_nodup h.keys,
    Table.ofEntries_of_nodup (h.nodup_getD place.1)]
  rfl

/-- A snapshot restores a store: from then on, both hold the same under every flag and report the
same of every operation, whatever is done to both. -/
theorem get_after_restore (current : Key) (flags : Table Key (Table Key Value))
    (ops more : List Operation) :
    let s := (create current flags).after ops
    (∀ flag, (s.snapshot.restore.after more).get flag = (s.after more).get flag) ∧
      List.Forall₂ Applied.Alike (s.snapshot.restore.trace more) (s.trace more) := by
  intro s
  have halike : s.snapshot.restore.Alike s :=
    alike_restore (wellKeyed_after (wellKeyed_create current flags) ops)
  exact ⟨(halike.after more).get, halike.trace more⟩

end FlagStore

end StoryScript
