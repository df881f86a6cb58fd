import Mathlib.Data.List.Forall2
import StoryScript.Table

/-!
# Writing entries to tables

Entries are written one by one: a key keeps the place of its first entry and what its last one says.
Main statements: writing what entries come to is writing the entries (`Table.insertAll_insertAll`),
entries with all different keys are kept as they are (`Table.insertAll_eq_append`), and tables that
are merged into a table of tables by their keys hold the entries of all tables of a key
(`Table.getD_get?_foldl_merge`).
-/

namespace StoryScript

namespace Table

variable {κ α : Type} [DecidableEq κ] {t u : Table κ α} {key other : κ}

omit [DecidableEq κ] in
theorem nodup_keys_nil : (keys ([] : Table κ α)).Nodup := List.nodup_nil

theorem mem_keys_insert {a : α} :
    other ∈ Table.keys (t.insert key a) ↔ other ∈ t.keys ∨ other = key := by
  induction t with
  | nil => simp [Table.insert, Table.keys]
  | cons entry rest ih =>
    obtain ⟨k, b⟩ := entry
    by_cases hk : k = key
    · subst hk
      rw [Table.insert, if_pos rfl]
      exact (or_iff_left_of_imp fun hother => hother ▸ List.mem_cons_self).symm
    · rw [Table.insert, if_neg hk]
      show other ∈ k :: Table.keys (Table.insert rest key a) ↔ other ∈ k :: Table.keys rest ∨ _
      rw [List.mem_cons, List.mem_cons, ih, or_assoc]

theorem nodup_keys_insert (h : t.keys.Nodup) (key : κ) (a : α) :
    (Table.keys (t.insert key a)).Nodup := by
  induction t with
  | nil => simp [Table.insert, Table.keys]
  | cons entry rest ih =>
    obtain ⟨k, b⟩ := entry
    obtain ⟨hk, hrest⟩ := List.nodup_cons.1 h
    by_cases hkey : k = key
    · rw [Table.insert, if_pos hkey]
      exact h
    · rw [Table.insert, if_neg hkey]
      exact List.nodup_cons.2 ⟨fun hmem => (mem_keys_insert.1 hmem).elim hk hkey, ih hrest⟩

theorem nodup_keys_insertAll (h : t.keys.Nodup) (entries : List (κ × α)) :
    (Table.keys (t.insertAll entries)).Nodup := by
  induction entries generalizing t with
  | nil => exact h
  | cons entry entries ih => exact ih (nodup_keys_insert h entry.1 entry.2)

theorem insert_of_not_mem (h : key ∉ t.keys) (a : α) : t.insert key a = t ++ [(key, a)] := by
  induction t with
  | nil => rfl
  | cons entry rest ih =>
    obtain ⟨hne, hrest⟩ := not_or.1 (mt List.mem_cons.2 h)
    rw [Table.insert, if_neg (Ne.symm hne), ih hrest]
    rfl

/-- Entries whose keys are new and all different are written one behind another. -/
theorem insertAll_eq_append (h : (Table.keys (t ++ u)).Nodup) : t.insertAll u = t ++ u := by
  induction u generalizing t with
  | nil => exact (List.append_nil t).symm
  | cons entry u ih =>
    have hnew : entry.1 ∉ t.keys := fun hmem => by
      rw [keys, List.map_append] at h
      exact (List.nodup_append.1 h).2.2 _ hmem _ List.mem_cons_self rfl
    have happend : t ++ entry :: u = t ++ [entry] ++ u := by simp
    rw [happend] at h ⊢
    show (t.insert entry.1 entry.2).insertAll u = _
    rw [insert_of_not_mem hnew]
    exact ih h

/-- Entries with different keys are the table of themselves. -/
theorem ofEntries_of_nodup (h : t.keys.Nodup) : ofEntries t = t := insertAll_eq_append h

theorem contains_iff : t.contains key ↔ key ∈ t.keys := by
  induction t with
  | nil => simp [contains, keys]
  | cons entry rest ih =>
    obtain ⟨k, b⟩ := entry
    by_cases hk : k = key
    · simp [contains, get?, keys, hk]
    · simpa [contains, get?, keys, hk, Ne.symm hk] using ih

theorem contains_eq_of_keys_eq {β : Type} {v : Table κ β} (h : t.keys = v.keys) :
    t.contains key = v.contains key := by
  rw [Bool.eq_iff_iff, contains_iff, contains_iff, h]

theorem keys_insert_of_mem (h : key ∈ t.keys) (a : α) : Table.keys (t.insert key a) = t.keys := by
  induction t with
  | nil => cases h
  | cons entry rest ih =>
    by_cases hk : entry.1 = key
    · rw [Table.insert, if_pos hk]
      rfl
    · have hrest : key ∈ Table.keys rest := (List.mem_cons.1 h).resolve_left (Ne.symm hk)
      rw [Table.insert, if_neg hk]
      exact congrArg (entry.1 :: ·) (ih hrest)

/-! ## Taking out -/

theorem erase_sublist (t : Table κ α) (key : κ) : (Table.erase t key).Sublist t := by
  induction t with
  | nil => exact .slnil
  | cons entry rest ih =>
    by_cases hk : entry.1 = key
    · rw [Table.erase, if_pos hk]
      exact List.sublist_cons_self entry rest
    · rw [Table.erase, if_neg hk]
      exact ih.cons_cons entry

theorem get?_erase_of_ne (t : Table κ α) (h : key ≠ other) :
    (Table.erase t key).get? other = t.get? other := by
  induction t with
  | nil => rfl
  | cons entry rest ih =>
    by_cases hk : entry.1 = key
    · rw [Table.erase, if_pos hk, get?, if_neg (hk ▸ h)]
    · simp only [Table.erase, if_neg hk, get?, ih]

theorem get?_eq_none_iff : t.get? key = none ↔ key ∉ t.keys := by
  rw [← contains_iff, contains, Bool.not_eq_true, Option.isSome_eq_false_iff,
    Option.isNone_iff_eq_none]

theorem get?_erase_self (h : t.keys.Nodup) (key : κ) : (Table.erase t key).get? key = none := by
  induction t with
  | nil => rfl
  | cons entry rest ih =>
    obtain ⟨hnew, hrest⟩ := List.nodup_cons.1 h
    by_cases hk : entry.1 = key
    · rw [Table.erase, if_pos hk, get?_eq_none_iff]
      exact hk ▸ hnew
    · rw [Table.erase, if_neg hk, get?, if_neg hk]
      exact ih hrest

/-! ## The order of writing -/

theorem insert_insert_self (t : Table κ α) (key : κ) (a b : α) :
    (t.insert key a).insert key b = t.insert key b := by
  induction t with
  | nil => simp [Table.insert]
  | cons entry rest ih =>
    obtain ⟨k, c⟩ := entry
    by_cases hk : k = key <;> simp [Table.insert, hk, ih]

/-- Where a key is there, it does not matter whether it is written to before or after another. -/
theorem insert_comm (hmem : key ∈ t.keys) (hne : key ≠ other) (a b : α) :
    (t.insert other b).insert key a = (t.insert key a).insert other b := by
  induction t with
  | nil => cases hmem
  | cons entry rest ih =>
    obtain ⟨k, c⟩ := entry
    by_cases hk : k = key
    · subst hk
      simp [Table.insert, hne]
    · have hrest : key ∈ Table.keys rest := (List.mem_cons.1 hmem).resolve_left (Ne.symm hk)
      by_cases ho : k = other
      · subst ho
        simp [Table.insert, hk]
      · simp [Table.insert, hk, ho, ih hrest]

theorem insert_insertAll (hmem : key ∈ t.keys) (hkey : key ∉ u.keys) (a : α) :
    (t.insertAll u).insert key a = (t.insert key a).insertAll u := by
  induction u generalizing t with
  | nil => rfl
  | cons entry u ih =>
    obtain ⟨hne, hrest⟩ := not_or.1 (mt List.mem_cons.2 hkey)
    have hwritten := ih (mem_keys_insert.2 (.inl hmem)) hrest (t := t.insert entry.1 entry.2)
    rwa [insert_comm hmem hne] at hwritten

theorem insertAll_insert (t : Table κ α) (hu : u.keys.Nodup) (key : κ) (a : α) :
    t.insertAll (u.insert key a) = (t.insertAll u).insert key a := by
  induction u generalizing t with
  | nil => rfl
  | cons entry u ih =>
    obtain ⟨k, b⟩ := entry
    obtain ⟨hk, hrest⟩ := List.nodup_cons.1 hu
    by_cases hkey : k = key
    · subst hkey
      have hmem : k ∈ Table.keys (t.insert k b) := mem_keys_insert.2 (.inr rfl)
      rw [Table.insert, if_pos rfl]
      show (t.insert k a).insertAll u = ((t.insert k b).insertAll u).insert k a
      rw [insert_insertAll hmem hk, insert_insert_self]
    · rw [Table.insert, if_neg hkey]
      exact ih (t.insert k b) hrest

/-- Writing what was written to a table is writing the table and then the rest. -/
theorem insertAll_insertAll (t : Table κ α) (hu : u.keys.Nodup) (entries : List (κ × α)) :
    t.insertAll (u.insertAll entries) = (t.insertAll u).insertAll entries := by
  induction entries generalizing u with
  | nil => rfl
  | cons entry entries ih =>
    have hwritten := ih (nodup_keys_insert hu entry.1 entry.2)
    rwa [insertAll_insert t hu] at hwritten

/-! ## What is found -/

theorem get?_insertAll_of_not_mem {entries : List (κ × α)} (h : ∀ p ∈ entries, p.1 ≠ key) :
    (t.insertAll entries).get? key = t.get? key := by
  induction entries generalizing t with
  | nil => rfl
  | cons entry entries ih =>
    obtain ⟨hne, hrest⟩ := List.forall_mem_cons.1 h
    exact (ih hrest).trans (get?_insert_of_ne t entry.2 hne)

/-- Entries with a key decide what is found under it, whatever was there. -/
theorem get?_insertAll_of_mem {entries : List (κ × α)} (h : ∃ p ∈ entries, p.1 = key) :
    (t.insertAll entries).get? key = (u.insertAll entries).get? key := by
  induction entries generalizing t u with
  | nil => simp at h
  | cons entry entries ih =>
    by_cases hrest : ∃ p ∈ entries, p.1 = key
    · exact ih hrest
    · have hnone : ∀ p ∈ entries, p.1 ≠ key := fun p hp hkey => hrest ⟨p, hp, hkey⟩
      obtain rfl : entry.1 = key := by
        obtain ⟨p, hp, hkey⟩ := h
        rcases List.mem_cons.1 hp with rfl | hp
        · exact hkey
        · exact absurd hkey (hnone p hp)
      show ((t.insert entry.1 entry.2).insertAll entries).get? entry.1 =
        ((u.insert entry.1 entry.2).insertAll entries).get? entry.1
      rw [get?_insertAll_of_not_mem hnone, get?_insertAll_of_not_mem hnone, get?_insert_self,
        get?_insert_self]

theorem mem_keys_insertAll {entries : List (κ × α)} :
    key ∈ Table.keys (t.insertAll entries) ↔ key ∈ t.keys ∨ ∃ p ∈ entries, p.1 = key := by
  induction entries generalizing t with
  | nil => simp [insertAll]
  | cons entry entries ih =>
    show key ∈ Table.keys ((t.insert entry.1 entry.2).insertAll entries) ↔ _
    simp [ih, mem_keys_insert, or_assoc, eq_comm]

/-! ## Some of the entries -/

omit [DecidableEq κ] in
theorem keys_filter (t : Table κ α) {q : κ → Bool} :
    keys (t.filter fun p => q p.1) = t.keys.filter q :=
  (List.filter_map (p := q) (f := Prod.fst)).symm

/-- What is found is not lost with other entries. -/
theorem get?_filter (t : Table κ α) {q : κ → Bool} (h : q key) :
    Table.get? (t.filter fun p => q p.1) key = t.get? key := by
  induction t with
  | nil => rfl
  | cons entry rest ih =>
    obtain ⟨k, a⟩ := entry
    by_cases hk : k = key
    · subst hk
      simp [get?, h]
    · by_cases hq : q k <;> simp [get?, hk, hq, ih]

/-! ## Other values under the same keys -/

section

variable {β : Type}

def mapValues (f : α → β) (t : Table κ α) : Table κ β := t.map fun e => (e.1, f e.2)

theorem get?_mapValues (f : α → β) (t : Table κ α) (key : κ) :
    (mapValues f t).get? key = (t.get? key).map f := by
  induction t with
  | nil => rfl
  | cons entry rest ih =>
    by_cases hk : entry.1 = key
    · simp [mapValues, get?, hk]
    · simpa [mapValues, get?, hk] using ih

theorem insert_mapValues (f : α → β) (t : Table κ α) (key : κ) (a : α) :
    (mapValues f t).insert key (f a) = mapValues f (t.insert key a) := by
  induction t with
  | nil => rfl
  | cons entry rest ih =>
    by_cases hk : entry.1 = key
    · simp [mapValues, Table.insert, hk]
    · simpa [mapValues, Table.insert, hk] using ih

theorem insertAll_mapValues (f : α → β) (t : Table κ α) (entries : List (κ × α)) :
    (mapValues f t).insertAll (mapValues f entries) = mapValues f (t.insertAll entries) := by
  induction entries generalizing t with
  | nil => rfl
  | cons entry entries ih =>
    show ((mapValues f t).insert entry.1 (f entry.2)).insertAll (mapValues f entries) = _
    rw [insert_mapValues, ih]
    rfl

end

/-! ## Tables under other keys -/

theorem keys_prefix_insert (t : Table κ α) (key : κ) (a : α) :
    t.keys <+: Table.keys (t.insert key a) := by
  induction t with
  | nil => exact List.nil_prefix
  | cons entry rest ih =>
    by_cases hk : entry.1 = key
    · rw [Table.insert, if_pos hk]
      exact List.prefix_rfl
    · rw [Table.insert, if_neg hk]
      exact (List.prefix_append_right_inj [entry.1]).2 ih

/-- Tables whose keys correspond go on to correspond where the keys that are written to do. -/
theorem forall₂_insert {ν β : Type} [DecidableEq ν] {f : ν → κ} {P : α → β → Prop} {t : Table κ α}
    {u : Table ν β} (h : List.Forall₂ (fun e e' => e.1 = f e'.1 ∧ P e.2 e'.2) t u) {key : ν}
    (hkey : ∀ k ∈ u.keys, f k = f key → k = key) {a : α} {b : β} (hab : P a b) :
    List.Forall₂ (fun e e' => e.1 = f e'.1 ∧ P e.2 e'.2) (t.insert (f key) a) (u.insert key b) := by
  induction h with
  | nil => exact .cons ⟨rfl, hab⟩ .nil
  | @cons entry entry' t u hentry h ih =>
    obtain ⟨hfirst, hrest⟩ := List.forall_mem_cons.1 hkey
    by_cases hk : entry'.1 = key
    · have hk' : entry.1 = f key := by rw [hentry.1, hk]
      rw [Table.insert, if_pos hk', Table.insert, if_pos hk]
      exact .cons ⟨hentry.1, hab⟩ h
    · have hk' : entry.1 ≠ f key := fun heq => hk (hfirst (hentry.1.symm.trans heq))
      rw [Table.insert, if_neg hk', Table.insert, if_neg hk]
      exact .cons hentry (ih hrest)

/-! ## Tables of tables -/

variable {ν : Type} [DecidableEq ν] {all : Table κ (Table ν α)}

omit [DecidableEq ν] in
/-- The entries of all parts with a key. -/
def entriesAt (key : κ) (parts : Table κ (Table ν α)) : Table ν α :=
  parts.flatMap fun part => if part.1 = key then part.2 else []

theorem getD_get?_foldl_merge (all parts : Table κ (Table ν α)) (key : κ) :
    ((Table.get? (parts.foldl merge all) key).getD []) =
      ((all.get? key).getD []).insertAll (entriesAt key parts) := by
  induction parts generalizing all with
  | nil => rfl
  | cons part parts ih =>
    rw [List.foldl_cons, ih]
    by_cases hkey : part.1 = key
    · subst hkey
      simp [merge, get?_insert_self, entriesAt, insertAll]
    · simp [merge, get?_insert_of_ne _ _ hkey, entriesAt, hkey]

omit [DecidableEq ν] in
theorem entriesAt_of_not_mem {parts : Table κ (Table ν α)} (h : key ∉ parts.keys) :
    entriesAt key parts = [] := by
  refine List.flatMap_eq_nil_iff.2 fun part hpart => if_neg ?_
  rintro rfl
  exact h (List.mem_map.2 ⟨part, hpart, rfl⟩)

omit [DecidableEq ν] in
/-- Where all parts have different keys, one of them has the entries of a key. -/
theorem entriesAt_of_nodup {parts : Table κ (Table ν α)} (h : parts.keys.Nodup) (key : κ) :
    entriesAt key parts = (parts.get? key).getD [] := by
  induction parts with
  | nil => rfl
  | cons part parts ih =>
    obtain ⟨hnew, hrest⟩ := List.nodup_cons.1 h
    rw [entriesAt, List.flatMap_cons, get?]
    by_cases hkey : part.1 = key
    · subst hkey
      rw [if_pos rfl, if_pos rfl]
      show part.2 ++ entriesAt part.1 parts = part.2
      rw [entriesAt_of_not_mem hnew, List.append_nil]
    · rw [if_neg hkey, if_neg hkey]
      exact ih hrest

omit [DecidableEq ν] in
theorem entriesAt_mapValues {β : Type} (f : α → β) (parts : Table κ (Table ν α)) (key : κ) :
    entriesAt key (mapValues (mapValues f) parts) = mapValues f (entriesAt key parts) := by
  unfold entriesAt mapValues
  rw [List.flatMap_map, List.map_flatMap]
  refine congrArg (List.flatMap · parts) (funext fun part => ?_)
  dsimp only
  split <;> rfl

/-- Whether all keys are different, as are those of each table. -/
structure WellKeyed (all : Table κ (Table ν α)) : Prop where
  keys : all.keys.Nodup
  entries : ∀ {key part}, all.get? key = some part → (Table.keys part).Nodup

namespace WellKeyed

omit [DecidableEq ν] in
theorem nodup_getD (h : all.WellKeyed) (key : κ) : (Table.keys ((all.get? key).getD [])).Nodup := by
  cases hpart : all.get? key with
  | none => exact nodup_keys_nil
  | some part => exact h.entries hpart

omit [DecidableEq ν] in
theorem insert (h : all.WellKeyed) (key : κ) {part : Table ν α} (hpart : part.keys.Nodup) :
    (Table.insert all key part).WellKeyed := by
  refine ⟨nodup_keys_insert h.keys key part, fun {other found} hfound => ?_⟩
  rcases eq_or_of_get?_insert hfound with rfl | hfound
  · exact hpart
  · exact h.entries hfound

theorem foldl_merge (h : all.WellKeyed) (parts : Table κ (Table ν α)) :
    WellKeyed (parts.foldl merge all) := by
  induction parts generalizing all with
  | nil => exact h
  | cons part parts ih =>
    exact ih (h.insert part.1 (nodup_keys_insertAll (h.nodup_getD part.1) part.2))

end WellKeyed

/-- The entries of a part, each named by the key of the part as well. -/
def withKey (part : κ × Table ν α) : Table (κ × ν) α := part.2.map fun e => ((part.1, e.1), e.2)

theorem get?_insertAll_withKey (part : κ × Table ν α) (key : κ) (name : ν) {t : Table ν α}
    {u : Table (κ × ν) α} (h : t.get? name = u.get? (key, name)) :
    (t.insertAll (if part.1 = key then part.2 else [])).get? name =
      (u.insertAll (withKey part)).get? (key, name) := by
  obtain ⟨k, entries⟩ := part
  by_cases hkey : k = key
  · subst hkey
    rw [if_pos rfl]
    induction entries generalizing t u with
    | nil => exact h
    | cons e entries ih =>
      refine ih (t := t.insert e.1 e.2) (u := u.insert (k, e.1) e.2) ?_
      by_cases hname : e.1 = name
      · subst hname
        rw [get?_insert_self, get?_insert_self]
      · have hpair : (k, e.1) ≠ (k, name) := fun heq => hname (Prod.mk.inj heq).2
        rw [get?_insert_of_ne _ _ hname, get?_insert_of_ne _ _ hpair, h]
  · rw [if_neg hkey]
    have hne : ∀ p ∈ withKey (k, entries), p.1 ≠ (key, name) := by
      intro p hp heq
      obtain ⟨e, -, rfl⟩ := List.mem_map.1 hp
      exact hkey (Prod.mk.inj heq).1
    rw [get?_insertAll_of_not_mem hne]
    exact h

/-- What is found under two keys is an entry that both of them name. -/
theorem get?_insertAll_entriesAt (parts : Table κ (Table ν α)) (key : κ) (name : ν)
    {t : Table ν α} {u : Table (κ × ν) α} (h : t.get? name = u.get? (key, name)) :
    (t.insertAll (entriesAt key parts)).get? name =
      (u.insertAll (parts.flatMap withKey)).get? (key, name) := by
  induction parts generalizing t u with
  | nil => exact h
  | cons part parts ih =>
    simp only [entriesAt, List.flatMap_cons, insertAll, List.foldl_append]
    exact ih (get?_insertAll_withKey part key name h)

end Table

end StoryScript
