import StoryScript.Action.Map
import StoryScript.Proofs.Table

/-!
# Merging entries into action maps

Entries are merged one by one: a name keeps the place of its first entry and the payload of its
last. Main statements: merging what entries come to is merging the entries
(`ActionMap.insertAll_payloads`), a name is found if an entry has it, and what is found is what the
last list with such an entry comes to (`ActionMap.contains_ofEntries`,
`ActionMap.get?_ofEntries_append`), and how often an action runs depends only on what is found
(`ActionMap.invocations_congr`).
-/

namespace StoryScript

namespace ActionMap

variable {m m' : ActionMap} {name : Text}

theorem payloads_insertAll (m : ActionMap) (entries : List (Text × Value)) :
    (m.insertAll entries).payloads = m.payloads.insertAll entries := by
  induction entries generalizing m with
  | nil => rfl
  | cons entry entries ih => exact ih (m.insert entry.1 entry.2)

theorem eq_of_payloads_eq (h : m.Consistent) (h' : m'.Consistent)
    (hpayloads : m.payloads = m'.payloads) : m = m' := by
  obtain ⟨payloads, kinds⟩ := m
  obtain ⟨payloads', kinds'⟩ := m'
  cases hpayloads
  exact congrArg (ActionMap.mk payloads) (h.trans h'.symm)

theorem nodup_names_ofEntries (entries : List (Text × Value)) :
    (ofEntries entries).names.Nodup := by
  rw [names, ofEntries, payloads_insertAll]
  exact Table.nodup_keys_insertAll Table.nodup_keys_nil entries

/-- Entries with all different names are kept as they are. -/
theorem payloads_ofEntries {entries : Table Text Value} (h : entries.keys.Nodup) :
    (ofEntries entries).payloads = entries := by
  rw [ofEntries, payloads_insertAll]
  exact Table.insertAll_eq_append h

theorem insertAll_append (m : ActionMap) (entries more : List (Text × Value)) :
    m.insertAll (entries ++ more) = (m.insertAll entries).insertAll more :=
  List.foldl_append

/-- Merging what entries come to is merging the entries. -/
theorem insertAll_payloads (hm : m.Consistent) (entries : List (Text × Value)) :
    m.insertAll (ofEntries entries).payloads = m.insertAll entries := by
  apply eq_of_payloads_eq (consistent_insertAll hm _) (consistent_insertAll hm _)
  rw [payloads_insertAll, payloads_insertAll, ofEntries, payloads_insertAll]
  exact Table.insertAll_insertAll m.payloads Table.nodup_keys_nil entries

theorem mem_names_ofEntries {entries : List (Text × Value)} :
    name ∈ (ofEntries entries).names ↔ ∃ p ∈ entries, p.1 = name := by
  rw [names, ofEntries, payloads_insertAll, Table.mem_keys_insertAll]
  exact or_iff_right List.not_mem_nil

theorem contains_ofEntries {entries : List (Text × Value)} :
    (ofEntries entries).contains name ↔ ∃ p ∈ entries, p.1 = name :=
  Table.contains_iff.trans mem_names_ofEntries

/-- Of lists of entries, the last one with an entry of a name decides what is found under it. -/
theorem get?_ofEntries_append (before : List (Text × Value)) {entries after : List (Text × Value)}
    (h : ∃ p ∈ entries, p.1 = name) (hafter : ∀ p ∈ after, p.1 ≠ name) :
    (ofEntries (before ++ (entries ++ after))).get? name = (ofEntries entries).get? name := by
  rw [ofEntries, insertAll_append, insertAll_append]
  simp only [get?, ofEntries, payloads_insertAll]
  rw [Table.get?_insertAll_of_not_mem hafter]
  exact Table.get?_insertAll_of_mem h

theorem Consistent.kinds_eq (h : m.Consistent) :
    m.kinds = Table.mapValues PayloadKind.ofValue m.payloads := h

theorem Consistent.kind?_eq (h : m.Consistent) (name : Text) :
    m.kind? name = (m.get? name).map PayloadKind.ofValue := by
  rw [kind?, h.kinds_eq]
  exact Table.get?_mapValues PayloadKind.ofValue m.payloads name

/-- How often an action runs, and with which payloads, depends only on what is found. -/
theorem invocations_congr (h : m.Consistent) (h' : m'.Consistent)
    (hget : m.get? name = m'.get? name) : m.invocations name = m'.invocations name := by
  rw [invocations, invocations, h.kind?_eq, h'.kind?_eq, hget]

end ActionMap

end StoryScript
