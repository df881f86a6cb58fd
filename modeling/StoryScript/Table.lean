/-! Ordered tables: each key has one entry, a new key goes to the end, and writing to a key that is
there keeps its place. -/

namespace StoryScript

abbrev Table (κ α : Type) := List (κ × α)

namespace Table

variable {κ α : Type} [DecidableEq κ]

def get? : Table κ α → κ → Option α
  | [], _ => none
  | (k, a) :: rest, key => if k = key then some a else get? rest key

def contains (t : Table κ α) (key : κ) : Bool := (t.get? key).isSome

def keys (t : Table κ α) : List κ := t.map Prod.fst

/-- Writes an entry: in place if the key is there, at the end if it is new. -/
def insert : Table κ α → κ → α → Table κ α
  | [], key, a => [(key, a)]
  | (k, b) :: rest, key, a => if k = key then (k, a) :: rest else (k, b) :: insert rest key a

def erase : Table κ α → κ → Table κ α
  | [], _ => []
  | (k, a) :: rest, key => if k = key then rest else (k, a) :: erase rest key

def insertAll (t : Table κ α) (entries : List (κ × α)) : Table κ α :=
  entries.foldl (fun t e => t.insert e.1 e.2) t

/-- The table of a list of entries, of which the last one for a key counts. -/
def ofEntries (entries : List (κ × α)) : Table κ α := insertAll [] entries

/-- Writes entries to the table under a key, which is empty if there is none. -/
def merge {ν : Type} [DecidableEq ν] (all : Table κ (Table ν α)) (part : κ × Table ν α) :
    Table κ (Table ν α) :=
  all.insert part.1 (((all.get? part.1).getD []).insertAll part.2)

@[simp] theorem get?_nil (key : κ) : get? ([] : Table κ α) key = none := rfl

theorem mem_of_get? {t : Table κ α} {key : κ} {a : α} (h : t.get? key = some a) :
    (key, a) ∈ t := by
  fun_induction get? t key with
  | case1 => cases h
  | case2 =>
    obtain rfl := Option.some.inj h
    exact List.mem_cons_self
  | case3 _ _ _ _ _ ih => exact List.mem_cons_of_mem _ (ih h)

theorem get?_insert_self (t : Table κ α) (key : κ) (a : α) :
    (t.insert key a).get? key = some a := by
  induction t with
  | nil => simp [insert, get?]
  | cons e rest ih =>
    obtain ⟨k, b⟩ := e
    by_cases h : k = key <;> simp [insert, get?, h, ih]

theorem get?_insert_of_ne (t : Table κ α) {key other : κ} (a : α) (h : key ≠ other) :
    (t.insert key a).get? other = t.get? other := by
  induction t with
  | nil => simp [insert, get?, h]
  | cons e rest ih =>
    obtain ⟨k, b⟩ := e
    by_cases hk : k = key
    · subst hk; simp [insert, get?, h]
    · by_cases ho : k = other
      · subst ho; simp [insert, get?, hk]
      · simp [insert, get?, hk, ho, ih]

/-- What is found in a table that an entry was written to is the entry, or was found before. -/
theorem eq_or_of_get?_insert {t : Table κ α} {key other : κ} {a b : α}
    (h : (t.insert key a).get? other = some b) : b = a ∨ t.get? other = some b := by
  by_cases hkey : key = other
  · subst hkey
    rw [get?_insert_self] at h
    exact .inl (Option.some.inj h).symm
  · rw [get?_insert_of_ne t a hkey] at h
    exact .inr h

end Table

end StoryScript
