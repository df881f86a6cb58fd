import StoryScript.Block.Object
import StoryScript.Proofs.Action.Merging

/-!
# What is read of blocks

Main statement: a block that can be read names nothing twice (`Block.nodup_keys_of_parse`), as each
member of an object is written to a table.
-/

namespace StoryScript

theorem exists_of_bind_eq_ok {ε α β : Type} {x : Except ε α} {f : α → Except ε β} {b : β}
    (h : (x >>= f) = .ok b) : ∃ a, x = .ok a ∧ f a = .ok b := by
  cases x with
  | error => cases h
  | ok a => exact ⟨a, rfl, h⟩

namespace Json

theorem nodup_keys_of_members {fuel : Nat} {entries read : Table Text Value} {t rest : Text}
    (hentries : entries.keys.Nodup) (h : members fuel entries t = .ok (read, rest)) :
    read.keys.Nodup := by
  induction fuel generalizing entries t with
  | zero => cases h
  | succ fuel ih =>
    rw [members.eq_def] at h
    dsimp only at h
    split at h
    · obtain ⟨⟨name, u⟩, -, h⟩ := exists_of_bind_eq_ok h
      dsimp only at h
      split at h
      · obtain ⟨⟨v, u⟩, -, h⟩ := exists_of_bind_eq_ok h
        dsimp only at h
        have hwritten := Table.nodup_keys_insert hentries name v
        split at h
        · obtain ⟨rfl, -⟩ := Prod.mk.inj (Except.ok.inj h)
          exact hwritten
        · exact ih hwritten h
        · cases h
      · cases h
    · cases h

/-- A number is no object. -/
theorem number_ne_map {start rest : Text} {entries : Table Text Value} :
    number start ≠ .ok (.map entries, rest) := by
  unfold number
  split
  extract_lets whole
  split
  · nofun
  · split
    split
    split
    · split <;> nofun
    · nofun

theorem named?_ne_map {t rest : Text} {entries : Table Text Value} :
    named? t ≠ some (.map entries, rest) := by
  intro h
  obtain ⟨n, hn, hvalue⟩ := List.exists_of_findSome?_eq_some h
  obtain ⟨u, -, hn'⟩ := Option.map_eq_some_iff.1 hvalue
  have hmap : n.2 = .map entries := congrArg Prod.fst hn'
  have hnone : ∀ n ∈ named, ∀ entries, n.2 ≠ .map entries := by
    simp [named]
  exact hnone n hn entries hmap

theorem nodup_keys_of_value {fuel : Nat} {entries : Table Text Value} {t rest : Text}
    (h : value fuel t = .ok (.map entries, rest)) : entries.keys.Nodup := by
  cases fuel with
  | zero => cases h
  | succ fuel =>
    rw [value.eq_def] at h
    dsimp only at h
    split at h
    · obtain ⟨⟨s, u⟩, -, h⟩ := exists_of_bind_eq_ok h
      cases h
    · split at h
      · cases h
        exact Table.nodup_keys_nil
      · obtain ⟨⟨read, u⟩, hread, h⟩ := exists_of_bind_eq_ok h
        cases h
        exact nodup_keys_of_members Table.nodup_keys_nil hread
    · split at h
      · cases h
      · obtain ⟨⟨items, u⟩, -, h⟩ := exists_of_bind_eq_ok h
        cases h
    · split at h
      · next found hfound =>
        obtain rfl := Except.ok.inj h
        exact absurd hfound named?_ne_map
      · exact absurd h number_ne_map

theorem nodup_keys_of_parse {entries : Table Text Value} {t : Text}
    (h : parse t = .ok (.map entries)) : entries.keys.Nodup := by
  unfold parse at h
  split at h
  · next v hdocument =>
    obtain rfl := Except.ok.inj h
    unfold document at hdocument
    split at hdocument
    · cases hdocument
    · obtain ⟨⟨v, rest⟩, hvalue, hdocument⟩ := exists_of_bind_eq_ok hdocument
      dsimp only at hdocument
      split at hdocument
      · cases hdocument
        exact nodup_keys_of_value hvalue
      · cases hdocument
  · cases h

end Json

/-- A block that can be read names nothing twice. -/
theorem Block.nodup_keys_of_parse {repair : Repair} {block : Text} {entries : Table Text Value}
    (h : Block.parse repair block = .ok entries) : entries.keys.Nodup := by
  unfold Block.parse at h
  split at h
  · next hread =>
    obtain rfl := Except.ok.inj h
    exact Json.nodup_keys_of_parse hread
  · cases h
  · cases h

end StoryScript
