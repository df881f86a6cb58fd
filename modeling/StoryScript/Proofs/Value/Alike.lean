import Mathlib.Data.List.Forall2
import Mathlib.Data.List.Nodup
import StoryScript.Proofs.Table
import StoryScript.Value.Basic

/-!
# Values that are alike

Values that differ in their strings only (`Value.Alike`), where the names of an object are strings,
too. As members of one name are one member, objects can be alike that have different numbers of
members. Main statement: where a function takes the strings of one value back to those of the other
and keeps the names of each object apart, it takes back the value (`Value.Alike.eq_mapTexts`).
-/

namespace StoryScript

namespace Value

/-- Whether a value is neither a string nor a container. -/
def isPlain : Value → Bool
  | .null | .bool _ | .int _ | .float _ => true
  | .text _ | .list _ | .map _ => false

mutual

/-- A value and the values in it. -/
def parts : Value → List Value
  | .list items => .list items :: partsOfItems items
  | .map entries => .map entries :: partsOfEntries entries
  | v => [v]

def partsOfItems : List Value → List Value
  | [] => []
  | v :: vs => parts v ++ partsOfItems vs

def partsOfEntries : List (Text × Value) → List Value
  | [] => []
  | (_, v) :: entries => parts v ++ partsOfEntries entries

end

/-- The names of the members of an object. -/
def names : Value → List Text
  | .map entries => Table.keys entries
  | _ => []

theorem exists_map_of_names {v : Value} (h : v.names ≠ []) : ∃ entries, v = .map entries := by
  cases v with
  | map entries => exact ⟨entries, rfl⟩
  | _ => exact absurd rfl h

/-- The strings of a value itself, without those of the values in it. -/
def ownTexts : Value → List Text
  | .text s => [s]
  | v => v.names

/-- All strings of a value, names included. -/
def texts (v : Value) : List Text := v.parts.flatMap ownTexts

mutual

def mapTexts (f : Text → Text) : Value → Value
  | .text s => .text (f s)
  | .list items => .list (mapItems f items)
  | .map entries => .map (mapEntries f entries)
  | v => v

def mapItems (f : Text → Text) : List Value → List Value
  | [] => []
  | v :: vs => mapTexts f v :: mapItems f vs

def mapEntries (f : Text → Text) : List (Text × Value) → List (Text × Value)
  | [] => []
  | (n, v) :: entries => (f n, mapTexts f v) :: mapEntries f entries

end

/-- Two values that differ in their strings only, which are paired by `R`; objects are alike where
the members that they are written from are. -/
inductive Alike (R : Text → Text → Prop) : Value → Value → Prop
  | plain {v : Value} (h : v.isPlain) : Alike R v v
  | text {s s' : Text} (h : R s s') : Alike R (.text s) (.text s')
  | nil : Alike R (.list []) (.list [])
  | cons {v v' : Value} {vs vs' : List Value} (h : Alike R v v')
      (hs : Alike R (.list vs) (.list vs')) : Alike R (.list (v :: vs)) (.list (v' :: vs'))
  | empty : Alike R (.map []) (.map [])
  | insert {n n' : Text} {v v' : Value} {entries entries' : Table Text Value}
      (hentries : Alike R (.map entries) (.map entries')) (hname : R n n') (h : Alike R v v') :
      Alike R (.map (entries.insert n v)) (.map (entries'.insert n' v'))

namespace Alike

variable {R : Text → Text → Prop} {f : Text → Text}

theorem flip {v w : Value} (h : Alike R v w) : Alike (fun s s' => R s' s) w v := by
  induction h with
  | plain h => exact .plain h
  | text h => exact .text h
  | nil => exact .nil
  | cons _ _ ih ihs => exact .cons ih ihs
  | empty => exact .empty
  | insert _ hname _ ihentries ih => exact .insert ihentries hname ih

theorem exists_map {entries : Table Text Value} {w : Value} (h : Alike R (.map entries) w) :
    ∃ entries', w = .map entries' := by
  generalize hv : Value.map entries = v at h
  cases h with
  | plain h =>
    subst hv
    cases h
  | empty => exact ⟨_, rfl⟩
  | insert => exact ⟨_, rfl⟩
  | _ => cases hv

/-- Where names are kept apart, objects are alike member by member. -/
theorem forall₂ {entries entries' : Table Text Value} (h : Alike R (.map entries) (.map entries'))
    (hR : ∀ n ∈ Table.keys entries, ∀ n', R n n' → n = f n')
    (hnames : (entries'.keys.map f).Nodup) :
    List.Forall₂ (fun e e' => e.1 = f e'.1 ∧ Alike R e.2 e'.2) entries entries' := by
  generalize hv : Value.map entries = v at h
  generalize hw : Value.map entries' = w at h
  induction h generalizing entries entries' with
  | empty =>
    cases hv
    cases hw
    exact .nil
  | @insert n n' v v' before before' hentries hname h ih =>
    cases hv
    cases hw
    have hkeys := Table.keys_prefix_insert before n v
    have hkeys' := Table.keys_prefix_insert before' n' v'
    have hmem : n ∈ Table.keys (before.insert n v) := Table.mem_keys_insert.2 (.inr rfl)
    have hmem' : n' ∈ Table.keys (before'.insert n' v') := Table.mem_keys_insert.2 (.inr rfl)
    rw [hR n hmem n' hname]
    refine Table.forall₂_insert (ih ?_ ?_ rfl rfl) (fun k hk heq => ?_) h
    · exact fun m hm => hR m (hkeys.subset hm)
    · exact hnames.sublist (hkeys'.sublist.map f)
    · exact List.inj_on_of_nodup_map hnames (hkeys'.subset hk) hmem' heq
  | plain h =>
    subst hv
    cases h
  | _ => cases hv

theorem exists_list {items : List Value} {w : Value} (h : Alike R (.list items) w) :
    ∃ items', w = .list items' := by
  cases h with
  | plain h => cases h
  | nil => exact ⟨_, rfl⟩
  | cons => exact ⟨_, rfl⟩

mutual

theorem eq_mapTexts_of_parts : ∀ (v : Value) {w : Value}, Alike R v w →
    (∀ part ∈ v.parts, ∀ s ∈ part.ownTexts, ∀ s', R s s' → s = f s') →
    (∀ part ∈ w.parts, (part.names.map f).Nodup) → v = w.mapTexts f
  | .null, _, h, _, _ => by
    cases h
    rfl
  | .bool _, _, h, _, _ => by
    cases h
    rfl
  | .int _, _, h, _, _ => by
    cases h
    rfl
  | .float _, _, h, _, _ => by
    cases h
    rfl
  | .text s, _, h, hR, _ => by
    cases h with
    | plain h => cases h
    | text h =>
      exact congrArg Value.text (hR _ List.mem_cons_self s List.mem_cons_self _ h)
  | .list items, _, h, hR, hnames => by
    obtain ⟨items', rfl⟩ := h.exists_list
    exact congrArg Value.list (eq_mapItems items h
      (fun part hpart => hR part (List.mem_cons_of_mem _ hpart))
      fun part hpart => hnames part (List.mem_cons_of_mem _ hpart))
  | .map entries, _, h, hR, hnames => by
    obtain ⟨entries', rfl⟩ := h.exists_map
    exact congrArg Value.map (eq_mapEntries entries
      (h.forall₂ (hR _ List.mem_cons_self) (hnames _ List.mem_cons_self))
      (fun part hpart => hR part (List.mem_cons_of_mem _ hpart))
      fun part hpart => hnames part (List.mem_cons_of_mem _ hpart))

theorem eq_mapItems : ∀ (items : List Value) {items' : List Value},
    Alike R (.list items) (.list items') →
    (∀ part ∈ partsOfItems items, ∀ s ∈ part.ownTexts, ∀ s', R s s' → s = f s') →
    (∀ part ∈ partsOfItems items', (part.names.map f).Nodup) → items = mapItems f items'
  | [], _, h, _, _ => by
    cases h with
    | plain h => cases h
    | nil => rfl
  | v :: vs, _, h, hR, hnames => by
    cases h with
    | plain h => cases h
    | cons h hs =>
      rw [mapItems,
        ← eq_mapTexts_of_parts v h (fun part hpart => hR part (List.mem_append_left _ hpart))
          fun part hpart => hnames part (List.mem_append_left _ hpart),
        ← eq_mapItems vs hs (fun part hpart => hR part (List.mem_append_right _ hpart))
          fun part hpart => hnames part (List.mem_append_right _ hpart)]

theorem eq_mapEntries : ∀ (entries : List (Text × Value)) {entries' : List (Text × Value)},
    List.Forall₂ (fun e e' => e.1 = f e'.1 ∧ Alike R e.2 e'.2) entries entries' →
    (∀ part ∈ partsOfEntries entries, ∀ s ∈ part.ownTexts, ∀ s', R s s' → s = f s') →
    (∀ part ∈ partsOfEntries entries', (part.names.map f).Nodup) →
    entries = mapEntries f entries'
  | [], _, h, _, _ => by
    cases h
    rfl
  | (n, v) :: entries, _, h, hR, hnames => by
    cases h with
    | @cons _ e' _ _ h hs =>
      obtain ⟨n', v'⟩ := e'
      obtain ⟨rfl, h⟩ := h
      rw [mapEntries,
        ← eq_mapTexts_of_parts v h (fun part hpart => hR part (List.mem_append_left _ hpart))
          fun part hpart => hnames part (List.mem_append_left _ hpart),
        ← eq_mapEntries entries hs (fun part hpart => hR part (List.mem_append_right _ hpart))
          fun part hpart => hnames part (List.mem_append_right _ hpart)]

end

/-- Where the strings of one value are taken back to those of the other, and the names of each
object are kept apart, the value is taken back. -/
theorem eq_mapTexts {v w : Value} (h : Alike R v w) (hR : ∀ s ∈ v.texts, ∀ s', R s s' → s = f s')
    (hnames : ∀ part ∈ w.parts, (part.names.map f).Nodup) : v = w.mapTexts f :=
  eq_mapTexts_of_parts v h (fun part hpart s hs => hR s (List.mem_flatMap.2 ⟨part, hpart, hs⟩))
    hnames

end Alike

end Value

end StoryScript
