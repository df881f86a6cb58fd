import Mathlib.Logic.Function.Basic
import StoryScript.Action.Operation
import StoryScript.Proofs.Action.Merging

/-!
# Action maps as ordered maps

A chronicle is a map that knows when each of its names was added (`Chronicle`): a name that is
written again keeps its date, and one that was taken out gets a new date. An action map holds what a
chronicle says if it finds the same payloads and has its names by their dates
(`Chronicle.Describes`). Main statements: operations keep the kinds of an action map those of its
payloads (`ActionMap.consistent_perform`), and go along with the operations of a chronicle
(`Chronicle.Describes.perform`); so the two tables of an action map are in step after any
operations, and its order is that of a chronicle (`ActionMap.tables_in_step`).
-/

namespace StoryScript

namespace ActionMap

variable {m : ActionMap}

/-- The map after operations, where one that fails does not keep the next from being made. -/
def after (m : ActionMap) (ops : List Operation) : ActionMap :=
  ops.foldl (fun m op => (m.perform op).2) m

/-! ## The two tables -/

namespace Consistent

theorem keys_kinds (h : m.Consistent) : m.kinds.keys = m.payloads.keys := by
  rw [h.kinds_eq]
  exact List.map_map

/-- The second table has what the first one has, so nothing fails halfway. -/
theorem delete_eq (h : m.Consistent) (name : Text) :
    m.delete name =
      if m.contains name then (.ok .null, m.erase name) else (.error (.noSuchAction name), m) := by
  have hcontains : m.kinds.contains name = m.contains name :=
    Table.contains_eq_of_keys_eq h.keys_kinds
  rw [delete, hcontains]
  show (if m.contains name then _ else _) = _
  split <;> rfl

theorem popOr_eq (h : m.Consistent) (name : Text) (default : Option Value) :
    m.popOr name default =
      match m.pop name with
      | (some payload, m') => (.ok payload, m')
      | (none, m') => (default.elim (.error (.noSuchAction name)) .ok, m') := by
  rw [popOr, pop, h.delete_eq, contains, Table.contains, ← get?]
  cases m.get? name <;> rfl

theorem clear_eq (h : m.Consistent) : m.clear = empty := by
  have hdelete (payloads : Table Text Value) :
      deleteAll ⟨payloads, Table.mapValues PayloadKind.ofValue payloads⟩ payloads.keys = empty := by
    induction payloads with
    | nil => rfl
    | cons entry rest ih =>
      have hfirst := delete_eq (m := ⟨entry :: rest, Table.mapValues .ofValue (entry :: rest)⟩)
        rfl entry.1
      have hthere : Table.contains (entry :: rest) entry.1 := by simp [Table.contains, Table.get?]
      rw [contains, if_pos hthere] at hfirst
      show deleteAll _ (entry.1 :: Table.keys rest) = _
      rw [deleteAll, hfirst]
      simpa [erase, Table.erase, Table.mapValues] using ih
  obtain ⟨payloads, kinds⟩ := m
  obtain rfl : kinds = Table.mapValues PayloadKind.ofValue payloads := h
  exact hdelete payloads

end Consistent

/-- Operations keep the kinds those of the payloads. -/
theorem consistent_perform (h : m.Consistent) (op : Operation) : (m.perform op).2.Consistent := by
  cases op with
  | set name payload => exact consistent_insert h name payload
  | update given => exact consistent_insertAll h given.pairs
  | clear =>
    show m.clear.Consistent
    rw [h.clear_eq]
    exact consistent_empty
  | delete name =>
    rw [perform, h.delete_eq]
    split
    · exact consistent_erase h name
    · exact h
  | pop name default =>
    rw [perform, h.popOr_eq, pop]
    cases m.get? name with
    | some payload => exact consistent_erase h name
    | none => exact h

theorem eq_of_construct {given : PairStream} (h : construct given = .ok m) :
    m = ofEntries given.pairs ∧ given.broken = none := by
  obtain ⟨pairs, broken⟩ := given
  cases broken with
  | none =>
    cases h
    exact ⟨rfl, rfl⟩
  | some failure => cases h

theorem consistent_after (h : m.Consistent) (ops : List Operation) : (m.after ops).Consistent := by
  induction ops generalizing m with
  | nil => exact h
  | cons op ops ih => exact ih (consistent_perform h op)

/-- An operation that fails leaves both tables as they are, unless it is an update. -/
theorem perform_of_error (h : m.Consistent) {op : Operation} {failure : Failure}
    (hupdate : ∀ given, op ≠ .update given) (hfails : (m.perform op).1 = .error failure) :
    (m.perform op).2 = m := by
  cases op with
  | set | clear => cases hfails
  | update given => exact absurd rfl (hupdate given)
  | delete name =>
    rw [perform, h.delete_eq] at hfails ⊢
    cases hname : m.contains name with
    | true =>
      rw [hname, if_pos rfl] at hfails
      cases hfails
    | false => rfl
  | pop name default =>
    rw [perform, h.popOr_eq, pop] at hfails ⊢
    cases hname : m.get? name with
    | some payload =>
      rw [hname] at hfails
      cases hfails
    | none => rfl

end ActionMap

/-! ## Chronicles -/

/-- A map with the date at which each of its names was added. -/
structure Chronicle where
  now : Nat
  entry? : Text → Option (Nat × Value)

namespace Chronicle

open ActionMap (Operation)

def empty : Chronicle := ⟨0, fun _ => none⟩

def payload? (c : Chronicle) (name : Text) : Option Value := (c.entry? name).map Prod.snd

/-- When a name was added, or what date it is if it was not. -/
def added (c : Chronicle) (name : Text) : Nat := ((c.entry? name).map Prod.fst).getD c.now

/-- Writes a payload at a new date. A name that is there keeps its own date. -/
def write (c : Chronicle) (name : Text) (payload : Value) : Chronicle :=
  ⟨c.now + 1, Function.update c.entry? name (some (c.added name, payload))⟩

def forget (c : Chronicle) (name : Text) : Chronicle :=
  { c with entry? := Function.update c.entry? name none }

def writeAll (c : Chronicle) (entries : List (Text × Value)) : Chronicle :=
  entries.foldl (fun c e => c.write e.1 e.2) c

/-- What an operation answers, and the chronicle that it leaves. -/
def perform (c : Chronicle) : Operation → Except Failure Value × Chronicle
  | .set name payload => (.ok .null, c.write name payload)
  | .delete name =>
    match c.payload? name with
    | some _ => (.ok .null, c.forget name)
    | none => (.error (.noSuchAction name), c)
  | .pop name default =>
    match c.payload? name with
    | some payload => (.ok payload, c.forget name)
    | none => (default.elim (.error (.noSuchAction name)) .ok, c)
  | .update given => (given.answer, c.writeAll given.pairs)
  | .clear => (.ok .null, { c with entry? := fun _ => none })

def after (c : Chronicle) (ops : List Operation) : Chronicle :=
  ops.foldl (fun c op => (c.perform op).2) c

theorem payload?_write (c : Chronicle) (name : Text) (payload : Value) (other : Text) :
    (c.write name payload).payload? other =
      if other = name then some payload else c.payload? other := by
  by_cases h : other = name <;> simp [payload?, write, h]

theorem payload?_forget (c : Chronicle) (name other : Text) :
    (c.forget name).payload? other = if other = name then none else c.payload? other := by
  by_cases h : other = name <;> simp [payload?, forget, h]

theorem added_of_eq_none {c : Chronicle} {name : Text} (h : c.payload? name = none) :
    c.added name = c.now := by
  rw [added, Option.map_eq_none_iff.1 h]
  rfl

theorem added_write_self (c : Chronicle) (name : Text) (payload : Value) :
    (c.write name payload).added name = c.added name := by
  simp [added, write]

/-- What is there keeps its date. -/
theorem added_write {c : Chronicle} {name other : Text} {payload held : Value}
    (h : c.payload? other = some held) : (c.write name payload).added other = c.added other := by
  by_cases hname : other = name
  · exact hname ▸ c.added_write_self name payload
  · obtain ⟨entry, hentry, -⟩ := Option.map_eq_some_iff.1 h
    simp [added, write, hname, hentry]

theorem added_forget (c : Chronicle) {name other : Text} (h : other ≠ name) :
    (c.forget name).added other = c.added other := by
  simp [added, forget, h]

/-- Whether entries are those of a chronicle by their dates, all of which are past. -/
structure Describes (c : Chronicle) (t : Table Text Value) : Prop where
  get?_eq : ∀ name, t.get? name = c.payload? name
  sorted : t.keys.Pairwise fun earlier later => c.added earlier < c.added later
  past : ∀ name ∈ t.keys, c.added name < c.now

theorem describes_nil (now : Nat) : Describes ⟨now, fun _ => none⟩ [] :=
  ⟨fun _ => rfl, .nil, List.forall_mem_nil _⟩

namespace Describes

variable {c : Chronicle} {t : Table Text Value}

theorem nodup (h : c.Describes t) : t.keys.Nodup :=
  h.sorted.imp fun hless heq => Nat.ne_of_lt hless (congrArg c.added heq)

theorem exists_payload (h : c.Describes t) {name : Text} (hname : name ∈ t.keys) :
    ∃ held, c.payload? name = some held := by
  rw [← h.get?_eq]
  exact Option.isSome_iff_exists.1 (Table.contains_iff.2 hname)

theorem added_of_not_mem (h : c.Describes t) {name : Text} (hname : name ∉ t.keys) :
    c.added name = c.now :=
  added_of_eq_none ((h.get?_eq name).symm.trans (Table.get?_eq_none_iff.2 hname))

theorem write (h : c.Describes t) (name : Text) (payload : Value) :
    (c.write name payload).Describes (t.insert name payload) := by
  have hkept : ∀ other ∈ t.keys, (c.write name payload).added other = c.added other := by
    intro other hother
    obtain ⟨held, hheld⟩ := h.exists_payload hother
    exact added_write hheld
  refine ⟨fun other => ?_, ?_, fun other hother => ?_⟩
  · rw [payload?_write]
    split
    · next heq => rw [heq, Table.get?_insert_self]
    · next hne => rw [Table.get?_insert_of_ne _ _ (Ne.symm hne), h.get?_eq]
  · have hsorted : t.keys.Pairwise fun earlier later =>
        (c.write name payload).added earlier < (c.write name payload).added later := by
      refine h.sorted.imp_of_mem fun hearlier hlater hless => ?_
      rwa [hkept _ hearlier, hkept _ hlater]
    by_cases hname : name ∈ t.keys
    · rwa [Table.keys_insert_of_mem hname]
    · -- A name that is new gets the date of today, and the dates in front of it are past.
      rw [Table.insert_of_not_mem hname, Table.keys, List.map_append]
      refine List.pairwise_append.2
        ⟨hsorted, List.pairwise_singleton _ _, fun other hother last hlast => ?_⟩
      obtain rfl := List.mem_singleton.1 hlast
      rw [added_write_self, h.added_of_not_mem hname, hkept other hother]
      exact h.past other hother
  · rcases Table.mem_keys_insert.1 hother with hother | rfl
    · rw [hkept other hother]
      exact Nat.lt_succ_of_lt (h.past other hother)
    · rw [added_write_self]
      refine Nat.lt_succ_of_le ?_
      by_cases hname : other ∈ t.keys
      · exact Nat.le_of_lt (h.past other hname)
      · exact Nat.le_of_eq (h.added_of_not_mem hname)

theorem forget (h : c.Describes t) (name : Text) :
    (c.forget name).Describes (Table.erase t name) := by
  have hsublist : (Table.keys (Table.erase t name)).Sublist t.keys :=
    (Table.erase_sublist t name).map Prod.fst
  have hgone : name ∉ Table.keys (Table.erase t name) :=
    Table.get?_eq_none_iff.1 (Table.get?_erase_self h.nodup name)
  have hkept : ∀ other ∈ Table.keys (Table.erase t name),
      (c.forget name).added other = c.added other :=
    fun other hother => c.added_forget (ne_of_mem_of_not_mem hother hgone)
  refine ⟨fun other => ?_, ?_, fun other hother => ?_⟩
  · rw [payload?_forget]
    split
    · next heq => rw [heq, Table.get?_erase_self h.nodup]
    · next hne => rw [Table.get?_erase_of_ne _ (Ne.symm hne), h.get?_eq]
  · refine (h.sorted.sublist hsublist).imp_of_mem fun hearlier hlater hless => ?_
    rwa [hkept _ hearlier, hkept _ hlater]
  · rw [hkept other hother]
    exact h.past other (hsublist.subset hother)

theorem writeAll (h : c.Describes t) (entries : List (Text × Value)) :
    (c.writeAll entries).Describes (t.insertAll entries) := by
  induction entries generalizing c t with
  | nil => exact h
  | cons e entries ih => exact ih (h.write e.1 e.2)

/-- An operation of an action map is one of its chronicle, and answers the same. -/
theorem perform {m : ActionMap} (hm : m.Consistent) (h : c.Describes m.payloads) (op : Operation) :
    (m.perform op).1 = (c.perform op).1 ∧
      (c.perform op).2.Describes (m.perform op).2.payloads := by
  cases op with
  | set name payload => exact ⟨rfl, h.write name payload⟩
  | update given =>
    refine ⟨rfl, ?_⟩
    show (c.writeAll given.pairs).Describes (m.insertAll given.pairs).payloads
    rw [ActionMap.payloads_insertAll]
    exact h.writeAll given.pairs
  | clear =>
    refine ⟨rfl, ?_⟩
    show Describes _ m.clear.payloads
    rw [hm.clear_eq]
    exact describes_nil c.now
  | delete name =>
    have hget : m.get? name = c.payload? name := h.get?_eq name
    rw [ActionMap.perform, hm.delete_eq, ActionMap.contains, Table.contains, h.get?_eq,
      Chronicle.perform]
    cases c.payload? name with
    | none => exact ⟨rfl, h⟩
    | some payload => exact ⟨rfl, h.forget name⟩
  | pop name default =>
    rw [ActionMap.perform, hm.popOr_eq, ActionMap.pop, ActionMap.get?, h.get?_eq, Chronicle.perform]
    cases c.payload? name with
    | none => exact ⟨rfl, h⟩
    | some payload => exact ⟨rfl, h.forget name⟩

theorem after {m : ActionMap} (hm : m.Consistent) (h : c.Describes m.payloads)
    (ops : List Operation) : (c.after ops).Describes (m.after ops).payloads := by
  induction ops generalizing c m with
  | nil => exact h
  | cons op ops ih => exact ih (ActionMap.consistent_perform hm op) (h.perform hm op).2

end Describes

end Chronicle

namespace ActionMap

/-- The tables of an action map stay in step. A map is there if the pairs it is made of do not break
off. After any operations on it, failed ones among them, the payloads and the kinds have the same
names, in one order; each kind is that of the payload; the next operation answers as that of a
chronicle of the same operations. If it fails and is no update, it leaves both tables as they are;
an update leaves what one of the pairs that it came to leaves, whether it breaks off behind them or
not. The names are in the order in which they were added, where a name that is written again keeps
its place, and one that was taken out and is written again comes last. -/
theorem tables_in_step (given : PairStream) {start : ActionMap}
    (hstart : construct given = .ok start) (ops : List Operation) :
    let m := start.after ops
    let c := (Chronicle.empty.writeAll given.pairs).after ops
    m.kinds.keys = m.payloads.keys ∧
      (∀ name, m.kind? name = (m.get? name).map PayloadKind.ofValue) ∧
      (∀ op, (m.perform op).1 = (c.perform op).1 ∧
        ∀ failure, (m.perform op).1 = .error failure → (∀ broken, op ≠ .update broken) →
          (m.perform op).2 = m) ∧
      (∀ broken : PairStream,
        (m.perform (.update broken)).2 = (m.perform (.update (.whole broken.pairs))).2) ∧
      (∀ name, m.get? name = c.payload? name) ∧
      m.names.Pairwise fun earlier later => c.added earlier < c.added later := by
  intro m c
  obtain ⟨rfl, -⟩ := eq_of_construct hstart
  have hdescribes :
      (Chronicle.empty.writeAll given.pairs).Describes (ofEntries given.pairs).payloads := by
    rw [ofEntries, payloads_insertAll]
    exact (Chronicle.describes_nil 0).writeAll given.pairs
  have hm : m.Consistent := consistent_after (consistent_ofEntries given.pairs) ops
  have hc : c.Describes m.payloads := hdescribes.after (consistent_ofEntries given.pairs) ops
  exact ⟨hm.keys_kinds, hm.kind?_eq,
    fun op => ⟨(hc.perform hm op).1, fun _ hfails hupdate => perform_of_error hm hupdate hfails⟩,
    fun _ => rfl, hc.get?_eq, hc.sorted⟩

def errand : PairStream := .whole [("greet", .null), ("pay", .int 5), ("sing", .text "low")]

/-- The pairs of an update that comes to something that is no pair. -/
def tornPairs : PairStream := ⟨[("greet", .map []), ("pay", .int 7)], some (.mismatch .entries)⟩

def secondThoughts : List Operation :=
  [.delete "greet", .set "pay" (.list [.int 3, .int 4]), .pop "sign" none, .update tornPairs]

/-- What was overwritten keeps its place, and what was taken out is last once it is written again,
although the update that does so breaks off. Taking out what is not there changes nothing. -/
theorem tables_in_step_errand :
    ∃ start, construct errand = .ok start ∧
      let m := start.after secondThoughts
      m.names = ["pay", "sing", "greet"] ∧ m.kinds.keys = m.names ∧
        m.kind? "greet" = some .keyed ∧ m.kind? "pay" = some .scalar ∧
        (m.perform (.delete "sign")).1 = .error (.noSuchAction "sign") ∧
        (m.perform (.delete "sign")).2 = m := by
  have hstart : construct errand = .ok (ofEntries errand.pairs) := rfl
  obtain ⟨hkeys, hkind, hperform, -, -, -⟩ := tables_in_step errand hstart secondThoughts
  have hfails : (((ofEntries errand.pairs).after secondThoughts).perform (.delete "sign")).1 =
      .error (.noSuchAction "sign") := rfl
  exact ⟨_, hstart, rfl, hkeys, hkind "greet", hkind "pay", hfails,
    (hperform (.delete "sign")).2 _ hfails fun _ heq => Operation.noConfusion heq⟩

/-- An update that breaks off fails and has changed both tables. -/
theorem update_breaks_off :
    let m := ofEntries [("pay", .int 0)]
    let torn : Operation :=
      .update ⟨[("pay", .list []), ("sing", .null)], some (.mismatch .entries)⟩
    (m.perform torn).1 = .error (.mismatch .entries) ∧
      m.names = ["pay"] ∧ (m.perform torn).2.names = ["pay", "sing"] ∧
      m.kind? "pay" = some .scalar ∧ (m.perform torn).2.kind? "pay" = some .sequence :=
  ⟨rfl, rfl, rfl, rfl, rfl⟩

end ActionMap

end StoryScript
