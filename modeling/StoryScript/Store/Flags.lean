import StoryScript.Notice
import StoryScript.Value.Sum

/-! Flags by container. `gold` is a flag of the current container and `cave.gold` one of the
container `cave`; a flag that was never set is zero. Main statements: setting a flag changes what
that flag reads as and nothing else (`get_set_self`, `get_set_of_ne`). -/

namespace StoryScript

structure FlagStore where
  current : Key
  containers : Table Key (Table Key Value)
deriving Repr

namespace FlagStore

instance : Inhabited FlagStore := ⟨⟨.text "main", [(.text "main", [])]⟩⟩

/-- The store that starts with flags by container. The current container is there even if no flags
of it are given. -/
def create (current : Key) (flags : Table Key (Table Key Value)) : FlagStore :=
  ⟨current, flags.foldl Table.merge [(current, [])]⟩

/-- The container and the name that a flag is kept under: what stands before and after the last
point, with the current container where nothing stands before it. -/
def locate (s : FlagStore) (flag : Text) : Key × Key :=
  match Text.cutLast? '.' flag with
  | some ([], name) => (s.current, .text name)
  | some (container, name) => (.text container, .text name)
  | none => (s.current, .text flag)

/-- The value at a place of the store; zero where there is none. -/
def valueAt (s : FlagStore) (place : Key × Key) : Value :=
  (((s.containers.get? place.1).getD []).get? place.2).getD (.int 0)

def get (s : FlagStore) (flag : Text) : Value := s.valueAt (s.locate flag)

def setAt (s : FlagStore) (place : Key × Key) (v : Value) : FlagStore :=
  let container := (s.containers.get? place.1).getD []
  { s with containers := s.containers.insert place.1 (container.insert place.2 v) }

def set (s : FlagStore) (flag : Text) (v : Value) : FlagStore := s.setAt (s.locate flag) v

/-- Adds to a flag, unless its value and the amount have no sum. -/
def add (s : FlagStore) (flag : Text) (amount : Value) : Except Failure FlagStore :=
  ((s.get flag).plus amount).map (s.set flag)

theorem valueAt_setAt_self (s : FlagStore) (place : Key × Key) (v : Value) :
    (s.setAt place v).valueAt place = v := by
  simp [setAt, valueAt, Table.get?_insert_self]

theorem valueAt_setAt_of_ne (s : FlagStore) {place other : Key × Key} (v : Value)
    (h : place ≠ other) : (s.setAt place v).valueAt other = s.valueAt other := by
  obtain ⟨container, name⟩ := place
  obtain ⟨container', name'⟩ := other
  by_cases hc : container = container'
  · subst hc
    have hn : name ≠ name' := fun hn => h (by rw [hn])
    simp [setAt, valueAt, Table.get?_insert_self, Table.get?_insert_of_ne _ _ hn]
  · simp [setAt, valueAt, Table.get?_insert_of_ne _ _ hc]

theorem get_set_self (s : FlagStore) (flag : Text) (v : Value) : (s.set flag v).get flag = v :=
  valueAt_setAt_self s (s.locate flag) v

theorem get_set_of_ne (s : FlagStore) {flag other : Text} (v : Value)
    (h : s.locate flag ≠ s.locate other) : (s.set flag v).get other = s.get other :=
  valueAt_setAt_of_ne s v h

inductive Change.Kind where
  | assign
  | increase
  | decrease
deriving DecidableEq, Repr

/-- A change of one flag as it was written; the amount may turn out not to be a number. -/
structure Change where
  flag : Text
  kind : Change.Kind
  amount : Value
deriving Repr

namespace Change

def Kind.signs : List (Char × Kind) := [('=', .assign), ('>', .increase), ('<', .decrease)]

/-- Reads a trimmed pair of a flag and an amount with a sign between them. -/
def ofPair (pair : Text) : Except Notice Change :=
  match Kind.signs.findSome? fun s => (Text.cut? s.1 pair).map fun p => (s.2, p) with
  | none => .error (.noFlagOperator pair)
  | some (kind, key, amount) =>
    let key := key.trim
    if key.isEmpty then .error (.emptyFlagKey pair) else .ok ⟨key, kind, .text amount.trim⟩

/-- The changes that a text lists, and what there is to report about the others. -/
def ofText (t : Text) : List (Except Notice Change) :=
  (((Text.fields ',' t).map Text.trim).filter fun pair => !pair.isEmpty).map ofPair

def ofEntries (entries : Table Text Value) : List Change :=
  entries.map fun e => ⟨e.1, .assign, e.2⟩

end Change

def amountOf : Value → Except Failure (Option Binary64)
  | .text t => .ok (Quantity.read? t)
  | .null | .list _ | .map _ => .ok none
  | v => (v.toSummand).map some

/-- A number as a flag holds it, whole numbers as integers. -/
def heldValue (x : Binary64) : Value :=
  match x.toInt? with
  | some n => .int n
  | none => .float x

def negated : Value → Value
  | .int n => .int (-n)
  | .float x => .float x.neg
  | v => v

/-- What came of changes to a store: how far they got, what there is to report, and what stopped
them. -/
structure Applied where
  store : FlagStore
  notices : List Notice
  failure : Option Failure

def change (s : FlagStore) (c : Change) : Except Failure (FlagStore × List Notice) := do
  match ← amountOf c.amount with
  | none => return (s, [.flagNotANumber c.amount c.flag])
  | some x =>
    match c.kind with
    | .assign => return (s.set c.flag (heldValue x), [])
    | .increase => return (← s.add c.flag (heldValue x), [])
    | .decrease => return (← s.add c.flag (negated (heldValue x)), [])

/-- Makes changes one after another, up to the first that fails. -/
def changeAll (s : FlagStore) : List Change → Applied
  | [] => ⟨s, [], none⟩
  | c :: cs =>
    match s.change c with
    | .error failure => ⟨s, [], some failure⟩
    | .ok (s', notices) =>
      let rest := changeAll s' cs
      { rest with notices := notices ++ rest.notices }

/-- Applies what a story says about flags: a text of changes, all of which are read before the
first is made, or a map of assignments. -/
def apply (s : FlagStore) : Value → Applied
  | .text t =>
    let read := Change.ofText t
    let complaints := read.filterMap fun c => match c with | .error n => some n | .ok _ => none
    let applied := s.changeAll (read.filterMap Except.toOption)
    { applied with notices := complaints ++ applied.notices }
  | .map entries => s.changeAll (Change.ofEntries entries)
  | _ => ⟨s, [], some .notAMap⟩

end FlagStore

end StoryScript
