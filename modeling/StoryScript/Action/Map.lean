import StoryScript.Failure
import StoryScript.Value.Compare

/-! Action maps: what one text or choice asks for, by the names of the actions and in the order in
which they were first named. Beside each payload stands its kind, which tells how often the action
runs. Main statement: the kinds are those of the payloads after every operation
(`ActionMap.Consistent` and its lemmas). -/

namespace StoryScript

/-- A list asks for one run of the action per element, everything else for one run. -/
inductive PayloadKind where
  | scalar
  | keyed
  | sequence
deriving DecidableEq, Repr

namespace PayloadKind

def ofValue : Value → PayloadKind
  | .list _ => sequence
  | .map _ => keyed
  | _ => scalar

def name : PayloadKind → Text
  | scalar => "scalar"
  | keyed => "keyed"
  | sequence => "sequence"

end PayloadKind

structure ActionMap where
  payloads : Table Text Value
  kinds : Table Text PayloadKind
deriving Repr

namespace ActionMap

def empty : ActionMap := ⟨[], []⟩

instance : Inhabited ActionMap := ⟨empty⟩

def get? (m : ActionMap) (name : Text) : Option Value := m.payloads.get? name

def kind? (m : ActionMap) (name : Text) : Option PayloadKind := m.kinds.get? name

def contains (m : ActionMap) (name : Text) : Bool := m.payloads.contains name

def names (m : ActionMap) : List Text := m.payloads.keys

def insert (m : ActionMap) (name : Text) (payload : Value) : ActionMap :=
  ⟨m.payloads.insert name payload, m.kinds.insert name (.ofValue payload)⟩

def erase (m : ActionMap) (name : Text) : ActionMap := ⟨m.payloads.erase name, m.kinds.erase name⟩

def insertAll (m : ActionMap) (entries : List (Text × Value)) : ActionMap :=
  entries.foldl (fun m e => m.insert e.1 e.2) m

def ofEntries (entries : List (Text × Value)) : ActionMap := insertAll empty entries

def pop (m : ActionMap) (name : Text) : Option Value × ActionMap :=
  match m.get? name with
  | some payload => (some payload, m.erase name)
  | none => (none, m)

def invocations (m : ActionMap) (name : Text) : List Value :=
  match m.get? name, m.kind? name with
  | some (.list items), some .sequence => items
  | some payload, _ => [payload]
  | none, _ => []

/-- Whether a map has the same names with equal payloads, in whatever order. -/
def same (m : ActionMap) (entries : List (Text × Value)) : Bool :=
  Value.same (.map m.payloads) (.map entries)

def toList (m : ActionMap) : List (Text × PayloadKind × Value) :=
  m.payloads.map fun e => (e.1, (m.kind? e.1).getD .scalar, e.2)

/-- Every payload has its own kind beside it, in the same order. -/
def Consistent (m : ActionMap) : Prop :=
  m.kinds = m.payloads.map fun e => (e.1, PayloadKind.ofValue e.2)

theorem consistent_empty : empty.Consistent := rfl

theorem consistent_insert {m : ActionMap} (h : m.Consistent) (name : Text) (payload : Value) :
    (m.insert name payload).Consistent := by
  obtain ⟨payloads, kinds⟩ := m
  simp only [Consistent, insert] at h ⊢
  subst h
  induction payloads with
  | nil => rfl
  | cons e rest ih =>
    obtain ⟨k, b⟩ := e
    by_cases hk : k = name <;> simp [Table.insert, hk, ih]

theorem consistent_erase {m : ActionMap} (h : m.Consistent) (name : Text) :
    (m.erase name).Consistent := by
  obtain ⟨payloads, kinds⟩ := m
  simp only [Consistent, erase] at h ⊢
  subst h
  induction payloads with
  | nil => rfl
  | cons e rest ih =>
    obtain ⟨k, b⟩ := e
    by_cases hk : k = name <;> simp [Table.erase, hk, ih]

theorem consistent_insertAll {m : ActionMap} (h : m.Consistent) (entries : List (Text × Value)) :
    (m.insertAll entries).Consistent := by
  induction entries generalizing m with
  | nil => exact h
  | cons e rest ih => exact ih (consistent_insert h e.1 e.2)

theorem consistent_ofEntries (entries : List (Text × Value)) : (ofEntries entries).Consistent :=
  consistent_insertAll consistent_empty entries

end ActionMap

end StoryScript
