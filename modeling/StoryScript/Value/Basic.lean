import StoryScript.Text.Basic
import StoryScript.Number.Binary64
import StoryScript.Table

/-! Values: what flags hold, what hosts return and what action blocks are made of. An integer is
exact and of any size, and is a different value from the floating-point number it equals. -/

namespace StoryScript

inductive Value where
  | null
  | bool (b : Bool)
  | int (n : Int)
  | float (x : Binary64)
  | text (t : Text)
  | list (items : List Value)
  | map (entries : List (Text × Value))
deriving Repr, Inhabited

/-- The values that can name a container or a flag. -/
inductive Key where
  | null
  | bool (b : Bool)
  | int (n : Int)
  | float (x : Binary64)
  | text (t : Text)
deriving DecidableEq, Repr, Inhabited

namespace Key

def toValue : Key → Value
  | .null => .null
  | .bool b => .bool b
  | .int n => .int n
  | .float x => .float x
  | .text t => .text t

end Key

namespace Value

def toKey? : Value → Option Key
  | .null => some .null
  | .bool b => some (.bool b)
  | .int n => some (.int n)
  | .float x => some (.float x)
  | .text t => some (.text t)
  | .list _ | .map _ => none

/-- Nothing, zero and everything empty count as false. -/
def isTrue : Value → Bool
  | .null => false
  | .bool b => b
  | .int n => n != 0
  | .float x => !x.isZero
  | .text t => !t.isEmpty
  | .list items => !items.isEmpty
  | .map entries => !entries.isEmpty

def isText : Value → Bool
  | .text _ => true
  | _ => false

mutual

/-- Whether two values are the same value, of the same kind. -/
def isExactly : Value → Value → Bool
  | .null, .null => true
  | .bool a, .bool b => a = b
  | .int m, .int n => m = n
  | .float x, .float y => x = y
  | .text s, .text t => s = t
  | .list items, .list items' => areExactly items items'
  | .map entries, .map entries' => entriesAreExactly entries entries'
  | _, _ => false

def areExactly : List Value → List Value → Bool
  | [], [] => true
  | v :: vs, w :: ws => isExactly v w && areExactly vs ws
  | _, _ => false

def entriesAreExactly : List (Text × Value) → List (Text × Value) → Bool
  | [], [] => true
  | (k, v) :: es, (l, w) :: fs => k = l && isExactly v w && entriesAreExactly es fs
  | _, _ => false

end

mutual

theorem isExactly_iff : ∀ v w : Value, isExactly v w ↔ v = w
  | .list items, w => by cases w <;> simp [isExactly, areExactly_iff items]
  | .map entries, w => by cases w <;> simp [isExactly, entriesAreExactly_iff entries]
  | .null, w | .bool _, w | .int _, w | .float _, w | .text _, w => by cases w <;> simp [isExactly]

theorem areExactly_iff : ∀ vs ws : List Value, areExactly vs ws ↔ vs = ws
  | [], ws => by cases ws <;> simp [areExactly]
  | v :: vs, ws => by cases ws <;> simp [areExactly, isExactly_iff v, areExactly_iff vs]

theorem entriesAreExactly_iff : ∀ es fs : List (Text × Value), entriesAreExactly es fs ↔ es = fs
  | [], fs => by cases fs <;> simp [entriesAreExactly]
  | (k, v) :: es, fs => by
    cases fs with
    | nil => simp [entriesAreExactly]
    | cons f fs =>
      obtain ⟨l, w⟩ := f
      simp [entriesAreExactly, isExactly_iff v, entriesAreExactly_iff es]

end

instance : DecidableEq Value := fun v w => decidable_of_iff _ (isExactly_iff v w)

end Value

end StoryScript
