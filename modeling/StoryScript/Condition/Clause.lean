import StoryScript.Value.Basic

/-! Clauses: conditions separated by commas, and the two pairs of clauses that a choice or a branch
may carry. Of a pair, the conditions of the first clause must all hold and of the second at least
one; a clause may also be a fixed answer. -/

namespace StoryScript

namespace Clause

/-- The conditions of a clause of which the front was read already: `depth` parentheses are open,
less those closed without being open, and `read` holds what was read since the last comma that
separates, in reverse. -/
def splitFrom : (depth : Int) → (read : Text) → Text → List Text
  | _, read, [] =>
    let last := Text.trim read.reverse
    if last.isEmpty then [] else [last]
  | depth, read, c :: cs =>
    let depth := if c = '(' then depth + 1 else if c = ')' then depth - 1 else depth
    if c = ',' ∧ depth = 0 then Text.trim read.reverse :: splitFrom depth [] cs
    else splitFrom depth (c :: read) cs

/-- The conditions of a clause. A comma separates where as many parentheses were closed as opened,
and nothing stands for a blank end. -/
def split (t : Text) : List Text := splitFrom 0 [] t

end Clause

/-- A clause is a fixed answer or a list of conditions in one text. -/
inductive Clause where
  | fixed (answer : Bool)
  | conditions (text : Text)
deriving DecidableEq, Repr

/-- The pairs of clauses: one decides what is shown, the other what can be chosen. -/
inductive Gate.Family where
  | visibility
  | availability
deriving DecidableEq, Repr

/-- A pair of clauses, either of which may be missing. -/
structure Gate where
  all : Option Clause
  any : Option Clause
deriving DecidableEq, Repr

namespace Clause

/-- Other values than texts and truth values are no clauses. -/
def ofValue? : Value → Option Clause
  | .text t => some (conditions t)
  | .bool b => some (fixed b)
  | _ => none

end Clause

namespace Gate

def Family.allKey : Family → Text
  | .visibility => "if"
  | .availability => "active"

def Family.anyKey : Family → Text
  | .visibility => "ifOr"
  | .availability => "activeOr"

/-- The names that hold clauses and are therefore never actions. -/
def clauseKeys : List Text :=
  [Family.visibility.allKey, Family.visibility.anyKey, Family.availability.allKey,
    Family.availability.anyKey]

def isClauseKey (name : Text) : Bool := clauseKeys.contains name

def ofEntries (family : Family) (entries : Table Text Value) : Gate :=
  { all := (entries.get? family.allKey).bind Clause.ofValue?
    any := (entries.get? family.anyKey).bind Clause.ofValue? }

variable {m : Type → Type} [Monad m]

/-- Whether all conditions hold, tested up to the first that does not. -/
def allHold (test : Text → m Bool) : List Text → m Bool
  | [] => pure true
  | c :: cs => do if ← test c then allHold test cs else return false

/-- Whether some condition holds, tested up to the first that does. -/
def anyHolds (test : Text → m Bool) : List Text → m Bool
  | [] => pure false
  | c :: cs => do if ← test c then return true else anyHolds test cs

def passesAll (test : Text → m Bool) : Option Clause → m Bool
  | none => pure true
  | some (.fixed answer) => pure answer
  | some (.conditions t) => allHold test (Clause.split t)

def passesAny (test : Text → m Bool) : Option Clause → m Bool
  | none => pure true
  | some (.fixed answer) => pure answer
  | some (.conditions t) => anyHolds test (Clause.split t)

/-- A gate without clauses is open. -/
def passes (test : Text → m Bool) (gate : Gate) : m Bool := do
  if ← passesAll test gate.all then passesAny test gate.any else return false

end Gate

end StoryScript
