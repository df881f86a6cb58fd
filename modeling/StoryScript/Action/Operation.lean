import StoryScript.Action.Map

/-! Operations on action maps, of which some fail. Each goes to one table and then to the other, so
what the first one took out stays out where the second one fails; and an update writes pair by pair,
so what it wrote stays written where it breaks off. -/

namespace StoryScript.ActionMap

/-- Takes a name out of the payloads and then out of the kinds. -/
def delete (m : ActionMap) (name : Text) : Except Failure Value × ActionMap :=
  if m.payloads.contains name then
    if m.kinds.contains name then (.ok .null, m.erase name)
    else (.error (.noSuchAction name), { m with payloads := m.payloads.erase name })
  else (.error (.noSuchAction name), m)

/-- Takes a name out and answers with its payload, or with a default if the name is not there and a
default is given. -/
def popOr (m : ActionMap) (name : Text) (default : Option Value) :
    Except Failure Value × ActionMap :=
  match m.get? name with
  | some payload =>
    let (answer, m') := m.delete name
    (answer.map fun _ => payload, m')
  | none => (default.elim (.error (.noSuchAction name)) .ok, m)

/-- Takes names out one after another, up to the first that fails. -/
def deleteAll (m : ActionMap) : List Text → ActionMap
  | [] => m
  | name :: names =>
    match m.delete name with
    | (.ok _, m') => deleteAll m' names
    | (.error _, m') => m'

/-- Takes out the first name until there is none. -/
def clear (m : ActionMap) : ActionMap := m.deleteAll m.names

/-- Pairs as an update takes them one after another. What gives them may fail behind the last, as
where the next is no pair. -/
structure PairStream where
  pairs : List (Text × Value)
  broken : Option Failure

namespace PairStream

def whole (pairs : List (Text × Value)) : PairStream := ⟨pairs, none⟩

def answer (given : PairStream) : Except Failure Value := given.broken.elim (.ok .null) .error

end PairStream

inductive Operation where
  | set (name : Text) (payload : Value)
  | delete (name : Text)
  | pop (name : Text) (default : Option Value)
  | update (given : PairStream)
  | clear

/-- What an operation answers, and the map that it leaves. -/
def perform (m : ActionMap) : Operation → Except Failure Value × ActionMap
  | .set name payload => (.ok .null, m.insert name payload)
  | .delete name => m.delete name
  | .pop name default => m.popOr name default
  | .update given => (given.answer, m.insertAll given.pairs)
  | .clear => (.ok .null, m.clear)

/-- A new map of pairs. There is none if they break off. -/
def construct (given : PairStream) : Except Failure ActionMap :=
  (empty.perform (.update given)).1.map fun _ => (empty.perform (.update given)).2

end StoryScript.ActionMap
