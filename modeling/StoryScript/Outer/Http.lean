import StoryScript.Json.Reader
import StoryScript.Preview

/-! What stands around the preview service: how the object of a request is found in its body, which
path leads to what, and what is answered where a handler fails. -/

namespace StoryScript.Preview

structure Request where
  method : Text
  path : Text
  contentType : Option Text
  body : Text

/-- The kinds of content that are read as JSON; parameters after a semicolon do not matter. -/
def isJson (contentType : Text) : Bool :=
  let kind := (Text.trim (contentType.takeWhile (· ≠ ';'))).map Char.toLower
  kind == "application/json".toList ||
    ((Text.after? "application/" kind).isSome && Text.takeEnd 5 kind == "+json".toList)

/-- The object that a request carries, if it does; a mark of the byte order before it is allowed. -/
def Request.members? (r : Request) : Option Members :=
  if (r.contentType.map isJson).getD false then
    let body := match r.body with
      | '\uFEFF' :: rest => rest
      | t => t
    match Json.parse body with
    | .ok (.map entries) => some entries
    | _ => none
  else none

/-- A status and, where the answer is JSON, its value. -/
structure Answer where
  status : Nat
  body : Option Value

namespace Answer

/-- An answer that says nothing but its status. -/
def bare (status : Nat) : Answer := ⟨status, none⟩

end Answer

mutual

/-- A value with the members of every map in order of their names. -/
def sorted : Value → Value
  | .list items => .list (sortedItems items)
  | .map entries => .map ((sortedEntries entries).mergeSort fun a b => Text.le a.1 b.1)
  | v => v

def sortedItems : List Value → List Value
  | [] => []
  | v :: vs => sorted v :: sortedItems vs

def sortedEntries : List (Text × Value) → List (Text × Value)
  | [] => []
  | (k, v) :: es => (k, sorted v) :: sortedEntries es

end

/-- Whether keys have a common order: of texts, or of numbers. -/
def sortable (keys : List Key) : Bool :=
  keys.length ≤ 1 || keys.all (fun k => k.toValue.isText) ||
    keys.all fun k => match k with
      | .bool _ | .int _ | .float _ => true
      | _ => false

/-- What is asked for by a path, and the method it is for. -/
def endpointOf? (path : Text) : Option (Text × Endpoint) :=
  if path = ("/api/resolve" : Text) then some ("POST", .resolve)
  else if path = ("/api/evaluate" : Text) then some ("POST", .evaluate)
  else if path = ("/api/choice" : Text) then some ("POST", .choice)
  else if path = ("/api/validate" : Text) then some ("POST", .validate)
  else if path = ("/api/flags" : Text) then some ("GET", .flags)
  else none

variable {σ : Type} (e : Engine σ)

/-- Has a request handled. A failure is an internal error, and so are flags of which the keys of
some table have no order. -/
def answerOf (endpoint : Endpoint) (r : Request) (s : State σ) : Answer × State σ :=
  match (handle e endpoint r.members?).on s with
  | (.error _, s) => (.bare 500, s)
  | (.ok response, s) =>
    let shows :=
      sortable s.flags.containers.keys && s.flags.containers.all fun c => sortable c.2.keys
    if endpoint = .flags && !shows then (.bare 500, s)
    else (⟨response.status, some (sorted (.map response.body))⟩, s)

def answer (r : Request) (s : State σ) : Answer × State σ :=
  match endpointOf? r.path with
  | none => (.bare 404, s)
  | some (method, endpoint) =>
    if r.method = method then answerOf e endpoint r s
    else if r.method = ("OPTIONS" : Text) then (.bare 200, s)
    else if r.method = ("HEAD" : Text) && method = ("GET" : Text) then
      let (a, s) := answerOf e endpoint r s
      (if a.status = 500 then a else .bare 200, s)
    else (.bare 405, s)

/-- Answers a request and gives what there is to report about it. -/
def respond (s : State σ) (r : Request) : Answer × List Notice × State σ :=
  let (a, s') := answer e r s
  (a, s'.notices.drop s.notices.length, s')

end StoryScript.Preview
