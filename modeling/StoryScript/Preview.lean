import StoryScript.Engine.Choices
import StoryScript.Engine.Resolve
import StoryScript.Store.Names
import StoryScript.Validation.Check

/-! The preview service: requests about a story that one engine answers in turn. A request comes
with the members of the object that it carries, if it carries one. A request that makes no sense is
told so; a failure that no handler expects goes through. -/

namespace StoryScript.Preview

abbrev Members := Table Text Value

structure Response where
  status : Nat
  body : Members

namespace Response

def json (entries : Members) : Response := ⟨200, entries⟩

def badRequest (message : Text) : Response := ⟨400, [("error", .text message)]⟩

end Response

def textMember? (entries : Members) (name : Text) : Option Text :=
  match entries.get? name with
  | some (.text t) => some t
  | _ => none

/-- Whether a member is given and counts as true. -/
def flagMember (entries : Members) (name : Text) : Bool :=
  ((entries.get? name).map Value.isTrue).getD false

/-- Whether a failure is the fault of the request, and told as such. -/
def isOfRequest : Failure → Bool
  | .mismatch _ => true
  | failure => failure.isOfStory

variable {σ : Type} (e : Engine σ)

def paramsMember (entries : Members) : Except Failure Params :=
  match entries.get? "params" with
  | none | some .null => .ok .nothing
  | some (.map es) => .ok (.entries es)
  | some (.text t) => ((e.readBlock t).mapError Failure.authoring).map Params.entries
  | some _ => .error (.mismatch .params)

/-- An answer in which the failures of the request are told; others go through. -/
def telling (x : Run σ Response) : Run σ Response := do
  match ← Run.attempt x with
  | .ok r => return r
  | .error failure =>
    if isOfRequest failure then return .badRequest failure.message
    else .ofExcept (.error failure)

/-- What can be asked for. -/
inductive Endpoint where
  | resolve
  | evaluate
  | choice
  | validate
  | flags
deriving DecidableEq, Repr

/-- What is said of a request that does not carry what its endpoint needs. -/
def Endpoint.expected : Endpoint → Text
  | .resolve | .validate => "Expected a JSON object with a 'text' string"
  | .choice => "Expected a JSON object with an 'id' string"
  | .evaluate | .flags => "Expected a JSON object"

def optionalText : Option Text → Value
  | some t => .text t
  | none => .null

def resolveText (t : Text) (entries : Members) : Run σ Response := do
  let resolution ← e.resolve e.reentry t (flagMember entries "dry_run")
  return .json
    [("output", .text resolution.output), ("speaker", optionalText resolution.speaker),
      ("actions", .map resolution.actions.payloads),
      ("redirected", .bool resolution.redirected)]

def evaluate (entries : Members) : Run σ Response :=
  telling do
    let params ← Run.ofExcept (paramsMember e entries)
    let actions ← Run.ofExcept ((params.toActions e.repair).mapError Failure.authoring)
    let family : Gate.Family :=
      if flagMember entries "active" then .availability else .visibility
    let answer ← e.opens e.reentry (.ofEntries family actions.payloads)
    return .json [("result", .bool answer)]

/-- Makes a choice, tells how it stands and, where asked for, selects it. -/
def choose (id : Text) (entries : Members) : Run σ Response :=
  telling do
    let params ← Run.ofExcept (paramsMember e entries)
    let c ← e.createChoice e.reentry id ((entries.get? "name").getD .null) params
    let shown ← Run.ofExcept c.displayName
    let visible ← e.isVisible e.reentry c
    let available ← e.isAvailable e.reentry c
    let selected : Members ←
      if flagMember entries "select" then
        pure [("selected".toList, Value.bool (← e.selectChoice e.reentry c))]
      else pure []
    let told : Members :=
      [("id", .text c.id), ("name", c.name), ("display_name", shown),
        ("visible", .bool visible), ("available", .bool available),
        ("params", .map c.params.payloads)]
    return .json (told ++ selected)

def issueValue (i : Issue) : Value :=
  .map [("line", .int i.line), ("column", .int i.column), ("severity", .text i.severity.name),
    ("message", .text i.finding.message), ("suggestion", optionalText i.finding.suggestion?)]

def statsValue (s : ScriptStats) : Value :=
  .map [("chains", .int s.chains), ("conditions", .int s.conditions),
    ("action_blocks", .int s.actionBlocks), ("placeholders", .int s.placeholders),
    ("templates", .int s.templates)]

def validate (t : Text) : Run σ Response := do
  let v := Validation.ofScript e (← Run.getState).flags.current t
  return .json
    [("valid", .bool v.passed), ("issues", .list (v.issues.map issueValue)),
      ("stats", statsValue v.stats)]

def showFlags : Run σ Response := do
  let s := (← Run.getState).flags
  return .json [("current", s.current.toValue), ("flags", s.toValue)]

/-- Answers a request. -/
def handle (endpoint : Endpoint) (body : Option Members) : Run σ Response :=
  let rejected : Run σ Response := pure (.badRequest endpoint.expected)
  match endpoint, body with
  | .flags, _ => showFlags
  | _, none => rejected
  | .resolve, some entries =>
    match textMember? entries "text" with
    | some t => resolveText e t entries
    | none => rejected
  | .evaluate, some entries => evaluate e entries
  | .choice, some entries =>
    match textMember? entries "id" with
    | some id => choose e id entries
    | none => rejected
  | .validate, some entries =>
    match textMember? entries "text" with
    | some t => validate e t
    | none => rejected

end StoryScript.Preview
