import StoryScript.Engine.Actions
import StoryScript.Engine.Gates
import StoryScript.Markup.Code
import StoryScript.Markup.Speaker
import StoryScript.Markup.Style

/-! Resolving a text, in this order: code spans, placeholders, branches, templates, action blocks,
the speaker and styles. A template's fragment is resolved in the same way, one level deeper. -/

namespace StoryScript

/-- Placeholders `|name|`. -/
def placeholderMarks : Delimiter := ⟨"|", "|", (· != '|'), true⟩

/-- Template references `|$name|`, of which the inside follows the dollar sign. -/
def templateMarks : Delimiter := ⟨"|$", "|", (· != '|'), true⟩

/-- A text whose templates were substituted, with the actions they asked for, or the redirection
that takes its place. -/
inductive Substitution where
  | text (output : Text) (actions : ActionMap)
  | redirected (resolution : Resolution)

namespace Engine

variable {σ : Type} (e : Engine σ) (re : Reentry σ)

def callPlaceholder (expression : Text) : Run σ Text :=
  match Reference.read? [] expression with
  | none => .ofExcept (.error (.authoring (.placeholderFormat expression)))
  | some r => do
    let getter ← Run.ofExcept (entry .placeholder e.placeholders r.name)
    return (← (getter r.arguments).run re).render

/-- The text of a placeholder, which is left as it is written if it fails. -/
def substitutePlaceholder (expression : Text) : Run σ Text := do
  match ← Run.attempt (callPlaceholder e re expression) with
  | .ok t => return t
  | .error failure =>
    Run.notify <|
      if failure.isOfStory then .placeholderRejected expression failure
      else .placeholderFailed expression failure
    return placeholderMarks.written expression

/-- Substitutes placeholders from left to right; template references are left alone. -/
def placeholderPass : List Cut → Run σ Text
  | [] => pure []
  | .plain t :: cuts => do return t ++ (← placeholderPass cuts)
  | .span inner :: cuts => do
    let t ←
      if inner.head? = some '$' then pure (placeholderMarks.written inner)
      else substitutePlaceholder e re inner
    return t ++ (← placeholderPass cuts)

def resolvePlaceholders (t : Text) : Run σ Text := placeholderPass e re (placeholderMarks.cut t)

def reaches (depth : Nat) : Value → Except Failure Bool
  | .int n => .ok (n ≤ depth)
  | .bool b => .ok ((if b then 1 else 0) ≤ depth)
  | .float x => .ok (x.le (.ofNat depth))
  | _ => .error (.mismatch .templateDepth)

def limitOf : Value → Int
  | .int n => n
  | .bool b => if b then 1 else 0
  | .float x => x.truncate?.getD 0
  | _ => 0

/-- How deep templates are followed at most, where an endless limit counts as a thousand. -/
def levels (s : Settings) : Nat :=
  match s.maxTemplateDepth with
  | .float .nan => 1000
  | .float (.infinite _) => 1000
  | limit => (limitOf limit).toNat + 1

/-- What a template reference is replaced by: the resolution of its fragment, or nothing when the
reference stays as it is written. -/
def substituteTemplate (nested : Text → Run σ Resolution) (reference : Text) :
    Run σ (Option Resolution) := do
  let s ← Run.getState
  if ← Run.ofExcept (reaches s.depth e.settings.maxTemplateDepth) then
    Run.notify (.templateTooDeep reference (limitOf e.settings.maxTemplateDepth))
    return none
  match e.loadFragment s.flags.current reference with
  | .error failure =>
    if failure.isOfStory then
      Run.notify (.templateRejected reference failure)
      return none
    else .ofExcept (.error failure)
  | .ok (.text t) => return some (← Run.deeper (nested t))
  | .ok _ => .ofExcept (.error (.mismatch .fragment))

/-- Substitutes templates from left to right, up to the first that redirects. -/
def templatePass (nested : Text → Run σ Resolution) (output : Text) (found : ActionMap) :
    List Cut → Run σ Substitution
  | [] => pure (.text output found)
  | .plain t :: cuts => templatePass nested (output ++ t) found cuts
  | .span inner :: cuts => do
    match ← substituteTemplate e nested ('$' :: inner) with
    | none => templatePass nested (output ++ templateMarks.written inner) found cuts
    | some r =>
      if r.redirected then return .redirected r
      else templatePass nested (output ++ r.output) (found.insertAll r.actions.payloads) cuts

def resolveCode (t : Text) : Text := Code.resolve e.settings.codeClass.display t

/-- Styles a text with the tags that there are at a memory of the hosts. -/
def resolveStyles (memory : σ) (t : Text) : Except Failure Text :=
  Style.resolve (e.tags memory).italic.display (e.tags memory).bold.display t

/-- Resolves a text whose templates are followed a number of levels deep. -/
def resolveWithin (dryRun : Bool) : (levels : Nat) → Text → Run σ Resolution
  | 0, _ => .ofExcept (.error .exhausted)
  | levels + 1, t => do
    let t ← resolvePlaceholders e re (resolveCode e t)
    let t ← resolveBranches e re t
    match ← templatePass e (resolveWithin dryRun levels) [] .empty (templateMarks.cut t) with
    | .redirected r => return r
    | .text t found =>
      let extraction ← extract e re t dryRun
      if extraction.redirected then return .redirect extraction.actions
      else
        let (speaker, t) := Speaker.split extraction.output
        let output ← Run.ofExcept (resolveStyles e (← Run.getState).memory t)
        return ⟨output, found.insertAll extraction.actions.payloads, speaker, false⟩

def resolveBefore : Text := "resolve_before"

/-- A resolution as it is returned at a memory of the hosts. The payloads that it reports are the
objects that actions were given. A dry run gives none away, and an object that redirects is given to
none. -/
def delivered (dryRun : Bool) (memory : σ) (r : Resolution) : Resolution :=
  if dryRun || r.redirected then r else { r with actions := e.actionsAt memory r.actions }

/-- Resolves a text, unless a callback stops that before it begins. -/
def resolve (t : Text) (dryRun : Bool) : Run σ Resolution := do
  if ← e.trigger re resolveBefore [.text t] then
    let r ← resolveWithin e re dryRun (levels e.settings + 1) t
    if !r.redirected then Run.change fun s => { s with talking := r.speaker }
    return delivered e dryRun (← Run.getState).memory r
  else return .empty

/-- What host programs may ask for when they may call the engine a number of levels deep. -/
def reentryWithin (e : Engine σ) : (levels : Nat) → Reentry σ
  | 0 => .none σ
  | levels + 1 =>
    { resolve := fun t => resolve e (reentryWithin e levels) t false
      trigger := fun name arguments => e.trigger (reentryWithin e levels) name arguments }

/-- How deeply host programs and the engine may call each other. -/
def reentryLimit : Nat := 100

def reentry : Reentry σ := reentryWithin e reentryLimit

end Engine

end StoryScript
