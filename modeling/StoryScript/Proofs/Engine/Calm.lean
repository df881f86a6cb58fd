import StoryScript.Engine.Resolve
import StoryScript.Proofs.Action.Merging
import StoryScript.Proofs.Block.Groups
import StoryScript.Proofs.Branch.Shown
import StoryScript.Proofs.Condition.Answers
import StoryScript.Proofs.Host.Calm

/-!
# Calm conditions, branches and blocks

An engine evaluates a condition calmly if it is written well and its key can be read
(`Engine.Evaluates`), and runs a block calmly if the block can be read and its names are registered
(`Engine.Runs`). Main statements: so are the branches of a tree with such conditions
(`Node.calm_render`, `Engine.calm_passes`) and the blocks of a closed text
(`Engine.calm_extractPieces`).
-/

namespace StoryScript

open Run

variable {σ : Type} {kept : FlagStore → σ → Prop} {fails : Failure → Prop}

namespace Gate

variable {test : Text → Run σ Bool} {cs : List Text}

theorem calm_allHold (h : ∀ c ∈ cs, Calm kept fails (fun _ => True) (test c)) :
    Calm kept fails (fun _ => True) (allHold test cs) := by
  induction cs with
  | nil => exact calm_pure trivial
  | cons c cs ih =>
    obtain ⟨hc, hcs⟩ := List.forall_mem_cons.1 h
    apply hc.bind
    intro holds _
    cases holds with
    | true => exact ih hcs
    | false => exact calm_pure trivial

theorem calm_anyHolds (h : ∀ c ∈ cs, Calm kept fails (fun _ => True) (test c)) :
    Calm kept fails (fun _ => True) (anyHolds test cs) := by
  induction cs with
  | nil => exact calm_pure trivial
  | cons c cs ih =>
    obtain ⟨hc, hcs⟩ := List.forall_mem_cons.1 h
    apply hc.bind
    intro holds _
    cases holds with
    | true => exact calm_pure trivial
    | false => exact ih hcs

end Gate

namespace Engine

variable (e : Engine σ) (re : Reentry σ)

/-! ## Conditions -/

/-- A condition that is a comparison which orders no texts, and of which the value on the left can
be read and counts as a number. -/
def Evaluates (kept : FlagStore → σ → Prop) (condition : Text) : Prop :=
  ∃ c, Comparison.read? e.sigil condition = some c ∧ c.ordersText = false ∧
    Calm kept (fun _ => False) (fun v => v.isNumeric) (e.conditionValue re c.key)

variable {e re}

theorem calm_conditionValue {key : Text}
    (hflag : Text.after? e.sigil key = none →
      ∀ flags memory, kept flags memory → (flags.get key).isNumeric)
    (hcall : Text.after? e.sigil key ≠ none →
      ∃ r getter, Reference.read? e.sigil key = some r ∧ e.conditions.get? r.name = some getter ∧
        (getter r.arguments).Quiet re kept fun v => v.isNumeric) :
    Calm kept fails (fun v => v.isNumeric) (e.conditionValue re key) := by
  unfold conditionValue
  cases hkey : Text.after? e.sigil key with
  | none => exact calm_readFlag (hflag hkey)
  | some rest =>
    obtain ⟨r, getter, hr, hgetter, hquiet⟩ := hcall (by simp [hkey])
    have hentry : entry .condition e.conditions r.name = .ok getter := by rw [entry, hgetter]
    simp only [hr, hentry]
    apply (calm_ofExcept_ok getter).bind
    intro g hg
    subst hg
    exact hquiet.calm

theorem calm_holds {condition : Text} (htrim : condition.trim = condition)
    (h : e.Evaluates re kept condition) :
    Calm kept (fun _ => False) (fun _ => True) (e.holds re condition) := by
  obtain ⟨c, hc, horders, hvalue⟩ := h
  rw [holds, htrim, hc]
  apply hvalue.bind
  intro actual hactual
  obtain ⟨b, hb⟩ := Comparison.holds_of_isNumeric horders hactual
  rw [hb]
  apply (calm_ofExcept_ok (some b)).bind
  intro answer hanswer
  subst hanswer
  exact calm_pure trivial

/-- A branch with such conditions passes or does not. -/
theorem calm_passes {b : Branch} (h : ∀ part ∈ Clause.split b.condition, e.Evaluates re kept part) :
    Calm kept fails (fun _ => True) (e.passes re b) := by
  have hparts : ∀ part ∈ Clause.split b.condition,
      Calm kept (fun _ => False) (fun _ => True) (e.holds re part) :=
    fun part hpart => calm_holds (Clause.trim_of_mem hpart) (h part hpart)
  have hopens : Calm kept (fun _ => False) (fun _ => True) (e.opens re (gateOf b)) := by
    unfold opens gateOf
    cases b.kind with
    | ifAll =>
      apply (Gate.calm_allHold hparts).bind
      intro passes _
      cases passes <;> exact calm_pure trivial
    | ifAny =>
      -- The gate has no clause of which all conditions must hold.
      have htrue : Calm kept (fun _ => False) (fun all => all = true) (pure true : Run σ Bool) :=
        calm_pure rfl
      apply htrue.bind
      intro all hall
      subst hall
      exact Gate.calm_anyHolds hparts
    | otherwise => exact calm_pure trivial
  unfold passes
  split
  · exact calm_pure trivial
  · apply hopens.attempt.bind
    intro answer hanswer
    obtain ⟨passes, rfl, -⟩ := hanswer
    exact calm_pure trivial

end Engine

namespace Node

/-- Where each branch is tested calmly, what a tree shows is made of texts of a kind if its literals
and bodies are. -/
theorem calm_render {P : Text → Prop} (hnil : P []) (happend : ∀ {t u}, P t → P u → P (t ++ u))
    {test : Branch → Run σ Bool} {nodes : List Node}
    (h : ∀ n ∈ nodes, n.All P fun b => P b.body ∧ Calm kept fails (fun _ => True) (test b)) :
    Calm kept fails P (render test nodes) := by
  have hchain {bs : List Branch}
      (h : ∀ b ∈ bs, P b.body ∧ Calm kept fails (fun _ => True) (test b)) :
      Calm kept fails P (firstPassing test bs) := by
    induction bs with
    | nil => exact calm_pure hnil
    | cons b bs ih =>
      obtain ⟨⟨hbody, htest⟩, hbs⟩ := List.forall_mem_cons.1 h
      apply htest.bind
      intro passes _
      cases passes with
      | true => exact calm_pure hbody
      | false => exact ih hbs
  induction nodes with
  | nil => exact calm_pure hnil
  | cons n nodes ih =>
    obtain ⟨hn, hnodes⟩ := List.forall_mem_cons.1 h
    cases n with
    | literal t => exact (ih hnodes).bind fun rest hrest => calm_pure (happend hn hrest)
    | chain c =>
      apply (hchain hn).bind
      intro t ht
      exact (ih hnodes).bind fun rest hrest => calm_pure (happend ht hrest)

end Node

namespace Engine

variable (e : Engine σ) (re : Reentry σ)

/-! ## Blocks -/

/-- A name of a block that is no action at all, or a registered one that waits, or is run quietly
with each of its payloads. -/
def RunsAction (kept : FlagStore → σ → Prop) (m : ActionMap) (name : Text) : Prop :=
  Gate.isClauseKey name = false → ∃ action, e.actions.get? name = some action ∧
    (action.eventDelayed = false →
      ∀ payload ∈ m.invocations name, (action.action payload).Quiet re kept fun _ => True)

/-- What stands inside a block that can be read and whose names can all be run. -/
def Runs (kept : FlagStore → σ → Prop) (inner : Text) : Prop :=
  ∃ entries, e.readBlock (Piece.group inner).written = .ok entries ∧
    ∀ name ∈ (ActionMap.ofEntries entries).names,
      e.RunsAction re kept (.ofEntries entries) name

variable {e re}

theorem calm_runInvocations (name : Text) {action : ActionEntry σ} {payloads : List Value}
    (h : ∀ payload ∈ payloads, (action.action payload).Quiet re kept fun _ => True) :
    Calm kept fails (fun _ => True) (runInvocations re name action payloads) := by
  induction payloads with
  | nil => exact calm_pure trivial
  | cons payload payloads ih =>
    obtain ⟨hpayload, hpayloads⟩ := List.forall_mem_cons.1 h
    apply (calm_notify rfl).bind
    intro _ _
    exact hpayload.calm.bind fun _ _ => ih hpayloads

theorem calm_runNamed {m : ActionMap} {names : List Text}
    (h : ∀ name ∈ names, e.RunsAction re kept m name) :
    Calm kept fails (fun _ => True) (e.runNamed re m true names) := by
  induction names with
  | nil => exact calm_pure trivial
  | cons name names ih =>
    obtain ⟨hname, hnames⟩ := List.forall_mem_cons.1 h
    have hrest := ih hnames
    rw [runNamed]
    cases hclause : Gate.isClauseKey name with
    | true => exact hrest
    | false =>
      obtain ⟨action, haction, hquiet⟩ := hname hclause
      have hentry : entry .action e.actions name = .ok action := by rw [entry, haction]
      simp only [hentry]
      cases hdelayed : action.eventDelayed with
      | true => exact hrest
      | false => exact (calm_runInvocations name (hquiet hdelayed)).bind fun _ _ => hrest

theorem calm_extractPieces (dryRun : Bool) (output : Text) (found : ActionMap)
    {pieces : List Piece} (hclosed : Piece.allClosed pieces)
    (h : ∀ inner ∈ Piece.groups pieces, e.Runs re kept inner) :
    Calm kept fails (fun _ => True) (e.extractPieces re dryRun output found pieces) := by
  induction pieces generalizing output found with
  | nil => exact calm_pure trivial
  | cons p pieces ih =>
    cases p with
    | plain t => exact ih (output ++ t) found hclosed h
    | unmatched rest => simp at hclosed
    | group inner =>
      obtain ⟨⟨entries, hparse, hnames⟩, hgroups⟩ := List.forall_mem_cons.1 h
      have hrest := ih output (found.insertAll entries) hclosed hgroups
      simp only [extractPieces_group, hparse]
      split
      · exact calm_pure trivial
      · cases dryRun with
        | true => exact hrest
        | false => exact (calm_runNamed hnames).bind fun _ _ => hrest

end Engine

end StoryScript
