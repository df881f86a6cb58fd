import StoryScript.Proofs.Engine.Making

/-!
# Actions that wait and actions that run again

An engine can run what a mapping of names to payloads asks for in two parts: first without the
actions that wait for a trigger, and these when it comes. Other actions are run again after a saved
game is loaded. Main statement: nothing is lost, run twice or run in another order by the parts
(`Engine.runParams_parts`).
-/

namespace StoryScript

open Run

variable {σ : Type}

/-! ## Mappings -/

/-- Parameters that are a mapping of names to payloads: one of the host's own, or an action map. -/
inductive Params.IsMap : Params → Table Text Value → Prop
  | entries {entries : Table Text Value} (h : entries.keys.Nodup) : IsMap (.entries entries) entries
  | actions {m : ActionMap} (hnames : m.names.Nodup) (hm : m.Consistent) :
    IsMap (.actions m) m.payloads

namespace Params.IsMap

variable {params : Params} {entries : Table Text Value}

theorem nodup (h : params.IsMap entries) : entries.keys.Nodup := by
  cases h with
  | entries h => exact h
  | actions hnames hm => exact hnames

theorem toActions_eq (h : params.IsMap entries) (repair : Repair) :
    params.toActions repair = .ok (ActionMap.ofEntries entries) := by
  cases h with
  | entries h => rfl
  | @actions m hnames hm =>
    have hpayloads : m.payloads = (ActionMap.ofEntries m.payloads).payloads :=
      (ActionMap.payloads_ofEntries hnames).symm
    exact congrArg Except.ok
      (ActionMap.eq_of_payloads_eq hm (ActionMap.consistent_ofEntries _) hpayloads)

end Params.IsMap

namespace Engine

variable {e : Engine σ} {re : Reentry σ} {ready : State σ → Prop} {m : ActionMap}

/-! ## Marked actions -/

variable (e) in
/-- Whether a name is that of a registered action that has a property. -/
def marked (property : ActionEntry σ → Bool) (name : Text) : Bool :=
  ((e.actions.get? name).map property).getD false

theorem dispatches_eq (skipDelayed : Bool) (name : Text) :
    e.dispatches skipDelayed name =
      (e.dispatches false name && !(skipDelayed && e.marked (·.eventDelayed) name)) := by
  unfold dispatches marked
  cases e.actions.get? name with
  | none => simp
  | some action => simp

/-- To leave out the actions that wait is to leave out their calls. -/
theorem dispatched_true (name : Text) :
    e.dispatched m true name =
      (e.dispatched m false name).filter fun call => !e.marked (·.eventDelayed) call.1 := by
  rw [filter_dispatched false fun name => !e.marked (·.eventDelayed) name, dispatched,
    dispatches_eq true, dispatched]
  cases e.dispatches false name <;> cases e.marked (·.eventDelayed) name <;> rfl

/-! ## Selected entries -/

section Selected

variable {entries : Table Text Value} {property : ActionEntry σ → Bool}

theorem select_eq : e.select property entries =
    ActionMap.ofEntries (entries.filter fun p => e.marked property p.1) := rfl

theorem payloads_select (h : entries.keys.Nodup) :
    (e.select property entries).payloads = entries.filter fun p => e.marked property p.1 := by
  rw [select_eq]
  apply ActionMap.payloads_ofEntries
  rw [Table.keys_filter]
  exact h.filter _

theorem names_select (h : entries.keys.Nodup) :
    (e.select property entries).names = entries.keys.filter (e.marked property) := by
  rw [ActionMap.names, payloads_select h, Table.keys_filter]

/-- A selected name is called as often, and with the same payloads, as it is for all entries. -/
theorem invocations_select (h : entries.keys.Nodup) {name : Text} (hname : e.marked property name) :
    (e.select property entries).invocations name =
      (ActionMap.ofEntries entries).invocations name := by
  have hselect : (e.select property entries).Consistent := ActionMap.consistent_ofEntries _
  apply ActionMap.invocations_congr hselect (ActionMap.consistent_ofEntries _)
  rw [ActionMap.get?, ActionMap.get?, payloads_select h, ActionMap.payloads_ofEntries h]
  exact Table.get?_filter entries hname

/-- The calls for the selected entries are those of all calls that are for a selected name. -/
theorem flatMap_dispatched_select (h : entries.keys.Nodup) :
    (e.select property entries).names.flatMap (e.dispatched (e.select property entries) false) =
      (e.called entries).filter fun call => e.marked property call.1 := by
  rw [called, names_select h, ActionMap.names, ActionMap.payloads_ofEntries h]
  induction entries.keys with
  | nil => rfl
  | cons name names ih =>
    rw [List.flatMap_cons, List.filter_append, filter_dispatched, ← ih]
    cases hname : e.marked property name with
    | true =>
      rw [List.filter_cons_of_pos hname, List.flatMap_cons, if_pos rfl, dispatched, dispatched,
        invocations_select h hname]
    | false =>
      rw [List.filter_cons_of_neg (by simp [hname]), if_neg Bool.false_ne_true, List.nil_append]

end Selected

/-! ## The parts of a run -/

namespace HostsReturn

theorem calls_select {entries : Table Text Value}
    (h : e.HostsReturn re (ActionMap.ofEntries entries) ready) (hentries : entries.keys.Nodup)
    (property : ActionEntry σ → Bool) :
    e.Calls re ready (e.runParams re (.actions (e.select property entries)) false)
      ((e.called entries).filter fun call => e.marked property call.1) := by
  rw [← flatMap_dispatched_select hentries]
  apply h.calls_runNamed false
  intro name hname
  rw [names_select hentries] at hname
  exact invocations_select hentries (List.mem_filter.1 hname).2

end HostsReturn

/-- Running what a mapping asks for in parts loses no call and makes none twice. Where the actions
it names return, running all of it makes the calls `e.called entries`. Without the actions that
wait, the run makes those of these calls that are not for an action that waits, in the same order;
the entries that wait make exactly the others, in the same order; and the entries to run again make
those that are for an action that is run again. -/
theorem runParams_parts (e : Engine σ) (re : Reentry σ) {params : Params}
    {entries : Table Text Value} {ready : State σ → Prop} (hparams : params.IsMap entries)
    (hhosts : e.HostsReturn re (ActionMap.ofEntries entries) ready) :
    e.Calls re ready (e.runParams re params false) (e.called entries) ∧
    e.Calls re ready (e.runParams re params true)
      ((e.called entries).filter fun call => !e.marked (·.eventDelayed) call.1) ∧
    e.Calls re ready (e.runParams re (.actions (e.delayedActions entries)) false)
      ((e.called entries).filter fun call => e.marked (·.eventDelayed) call.1) ∧
    e.Calls re ready (e.runParams re (.actions (e.reloadActions entries)) false)
      ((e.called entries).filter fun call => e.marked (·.onGameLoad) call.1) := by
  have hrun (skipDelayed : Bool) : e.Calls re ready (e.runParams re params skipDelayed)
      ((ActionMap.ofEntries entries).names.flatMap
        (e.dispatched (ActionMap.ofEntries entries) skipDelayed)) := by
    unfold runParams
    rw [hparams.toActions_eq]
    exact hhosts.calls_runNamed skipDelayed fun name _ => rfl
  refine ⟨hrun false, ?_, hhosts.calls_select hparams.nodup _,
    hhosts.calls_select hparams.nodup _⟩
  have hskips := hrun true
  simp only [funext dispatched_true] at hskips
  rwa [called, List.filter_flatMap]

/-- An engine with actions of every kind, and one that no mapping can ask for. -/
def harbour : Engine Nat where
  settings := .standard
  sigil := "_"
  repair := id
  fragments := none
  conditions := []
  placeholders := []
  actions := [
    ("pay", .plain fun _ => .updating (· + 1) (.done ())),
    ("sign", { ActionEntry.plain fun _ => .updating (· * 10) (.done ()) with
      eventDelayed := true }),
    ("weather", { ActionEntry.plain ActionEntry.nothing with onGameLoad := true }),
    ("season", { ActionEntry.plain ActionEntry.nothing with
      eventDelayed := true, onGameLoad := true }),
    ("if", .plain ActionEntry.nothing)]
  callbacks := []

def harbourEntries : Table Text Value := [
  ("sign", .list [.int 1, .int 2]), ("pay", .int 5), ("if", .text "gold>1"), ("sing", .text "low"),
  ("weather", .text "rain"), ("season", .list [.text "dry", .text "wet"])]

theorem hostsReturn_harbour :
    harbour.HostsReturn (.none Nat) (ActionMap.ofEntries harbourEntries) fun _ => True where
  notices := fun _ _ => trivial
  action := by
    intro name action haction payload _ s _
    have hmem := Table.mem_of_get? haction
    simp only [harbour, List.mem_cons, Prod.mk.injEq, List.not_mem_nil, or_false] at hmem
    rcases hmem with ⟨-, rfl⟩ | ⟨-, rfl⟩ | ⟨-, rfl⟩ | ⟨-, rfl⟩ | ⟨-, rfl⟩ <;>
      exact ⟨_, rfl, trivial⟩

theorem runParams_parts_harbour :
    (Params.entries harbourEntries).IsMap harbourEntries ∧
    harbour.HostsReturn (.none Nat) (ActionMap.ofEntries harbourEntries) (fun _ => True) ∧
    ∃ all atOnce later again : List (Text × Value),
      harbour.Calls (.none Nat) (fun _ => True)
        (harbour.runParams (.none Nat) (.entries harbourEntries) false) all ∧
      harbour.Calls (.none Nat) (fun _ => True)
        (harbour.runParams (.none Nat) (.entries harbourEntries) true) atOnce ∧
      harbour.Calls (.none Nat) (fun _ => True) (harbour.runParams (.none Nat)
        (.actions (harbour.delayedActions harbourEntries)) false) later ∧
      harbour.Calls (.none Nat) (fun _ => True) (harbour.runParams (.none Nat)
        (.actions (harbour.reloadActions harbourEntries)) false) again ∧
      all.map Prod.fst =
        (["sign", "sign", "pay", "weather", "season", "season"] : List Text) ∧
      atOnce.map Prod.fst = (["pay", "weather"] : List Text) ∧
      later.map Prod.fst = (["sign", "sign", "season", "season"] : List Text) ∧
      again.map Prod.fst = (["weather", "season", "season"] : List Text) := by
  have hentries : (Params.entries harbourEntries).IsMap harbourEntries := .entries (by decide)
  obtain ⟨hall, hatOnce, hlater, hagain⟩ :=
    runParams_parts harbour (.none Nat) hentries hostsReturn_harbour
  exact ⟨hentries, hostsReturn_harbour, _, _, _, _, hall, hatOnce, hlater, hagain, by decide,
    by decide, by decide, by decide⟩

end Engine

end StoryScript
