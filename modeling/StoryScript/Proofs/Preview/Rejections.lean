import StoryScript.Preview
import StoryScript.Proofs.World.Built

/-!
# Requests that are rejected

A preview service has the engine of a world, whose only action changes flags. Main statement: a
request that is rejected leaves the flags as they were, whatever requests were answered before
(`Preview.flags_of_rejected`). What runs before the actions of a choice changes no flags
(`World.upholds_flags`), and the actions themselves fail for nothing that is told to be the fault
of the request (`Preview.keeps_runActions`).
-/

namespace StoryScript

open Run

variable {σ α β : Type}

namespace Engine

variable {e : Engine σ} {re : Reentry σ} {holds : State σ → Prop}
  {fails : Failure → State σ → Prop}

theorem OfWorld.modifier_eq_none (h : e.OfWorld) {name : Text} {action : ActionEntry σ}
    (haction : e.actions.get? name = some action) : action.modifier = none := by
  rw [h.actions, Table.get?] at haction
  split at haction
  · obtain rfl := Option.some.inj haction
    rfl
  · cases haction

theorem OfWorld.keeps_modify (h : e.OfWorld) (c : Choice) (names : List Text) :
    Keeps holds fails (e.modify re c names) := by
  induction names with
  | nil => exact keeps_pure c
  | cons name names ih =>
    rw [modify]
    cases haction : e.actions.get? name with
    | none => exact ih
    | some action =>
      rw [Option.bind_some, h.modifier_eq_none haction]
      exact ih

theorem runCallbacks_of_callbacks_eq_nil (h : e.callbacks = []) (arguments : List Value)
    (names : List Text) : e.runCallbacks re arguments names = pure true := by
  induction names with
  | nil => rfl
  | cons name names ih =>
    rw [runCallbacks, h]
    exact ih

end Engine

namespace World

/-- Nothing at the engine of a world changes flags but its action. -/
theorem upholds_flags {e : Engine σ} (h : e.OfWorld) (re : Reentry σ) (f : FlagStore) :
    e.Upholds re true (fun _ s => s.flags = f) fun _ _ => True where
  notices hs _ := hs
  enters hs := hs
  leaves hs := hs
  failsOutside _ := trivial
  condition hgetter arguments := h.keeps_condition hgetter arguments
  placeholder hgetter arguments := h.keeps_placeholder hgetter arguments
  action hreal := nomatch hreal

end World

namespace Preview

/-! ## Runs that leave the flags as they are if they fail for the request -/

/-- A run that, from some flags, leaves flags that are numbers, and the flags as they are if it
fails for what is asked of it. -/
def Retreats (f : FlagStore) (x : Run σ α) : Prop :=
  ∀ s : State σ, s.flags = f → (x.on s).2.flags.Numeric ∧
    ∀ failure, (x.on s).1 = .error failure → isOfRequest failure → (x.on s).2.flags = f

section Retreats

variable {f : FlagStore} {x : Run σ α} {y : α → Run σ β}

theorem retreats_bind (hx : Keeps (fun s => s.flags = f) (fun _ _ => True) x) (hf : f.Numeric)
    (hy : ∀ a, Retreats f (y a)) : Retreats f (x >>= y) := by
  intro s hs
  obtain ⟨hkept, -⟩ := hx s hs
  rw [on_bind]
  generalize x.on s = out at hkept
  obtain ⟨failure | a, s'⟩ := out
  · exact ⟨hkept ▸ hf, fun _ _ _ => hkept⟩
  · exact hy a s' hkept

theorem retreats_pure (hf : f.Numeric) (a : α) : Retreats f (pure a : Run σ α) :=
  fun _ hs => ⟨hs ▸ hf, fun _ h => nomatch h⟩

/-- A run that fails for nothing that is asked of it may change flags, if they stay numbers. -/
theorem retreats_of_keeps_numeric (hf : f.Numeric)
    (hx : Keeps (fun s => s.flags.Numeric) (fun failure _ => isOfRequest failure = false) x) :
    Retreats f x := by
  intro s hs
  subst hs
  obtain ⟨hnumeric, hfails⟩ := hx s hf
  refine ⟨hnumeric, fun failure hfailure hasked => ?_⟩
  rw [hfails failure hfailure] at hasked
  cases hasked

theorem Retreats.map (hx : Retreats f x) (g : α → β) :
    Retreats f (x >>= fun a => pure (g a)) := by
  intro s hs
  obtain ⟨hnumeric, hfails⟩ := hx s hs
  rw [on_bind]
  generalize x.on s = out at hnumeric hfails
  obtain ⟨failure | a, s'⟩ := out
  · exact ⟨hnumeric, fun failure' h => hfails failure' (by cases h; rfl)⟩
  · exact ⟨hnumeric, fun _ h => nomatch h⟩

end Retreats

/-! ## Answers -/

/-- A run whose answers reject nothing. -/
def Accepts (x : Run σ Response) : Prop := ∀ s r, (x.on s).1 = .ok r → r.status ≠ 400

theorem accepts_json (entries : Members) : Accepts (pure (.json entries) : Run σ Response) := by
  intro s r hr
  cases hr
  nofun

theorem Accepts.bind {x : Run σ α} {y : α → Run σ Response} (hy : ∀ a, Accepts (y a)) :
    Accepts (x >>= y) := by
  intro s r hr
  rw [on_bind] at hr
  generalize x.on s = out at hr
  obtain ⟨failure | a, s'⟩ := out
  · cases hr
  · exact hy a s' r hr

/-- An answer after which flags that were numbers are numbers still, and are as they were if it
rejects the request. -/
def Careful (x : Run σ Response) : Prop :=
  ∀ s : State σ, s.flags.Numeric → (x.on s).2.flags.Numeric ∧
    ∀ r, (x.on s).1 = .ok r → r.status = 400 → (x.on s).2.flags = s.flags

theorem careful_of_flags_eq {x : Run σ Response} (h : ∀ s, (x.on s).2.flags = s.flags) :
    Careful x :=
  fun s hs => ⟨(h s).symm ▸ hs, fun _ _ _ => h s⟩

theorem careful_telling {x : Run σ Response} (hretreats : ∀ f : FlagStore, f.Numeric → Retreats f x)
    (haccepts : Accepts x) : Careful (telling x) := by
  intro s hs
  obtain ⟨hnumeric, hfails⟩ := hretreats s.flags hs s rfl
  have haccepted := haccepts s
  unfold telling
  rw [on_bind, on_attempt]
  generalize x.on s = out at hnumeric hfails haccepted
  obtain ⟨failure | response, s'⟩ := out
  · dsimp only
    by_cases hasked : isOfRequest failure
    · rw [if_pos hasked]
      exact ⟨hnumeric, fun _ _ _ => hfails failure rfl hasked⟩
    · rw [if_neg hasked]
      exact ⟨hnumeric, fun _ hr => nomatch hr⟩
  · refine ⟨hnumeric, fun r hr hrejected => ?_⟩
    cases hr
    exact absurd hrejected (haccepted response rfl)

theorem careful_of_accepts {x : Run σ Response}
    (hx : Keeps (fun s => s.flags.Numeric) (fun _ _ => True) x) (haccepts : Accepts x) :
    Careful x :=
  fun s hs => ⟨(hx s hs).1, fun r hr hrejected => absurd hrejected (haccepts s r hr)⟩

/-! ## What an engine of a world does for a request -/

section Engine

variable {e : Engine σ} (he : e.OfWorld) (f : FlagStore)

include he

theorem keeps_opens (gate : Gate) :
    Keeps (fun s => s.flags = f) (fun _ _ => True) (e.opens e.reentry gate) :=
  Gate.keeps_passes ((World.upholds_flags he e.reentry f).keeps_holds (d := 0)) gate

theorem keeps_createChoice (id : Text) (name : Value) (params : Params) :
    Keeps (fun s => s.flags = f) (fun _ _ => True) (e.createChoice e.reentry id name params) := by
  refine Keeps.bind ?_ fun m => he.keeps_modify _ _
  unfold Engine.choiceActions
  cases params.toActions e.repair with
  | ok m => exact keeps_pure m
  | error problem =>
    have hnotify := (World.upholds_flags he e.reentry f).keeps_notify (d := 0)
      (n := .choiceRejected id (.authoring problem)) rfl
    exact hnotify.bind fun _ => keeps_pure _

/-- Actions fail for nothing that is asked of them. -/
theorem keeps_runActions (m : ActionMap) :
    Keeps (fun s => s.flags.Numeric) (fun failure _ => isOfRequest failure = false)
      (e.runActions e.reentry m false) := by
  apply ((World.upholds_numeric he e.reentry false).keeps_runNamed rfl (d := 0) m false
    m.names).weaken
  rintro failure s ⟨-, payload, -, hstops⟩
  cases hstops <;> rfl

/-- Only the actions of a choice change flags, and nothing that comes before them. -/
theorem retreats_selectChoice (hf : f.Numeric) (c : Choice) :
    Retreats f (e.selectChoice e.reentry c) := by
  apply retreats_bind (keeps_opens he f _) hf
  intro available
  cases available with
  | true => exact retreats_of_keeps_numeric hf ((keeps_runActions he _).bind fun _ => keeps_pure _)
  | false => exact retreats_pure hf false

theorem keeps_resolve (hcallbacks : e.callbacks = []) (t : Text) (dryRun : Bool) :
    Keeps (fun s => s.flags.Numeric) (fun _ _ => True) (e.resolve e.reentry t dryRun) := by
  have hnumeric := World.upholds_numeric he e.reentry dryRun
  have hupholds : e.Upholds e.reentry dryRun (fun _ s => s.flags.Numeric) fun _ _ => True :=
    { hnumeric with
      failsOutside := fun _ => trivial
      action := fun hreal _ _ _ haction payload =>
        (hnumeric.action (d := 0) hreal haction payload).weaken fun _ _ _ => trivial }
  have htrigger : Keeps (fun s : State σ => s.flags.Numeric) (fun _ _ => True)
      (e.trigger e.reentry Engine.resolveBefore [.text t]) := by
    apply keeps_getState_bind
    intro s hs
    rw [e.runCallbacks_of_callbacks_eq_nil hcallbacks]
    exact ⟨hs, fun _ _ => trivial⟩
  apply htrigger.bind
  intro goesOn
  cases goesOn with
  | false => exact keeps_pure _
  | true =>
    apply (hupholds.keeps_resolveWithin e.allows_all (fun _ => trivial) (d := 0) _ t).bind
    intro r
    have hdelivers : Keeps (fun s : State σ => s.flags.Numeric) (fun _ _ => True)
        (getState >>= fun s => pure (e.delivered dryRun s.memory r)) :=
      keeps_getState_bind fun _ hs => ⟨hs, fun _ h => nomatch h⟩
    dsimp only
    split
    · refine Keeps.bind (keeps_change ?_) fun _ => hdelivers
      exact fun _ hs => hs
    · exact hdelivers

/-! ## Handlers -/

theorem careful_resolveText (hcallbacks : e.callbacks = []) (t : Text) (entries : Members) :
    Careful (resolveText e t entries) :=
  careful_of_accepts ((keeps_resolve he hcallbacks _ _).bind fun _ => keeps_pure _)
    (Accepts.bind fun _ => accepts_json _)

theorem careful_evaluate (entries : Members) : Careful (evaluate e entries) := by
  apply careful_telling
  · intro f hf
    apply retreats_bind (keeps_ofExcept fun _ _ _ => trivial) hf
    intro params
    apply retreats_bind (keeps_ofExcept fun _ _ _ => trivial) hf
    intro actions
    exact retreats_bind (keeps_opens he f _) hf fun _ => retreats_pure hf _
  · exact Accepts.bind fun _ => Accepts.bind fun _ => Accepts.bind fun _ => accepts_json _

theorem careful_choose (id : Text) (entries : Members) : Careful (choose e id entries) := by
  apply careful_telling
  · intro f hf
    apply retreats_bind (keeps_ofExcept fun _ _ _ => trivial) hf
    intro params
    apply retreats_bind (keeps_createChoice he f _ _ _) hf
    intro c
    apply retreats_bind (keeps_ofExcept fun _ _ _ => trivial) hf
    intro shown
    apply retreats_bind (keeps_opens he f _) hf
    intro visible
    apply retreats_bind (keeps_opens he f _) hf
    intro available
    simp only [pure_bind]
    split
    · exact (retreats_selectChoice he f hf c).map _
    · exact retreats_pure hf _
  · refine Accepts.bind fun _ => Accepts.bind fun _ => Accepts.bind fun _ =>
      Accepts.bind fun _ => Accepts.bind fun _ => ?_
    simp only [pure_bind]
    split
    · exact Accepts.bind fun _ => accepts_json _
    · exact accepts_json _

theorem careful_handle (hcallbacks : e.callbacks = []) (endpoint : Endpoint)
    (body : Option Members) : Careful (handle e endpoint body) := by
  have hrejected : Careful (pure (.badRequest endpoint.expected) : Run σ Response) :=
    careful_of_flags_eq fun _ => rfl
  unfold handle
  dsimp only
  split
  · exact careful_of_flags_eq fun _ => rfl
  · exact hrejected
  · split
    · exact careful_resolveText he hcallbacks _ _
    · exact hrejected
  · exact careful_evaluate he _
  · split
    · exact careful_choose he _ _
    · exact hrejected
  · split
    · exact careful_of_flags_eq fun _ => rfl
    · exact hrejected

end Engine

/-! ## Stories told over requests -/

/-- The states that a service can be in after requests, handled from a given state on, whether they
were answered or failed. -/
inductive Reachable (e : Engine σ) (start : State σ) : State σ → Prop
  | start : Reachable e start start
  | handle {s : State σ} (h : Reachable e start s) (endpoint : Endpoint) (body : Option Members) :
    Reachable e start ((Preview.handle e endpoint body).on s).2

theorem Reachable.numeric {e : Engine σ} (he : e.OfWorld) (hcallbacks : e.callbacks = [])
    {start s : State σ} (hstart : start.flags.Numeric) (h : Reachable e start s) :
    s.flags.Numeric := by
  induction h with
  | start => exact hstart
  | handle _ endpoint body ih => exact (careful_handle he hcallbacks endpoint body _ ih).1

/-- A request that is rejected changes no flag. On the engine of a world whose flags are numbers,
after whatever requests were made, and for whatever is asked for with whatever object or none, the
flags are after an answer of status 400 what they were before the request. -/
theorem flags_of_rejected {repair : Repair} {world : Table Text Value} {e : Engine σ}
    {store : FlagStore} (hbuild : World.build repair world = .ok (e, store))
    (hflags : ∀ container ∈ store.containers, ∀ flag ∈ container.2, flag.2.isNumber) (memory : σ)
    {s s' : State σ} (hs : Reachable e (World.start store memory) s) (endpoint : Endpoint)
    (body : Option Members) {r : Response} (h : (handle e endpoint body).on s = (.ok r, s'))
    (hrejected : r.status = 400) : s'.flags = s.flags := by
  have he := World.ofWorld_of_build hbuild
  have hcallbacks := World.callbacks_of_build hbuild
  have hnumeric := hs.numeric he hcallbacks (FlagStore.numeric_of_containers hflags)
  obtain ⟨-, hkept⟩ := careful_handle he hcallbacks endpoint body s hnumeric
  rw [h] at hkept
  exact hkept r rfl hrejected

/-- The object that selects a choice with some parameters. -/
def aleWith (params : Members) : Members :=
  [("id", .text "ale"), ("select", .bool true), ("params", .map params)]

def payMembers : Members := aleWith [("flag", .list [.text "gold<5", .text "ales>1"])]

/-- Asks for a condition that there is not. -/
def lockedMembers : Members :=
  aleWith [("flag", .text "gold<5"), ("active", .text "_open=true")]

/-- The state after a choice that was paid for. -/
def paidState : State Unit :=
  ((handle World.tavernEngine .choice (some payMembers)).on
    (World.start World.tavernStore ())).2

theorem flags_of_rejected_lockedMembers :
    World.build id World.tavern = .ok (World.tavernEngine, World.tavernStore) ∧
      (∀ container ∈ World.tavernStore.containers, ∀ flag ∈ container.2, flag.2.isNumber) ∧
      Reachable World.tavernEngine (World.start World.tavernStore ()) paidState ∧
      (paidState.flags.get "gold").display = "15".toList ∧
      ∃ r s', (handle World.tavernEngine .choice (some lockedMembers)).on paidState = (.ok r, s') ∧
        r.status = 400 ∧ s'.flags = paidState.flags := by
  have hbuild : World.build id World.tavern = .ok (World.tavernEngine, World.tavernStore) := rfl
  have hflags : ∀ container ∈ World.tavernStore.containers, ∀ flag ∈ container.2,
      flag.2.isNumber := by decide
  have hreachable : Reachable World.tavernEngine (World.start World.tavernStore ()) paidState :=
    .handle .start .choice (some payMembers)
  have hstatus : ((handle World.tavernEngine .choice (some lockedMembers)).on
      paidState).1.toOption.map Response.status = some 400 := by decide +kernel
  obtain ⟨r, s', hrun, hrejected⟩ := exists_eq_ok_of_map hstatus
  exact ⟨hbuild, hflags, hreachable, by decide +kernel, r, s', hrun, hrejected,
    flags_of_rejected hbuild hflags () hreachable .choice (some lockedMembers) hrun hrejected⟩

end Preview

end StoryScript
