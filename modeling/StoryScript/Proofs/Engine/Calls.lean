import StoryScript.Proofs.Engine.Blocks

/-!
# The actions that a resolution calls

A resolution calls actions for the blocks that it reads, block after block, and otherwise does
nothing but report, ask the programs of the host behind conditions, placeholders and callbacks, and
note how deep it is in templates and who is talking (`Engine.Ran`, `Engine.ran_of_resolve`). Where
no program of the host resolves texts (`Engine.Isolated`), no other calls lead from the state before
to the state behind it (`Engine.HostsRunNothing.eq_of_ran`). Main statement: what a resolution
reports is what ran (`Engine.resolve_reports_what_ran`).
-/

namespace StoryScript

open Run ReadBlock

variable {σ α β : Type}

/-! ## What blocks call -/

namespace Engine

section Called

variable (e : Engine σ)

/-- The calls for a block, which are none if it redirects. -/
def calls (b : ReadBlock e.repair) : List (Text × Value) :=
  if b.redirects then [] else e.calledAtOnce b.entries

theorem calls_map_inTemplate (bs : List (ReadBlock e.repair)) :
    (bs.map inTemplate).flatMap e.calls = bs.flatMap e.calls := by
  rw [List.flatMap_map]
  rfl

end Called

variable {e : Engine σ} {re : Reentry σ} {s s₁ s' : State σ} {calls calls' : List (Text × Value)}

theorem calls_of_redirects {b : ReadBlock e.repair} (h : b.redirects) : e.calls b = [] := if_pos h

theorem mem_calls {b : ReadBlock e.repair} {call : Text × Value} (h : call ∈ e.calls b) :
    e.dispatches true call.1 ∧ ∃ p ∈ b.entries, p.1 = call.1 := by
  unfold Engine.calls at h
  split at h
  · cases h
  · exact mem_calledAtOnce h

/-- For a name that is dispatched at once, a block calls for the invocations of the payload that it
gives it. -/
theorem filter_calls {b : ReadBlock e.repair} {name : Text} (hb : b.redirects = false)
    (hdispatches : e.dispatches true name) (hname : ∃ p ∈ b.entries, p.1 = name) :
    (e.calls b).filter (fun call => call.1 = name) =
      ((ActionMap.ofEntries b.entries).invocations name).map (name, ·) := by
  rw [Engine.calls, hb]
  exact filter_calledAtOnce hdispatches hname

/-! ## What a resolution does -/

/-- A step of a resolution that calls no action: reports, a program of the host behind a condition
or a placeholder, the callbacks before a text, or a note of the depth of templates or of who is
talking. -/
inductive Aside (e : Engine σ) (re : Reentry σ) : State σ → State σ → Prop
  | reports {s s' : State σ} (h : s.Reports s') : Aside e re s s'
  | condition {name : Text} {getter : Getter σ} (hgetter : e.conditions.get? name = some getter)
      (arguments : List Text) (s : State σ) : Aside e re s (((getter arguments).run re).on s).2
  | placeholder {name : Text} {getter : Getter σ}
      (hgetter : e.placeholders.get? name = some getter) (arguments : List Text) (s : State σ) :
      Aside e re s (((getter arguments).run re).on s).2
  | before (t : Text) (s : State σ) :
      Aside e re s ((e.trigger re resolveBefore [.text t]).on s).2
  | depth (s : State σ) (depth : Nat) : Aside e re s { s with depth := depth }
  | talking (s : State σ) (speaker : Option Text) : Aside e re s { s with talking := speaker }

/-- Getting from a state to another by calling actions in turn, and otherwise by what else a
resolution does. -/
abbrev Ran (e : Engine σ) (re : Reentry σ) : State σ → List (Text × Value) → State σ → Prop :=
  e.MakesAmong re (e.Aside re)

theorem Ran.of_makes (h : e.Makes re s calls s') : e.Ran re s calls s' :=
  h.mono fun _ _ => .reports

theorem Ran.and_aside (h : e.Ran re s calls s₁) (haside : e.Aside re s₁ s') :
    e.Ran re s calls s' := by
  simpa using h.append (.single haside)

/-- Before the templates of a text nothing is called. -/
theorem upholds_ran (e : Engine σ) (re : Reentry σ) (s : State σ) :
    e.Upholds re true (fun _ s' => e.Ran re s [] s') fun _ _ => True where
  notices hs hns := hs.and_aside (.reports (.append _ hns))
  enters hs := hs.and_aside (.depth _ _)
  leaves hs := hs.and_aside (.depth _ _)
  failsOutside _ := trivial
  condition hgetter arguments s' hs :=
    ⟨hs.and_aside (.condition hgetter arguments s'), fun _ _ => trivial⟩
  placeholder hgetter arguments s' hs :=
    ⟨hs.and_aside (.placeholder hgetter arguments s'), fun _ _ => trivial⟩
  action hreal := nomatch hreal

theorem ran_of_rendered {t : Text} {answer : Except Failure Text}
    (h : (e.rendered re t).on s = (answer, s')) : e.Ran re s [] s' := by
  have hran := ((e.upholds_ran re s).keeps_rendered (d := 0) t s (.nothing s)).1
  rwa [h] at hran

/-- Templates call what their blocks call, if each of them does. -/
theorem ran_of_templatePass {nested : Text → Run σ Resolution}
    {blocksOf : Text → State σ → List (ReadBlock e.repair)}
    (hnested : ∀ {t s r s'}, (nested t).on s = (.ok r, s') →
      e.Ran re s ((blocksOf t s).flatMap e.calls) s')
    {output : Text} {found : ActionMap} {cuts : List Cut} {substitution : Substitution}
    (h : (e.templatePass nested output found cuts).on s = (.ok substitution, s')) :
    e.Ran re s ((e.templateBlocks nested blocksOf cuts s).flatMap e.calls) s' := by
  induction cuts generalizing output found s with
  | nil =>
    cases h
    exact .nothing s'
  | cons cut cuts ih =>
    cases cut with
    | plain t => exact ih h
    | span inner =>
      obtain ⟨answer, s₁, hsubstitute, h⟩ := exists_of_on_bind_eq_ok h
      unfold templateBlocks
      rw [hsubstitute]
      rcases substituteTemplate_cases hsubstitute with
        ⟨rfl, htemplate, logged, hlogged, rfl⟩ | ⟨t, r, s₂, rfl, htemplate, hrun, rfl⟩
      · rw [htemplate]
        exact .aside (.reports (.append s hlogged)) (ih h)
      · rw [htemplate]
        have hhere : e.Ran re s _ { s₂ with depth := s₂.depth - 1 } :=
          .aside (.depth s _) ((hnested hrun).and_aside (.depth s₂ _))
        rw [← e.calls_map_inTemplate] at hhere
        dsimp only at h ⊢
        cases hr : r.redirected with
        | true =>
          rw [hr, if_pos rfl] at h
          cases h
          exact hhere
        | false =>
          rw [hr, if_neg Bool.false_ne_true] at h
          rw [if_neg Bool.false_ne_true, List.flatMap_append]
          exact hhere.append (ih h)

theorem ran_of_extractPieces {output : Text} {found : ActionMap} {pieces : List Piece}
    {x : Extraction} (h : (e.extractPieces re false output found pieces).on s = (.ok x, s')) :
    e.Ran re s ((ofPieces e.repair pieces).flatMap e.calls) s' := by
  induction pieces generalizing output found s with
  | nil =>
    cases h
    exact .nothing s'
  | cons piece pieces ih =>
    cases piece with
    | plain t => exact ih h
    | unmatched rest =>
      cases h
      exact .single (.reports (.append s (List.forall_mem_singleton.2 rfl)))
    | group inner =>
      rw [ofPieces]
      rcases e.extractPieces_group_cases re false output found inner pieces s with
        ⟨n, hread, hn, hrun⟩ | ⟨b, hread, ⟨hredirects, hrun⟩ | ⟨hredirects, hrun⟩⟩
      · rw [hread]
        have hreports := State.Reports.append s (List.forall_mem_singleton.2 hn)
        exact .aside (.reports hreports) (ih (hrun.symm.trans h))
      · cases hrun.symm.trans h
        simp only [hread, hredirects, if_true, List.flatMap_singleton, calls_of_redirects]
        exact .nothing s'
      · rw [hrun] at h
        obtain ⟨_, s₁, hruns, h⟩ := exists_of_on_bind_eq_ok h
        simp only [hread, hredirects, Bool.false_eq_true, if_false, List.flatMap_cons]
        rw [Engine.calls, if_neg (by simp [hredirects])]
        exact (Ran.of_makes (makes_runNamed hruns)).append (ih h)

theorem ran_of_finish {t : Text} {found : ActionMap} {r : Resolution}
    (h : (e.finish re false t found).on s = (.ok r, s')) :
    e.Ran re s ((ofText e.repair t).flatMap e.calls) s' := by
  obtain ⟨x, s₁, hextract, h⟩ := exists_of_on_bind_eq_ok h
  have hran := ran_of_extractPieces hextract
  dsimp only at h
  split at h
  · cases h
    exact hran
  · rw [on_getState_bind] at h
    obtain ⟨output, s₂, hstyles, h⟩ := exists_of_on_bind_eq_ok h
    cases h
    obtain ⟨-, rfl⟩ := Prod.mk.inj hstyles
    exact hran

theorem ran_of_resolveWithin {levels : Nat} {t : Text} {r : Resolution}
    (h : (e.resolveWithin re false levels t).on s = (.ok r, s')) :
    e.Ran re s ((e.blocksWithin re false levels t s).flatMap e.calls) s' := by
  induction levels generalizing t s r s' with
  | zero => cases h
  | succ levels ih =>
    rw [resolveWithin_succ] at h
    obtain ⟨u, s₁, hrendered, h⟩ := exists_of_on_bind_eq_ok h
    obtain ⟨substitution, s₂, hpass, h⟩ := exists_of_on_bind_eq_ok h
    have htemplates := (ran_of_rendered hrendered).append (ran_of_templatePass ih hpass)
    rw [blocksWithin, hrendered]
    dsimp only
    rw [hpass]
    cases substitution with
    | redirected r' =>
      cases h
      exact htemplates
    | text v found =>
      dsimp only
      rw [List.flatMap_append]
      exact htemplates.append (ran_of_finish h)

/-- A resolution that returns has called the actions for each block that it read, and else it has
done nothing to the state but what is aside. -/
theorem ran_of_resolve {t : Text} {r : Resolution}
    (h : (e.resolve re t false).on s = (.ok r, s')) :
    e.Ran re s ((e.blocksRead re false t s).flatMap e.calls) s' := by
  have hbefore : e.Aside re s ((e.trigger re resolveBefore [.text t]).on s).2 := .before t s
  rw [blocksRead]
  rcases resolve_cases h with ⟨htrigger, -⟩ | ⟨found, s₁, s₂, htrigger, hwithin, -, rfl⟩
  · rw [htrigger] at hbefore ⊢
    exact .single hbefore
  · rw [htrigger] at hbefore ⊢
    have hran : e.Ran re s
        ((e.blocksWithin re false (levels e.settings + 1) t s₁).flatMap e.calls) s₂ :=
      .aside hbefore (ran_of_resolveWithin hwithin)
    dsimp only
    split
    · exact hran
    · exact hran.and_aside (.talking s₂ _)

end Engine

/-- The actions that were run so far, with their payloads. -/
def State.invocations (s : State σ) : List (Text × Value) := s.notices.filterMap Notice.invocation?

theorem State.invocations_append (s : State σ) {ns : List Notice}
    (h : ∀ n ∈ ns, n.invocation? = none) :
    State.invocations { s with notices := s.notices ++ ns } = s.invocations := by
  rw [invocations, List.filterMap_append, List.filterMap_eq_nil_iff.2 h, List.append_nil]
  rfl

/-! ## Programs that run nothing -/

namespace FlagStore

theorem invocation?_of_mem_change {s s' : FlagStore} {c : Change} {notices : List Notice}
    (h : s.change c = .ok (s', notices)) : ∀ n ∈ notices, n.invocation? = none := by
  obtain ⟨amount, -, h⟩ := exists_of_bind_eq_ok h
  cases amount with
  | none =>
    cases h
    exact List.forall_mem_singleton.2 rfl
  | some x =>
    dsimp only at h
    split at h
    · cases h
      exact List.forall_mem_nil _
    · obtain ⟨store, -, h⟩ := exists_of_bind_eq_ok h
      cases h
      exact List.forall_mem_nil _
    · obtain ⟨store, -, h⟩ := exists_of_bind_eq_ok h
      cases h
      exact List.forall_mem_nil _

theorem invocation?_of_mem_changeAll (s : FlagStore) (cs : List Change) :
    ∀ n ∈ (s.changeAll cs).notices, n.invocation? = none := by
  induction cs generalizing s with
  | nil => exact List.forall_mem_nil _
  | cons c cs ih =>
    rw [changeAll]
    cases hchange : s.change c with
    | error failure => exact List.forall_mem_nil _
    | ok changed =>
      exact List.forall_mem_append.2 ⟨invocation?_of_mem_change hchange, ih changed.1⟩

theorem Change.invocation?_of_ofPair_eq_error {pair : Text} {n : Notice}
    (h : Change.ofPair pair = .error n) : n.invocation? = none := by
  unfold Change.ofPair at h
  split at h
  · cases h
    rfl
  · dsimp only at h
    split at h
    · cases h
      rfl
    · cases h

theorem invocation?_of_mem_apply (s : FlagStore) (data : Value) :
    ∀ n ∈ (s.apply data).notices, n.invocation? = none := by
  cases data with
  | text t =>
    refine List.forall_mem_append.2 ⟨fun n hn => ?_, invocation?_of_mem_changeAll s _⟩
    obtain ⟨read, hread, hn⟩ := List.mem_filterMap.1 hn
    obtain ⟨pair, -, rfl⟩ := List.mem_map.1 hread
    split at hn
    · next hpair =>
      cases hn
      exact Change.invocation?_of_ofPair_eq_error hpair
    · cases hn
  | map entries => exact invocation?_of_mem_changeAll s _
  | _ => exact List.forall_mem_nil _

end FlagStore

namespace Run

/-- A run that runs no action, however it ends. -/
def RunsNothing (x : Run σ α) : Prop :=
  ∀ ran, Keeps (fun s => s.invocations = ran) (fun _ _ => True) x

theorem RunsNothing.invocations_eq {x : Run σ α} (h : RunsNothing x) {s s' : State σ}
    {answer : Except Failure α} (hrun : x.on s = (answer, s')) :
    s'.invocations = s.invocations := by
  have hkept := (h s.invocations s rfl).1
  rwa [hrun] at hkept

theorem runsNothing_of_notices_eq {x : Run σ α} (h : ∀ s, (x.on s).2.notices = s.notices) :
    RunsNothing x := by
  rintro ran s rfl
  exact ⟨congrArg (List.filterMap Notice.invocation?) (h s), fun _ _ => trivial⟩

theorem RunsNothing.bind {x : Run σ α} {f : α → Run σ β} (hx : RunsNothing x)
    (hf : ∀ a, RunsNothing (f a)) : RunsNothing (x >>= f) :=
  fun ran => (hx ran).bind fun a => hf a ran

theorem runsNothing_applyFlags (data : Value) : RunsNothing (applyFlags data : Run σ Unit) := by
  rintro ran s rfl
  refine ⟨?_, fun _ _ => trivial⟩
  rw [on_applyFlags]
  exact s.invocations_append (s.flags.invocation?_of_mem_apply data)

end Run

namespace HostProgram

/-- A program that never asks the engine to resolve a text. -/
def ResolvesNothing : HostProgram σ α → Prop
  | done _ | fail _ => True
  | readMemory next => ∀ memory, (next memory).ResolvesNothing
  | readFlag _ next => ∀ v, (next v).ResolvesNothing
  | trigger _ _ next => ∀ goesOn, (next goesOn).ResolvesNothing
  | writeMemory _ next | applyFlags _ next | listen _ _ next | unlisten _ _ next =>
    next.ResolvesNothing
  | resolve _ _ => False

theorem runsNothing_run {re : Reentry σ}
    (htrigger : ∀ name arguments, (re.trigger name arguments).RunsNothing) {p : HostProgram σ α}
    (h : p.ResolvesNothing) : (p.run re).RunsNothing := by
  induction p with
  | done | fail => exact runsNothing_of_notices_eq fun _ => rfl
  | readMemory next ih =>
    exact (runsNothing_of_notices_eq fun _ => rfl).bind fun s => ih s.memory (h s.memory)
  | readFlag flag next ih =>
    exact (runsNothing_of_notices_eq fun _ => rfl).bind fun v => ih v (h v)
  | writeMemory _ _ ih | listen _ _ _ ih | unlisten _ _ _ ih =>
    exact (runsNothing_of_notices_eq fun _ => rfl).bind fun _ => ih h
  | applyFlags data next ih => exact (runsNothing_applyFlags data).bind fun _ => ih h
  | resolve t next ih => exact h.elim
  | trigger name arguments next ih =>
    exact (htrigger name arguments).bind fun goesOn => ih goesOn (h goesOn)

end HostProgram

namespace Engine

variable {e : Engine σ} {re : Reentry σ}

/-- An engine none of whose hosts resolves texts. -/
structure Isolated (e : Engine σ) : Prop where
  condition : ∀ {name getter}, e.conditions.get? name = some getter → ∀ arguments,
    (getter arguments).ResolvesNothing
  placeholder : ∀ {name getter}, e.placeholders.get? name = some getter → ∀ arguments,
    (getter arguments).ResolvesNothing
  action : ∀ {name action}, e.actions.get? name = some action → ∀ payload,
    (action.action payload).ResolvesNothing
  callback : ∀ {name callback}, e.callbacks.get? name = some callback → ∀ arguments,
    (callback arguments).ResolvesNothing

namespace Isolated

theorem runsNothing_trigger (h : e.Isolated)
    (htrigger : ∀ name arguments, (re.trigger name arguments).RunsNothing) (name : Text)
    (arguments : List Value) : (e.trigger re name arguments).RunsNothing := by
  have hcallbacks (names : List Text) : (e.runCallbacks re arguments names).RunsNothing := by
    induction names with
    | nil => exact runsNothing_of_notices_eq fun _ => rfl
    | cons name names ih =>
      rw [runCallbacks]
      cases hcallback : e.callbacks.get? name with
      | none => exact ih
      | some callback =>
        apply (HostProgram.runsNothing_run htrigger (h.callback hcallback arguments)).bind
        intro propagation
        cases propagation with
        | goOn => exact ih
        | stop => exact runsNothing_of_notices_eq fun _ => rfl
  exact (runsNothing_of_notices_eq fun _ => rfl).bind fun s => hcallbacks (s.bus.listeners name)

theorem runsNothing_reentryWithin (h : e.Isolated) (reentries : Nat) (name : Text)
    (arguments : List Value) :
    ((e.reentryWithin reentries).trigger name arguments).RunsNothing := by
  induction reentries generalizing name arguments with
  | zero => exact runsNothing_of_notices_eq fun _ => rfl
  | succ reentries ih => exact h.runsNothing_trigger ih name arguments

end Isolated

/-- The hosts of an engine run no action by themselves. -/
structure HostsRunNothing (e : Engine σ) (re : Reentry σ) : Prop where
  condition : ∀ {name getter}, e.conditions.get? name = some getter → ∀ arguments,
    ((getter arguments).run re).RunsNothing
  placeholder : ∀ {name getter}, e.placeholders.get? name = some getter → ∀ arguments,
    ((getter arguments).run re).RunsNothing
  action : ∀ {name action}, e.actions.get? name = some action → ∀ payload,
    ((action.action payload).run re).RunsNothing
  trigger : ∀ name arguments, (e.trigger re name arguments).RunsNothing

theorem Isolated.hostsRunNothing (h : e.Isolated) (reentries : Nat) :
    e.HostsRunNothing (e.reentryWithin reentries) where
  condition hget arguments :=
    HostProgram.runsNothing_run (h.runsNothing_reentryWithin reentries) (h.condition hget arguments)
  placeholder hget arguments :=
    HostProgram.runsNothing_run (h.runsNothing_reentryWithin reentries)
      (h.placeholder hget arguments)
  action hget payload :=
    HostProgram.runsNothing_run (h.runsNothing_reentryWithin reentries) (h.action hget payload)
  trigger := h.runsNothing_trigger (h.runsNothing_reentryWithin reentries)

namespace HostsRunNothing

theorem invocations_eq_of_aside (h : e.HostsRunNothing re) {s s' : State σ}
    (haside : e.Aside re s s') : s'.invocations = s.invocations := by
  cases haside with
  | reports hreports =>
    obtain ⟨logged, rfl, hlogged⟩ := hreports
    exact s.invocations_append hlogged
  | condition hgetter arguments => exact (h.condition hgetter arguments).invocations_eq rfl
  | placeholder hgetter arguments => exact (h.placeholder hgetter arguments).invocations_eq rfl
  | before t => exact (h.trigger resolveBefore [.text t]).invocations_eq rfl
  | depth | talking => rfl

/-- Every call is on record, and nothing else. -/
theorem invocations_eq_of_ran (h : e.HostsRunNothing re) {s s' : State σ}
    {calls : List (Text × Value)} (hran : e.Ran re s calls s') :
    s'.invocations = s.invocations ++ calls := by
  induction hran with
  | nothing s => exact (List.append_nil _).symm
  | aside haside _ ih => rw [ih, h.invocations_eq_of_aside haside]
  | call haction hrun _ ih =>
    rw [ih, (h.action haction _).invocations_eq hrun, State.invocations, List.filterMap_append,
      List.append_assoc]
    rfl

/-- What was called can be told from the states before and after. -/
theorem eq_of_ran (h : e.HostsRunNothing re) {s s' : State σ} {calls calls' : List (Text × Value)}
    (hran : e.Ran re s calls s') (hran' : e.Ran re s calls' s') : calls = calls' :=
  List.append_cancel_left
    ((h.invocations_eq_of_ran hran).symm.trans (h.invocations_eq_of_ran hran'))

end HostsRunNothing

/-! ## What is reported -/

theorem exists_last_of_mem {p : α → Prop} {l : List α} (h : ∃ a ∈ l, p a) :
    ∃ before a after, l = before ++ a :: after ∧ p a ∧ ∀ b ∈ after, ¬ p b := by
  induction l with
  | nil => simp at h
  | cons a l ih =>
    by_cases hl : ∃ b ∈ l, p b
    · obtain ⟨before, b, after, rfl, hb, hafter⟩ := ih hl
      exact ⟨a :: before, b, after, rfl, hb, hafter⟩
    · have hnone : ∀ b ∈ l, ¬ p b := fun b hb hpb => hl ⟨b, hb, hpb⟩
      obtain ⟨b, hb, hpb⟩ := h
      rcases List.mem_cons.1 hb with rfl | hb
      · exact ⟨[], b, l, rfl, hpb, hnone⟩
      · exact absurd hpb (hnone b hb)

/-- Of blocks, the last that names an action decides what it is called for: no block behind it
overwrites the payload. -/
theorem invocations_said {repair : Repair} {name : Text} (before : List (ReadBlock repair))
    {b : ReadBlock repair} {after : List (ReadBlock repair)} (hname : ∃ p ∈ b.entries, p.1 = name)
    (hafter : ∀ b' ∈ after, ∀ p ∈ b'.entries, p.1 ≠ name) :
    (ActionMap.ofEntries (said (before ++ b :: after))).invocations name =
      (ActionMap.ofEntries b.entries).invocations name := by
  apply ActionMap.invocations_congr (ActionMap.consistent_ofEntries _)
    (ActionMap.consistent_ofEntries _)
  rw [said_append]
  apply ActionMap.get?_ofEntries_append (said before) hname
  intro p hp
  obtain ⟨b', hb', hp⟩ := List.mem_flatMap.1 hp
  exact hafter b' hb' p hp

/-- What is reported is what ran. Where no host calls the engine to resolve a text, a real resolution
that does not redirect calls what the blocks call for that it reads, at whatever depth of templates,
and no other calls lead to the state that it leaves. Whatever ran is reported, is no clause and is
an action that does not wait. And for every reported name of such an action, the last block that
names it calls it in its turn for exactly the invocations of the reported payload: those are the
objects of its calls, with what the hosts have left in them. -/
theorem resolve_reports_what_ran (e : Engine σ) (hisolated : e.Isolated) (reentries : Nat)
    {t : Text} {s s' : State σ} {r : Resolution}
    (h : (e.resolve (e.reentryWithin reentries) t false).on s = (.ok r, s'))
    (hr : r.redirected = false) :
    ∃ ran, (∀ calls, e.Ran (e.reentryWithin reentries) s calls s' ↔ calls = ran) ∧
      ran = (e.blocksRead (e.reentryWithin reentries) false t s).flatMap e.calls ∧
      (∀ call ∈ ran, r.actions.contains call.1 ∧ Gate.isClauseKey call.1 = false ∧
        ∃ action, e.actions.get? call.1 = some action ∧ action.eventDelayed = false) ∧
      ∀ name action, r.actions.contains name → Gate.isClauseKey name = false →
        e.actions.get? name = some action → action.eventDelayed = false →
        ∃ before b after, e.blocksRead (e.reentryWithin reentries) false t s =
            before ++ b :: after ∧
          (∃ p ∈ b.entries, p.1 = name) ∧ (∀ b' ∈ after, ∀ p ∈ b'.entries, p.1 ≠ name) ∧
          (∃ s₁ s₂, e.Ran (e.reentryWithin reentries) s (before.flatMap e.calls) s₁ ∧
            e.Ran (e.reentryWithin reentries) s₁ (e.calls b) s₂ ∧
            e.Ran (e.reentryWithin reentries) s₂ (after.flatMap e.calls) s') ∧
          ∃ objects, (e.calls b).filter (fun call => call.1 = name) = objects.map (name, ·) ∧
            r.actions.invocations name = action.leftIn s'.memory objects ∧
            (action.LeavesPayloads → r.actions.invocations name = objects) := by
  have hhosts := hisolated.hostsRunNothing reentries
  have hran := ran_of_resolve h
  obtain ⟨found, rfl, hcome, -⟩ := comesOf_resolve h
  rw [redirected_delivered] at hr
  rw [hr] at hcome
  obtain ⟨hbs, hactions⟩ := hcome.eq_of_not_redirected
  rw [actions_delivered, hr, Bool.or_false, if_neg Bool.false_ne_true]
  simp only [contains_actionsAt]
  refine ⟨_, fun calls => ⟨fun hcalls => hhosts.eq_of_ran hcalls hran, fun heq => heq ▸ hran⟩, rfl,
    fun call hcall => ?_, fun name action hname hclause haction hdelayed => ?_⟩
  · obtain ⟨b, hb, hcall⟩ := List.mem_flatMap.1 hcall
    obtain ⟨hdispatches, p, hp, hname⟩ := mem_calls hcall
    rw [hactions]
    exact ⟨ActionMap.contains_ofEntries.2 ⟨p, List.mem_flatMap.2 ⟨b, hb, hp⟩, hname⟩,
      dispatches_true_iff.1 hdispatches⟩
  · rw [hactions] at hname
    obtain ⟨p, hp, hp'⟩ := ActionMap.contains_ofEntries.1 hname
    obtain ⟨b, hb, hp⟩ := List.mem_flatMap.1 hp
    obtain ⟨before, b, after, hsplit, hnames, hafter⟩ :=
      exists_last_of_mem (p := fun b : ReadBlock e.repair => ∃ p ∈ b.entries, p.1 = name)
        ⟨b, hb, p, hp, hp'⟩
    rw [hsplit, List.flatMap_append, List.flatMap_cons] at hran
    obtain ⟨s₁, hbefore, hran⟩ := hran.exists_of_append
    obtain ⟨s₂, hb, hrest⟩ := hran.exists_of_append
    have hunnamed : ∀ b' ∈ after, ∀ p ∈ b'.entries, p.1 ≠ name :=
      fun b' hb' p hp hp' => hafter b' hb' ⟨p, hp, hp'⟩
    refine ⟨before, b, after, hsplit, hnames, hunnamed, ⟨s₁, s₂, hbefore, hb, hrest⟩, ?_⟩
    have hdispatches := dispatches_true_iff.2 ⟨hclause, action, haction, hdelayed⟩
    have hinvocations := invocations_said before hnames hunnamed
    rw [filter_calls (hbs b (by rw [hsplit]; simp)) hdispatches hnames, hactions,
      invocations_actionsAt (ActionMap.consistent_ofEntries _) hdispatches haction, hsplit,
      hinvocations]
    exact ⟨_, rfl, rfl, fun hleaves => hleaves.leftIn_eq s'.memory _⟩

/-- An engine that takes tolls, each with thanks, and has a signature wait. -/
def ferry : Engine Nat where
  settings := .standard
  sigil := "_"
  repair := id
  fragments := some [(.text "main",
    [(.text "$toll", .text ("\x7b\"pay\": [1, 2], \"sign\": \"here\", \"sing\": \"low\"\x7d" ++
      "Toll."))])]
  conditions := []
  placeholders := []
  actions := [
    ("pay", .plain fun _ => .updating (· + 1) (.trigger "paid" [] fun _ => .done ())),
    ("sign", { ActionEntry.plain ActionEntry.nothing with eventDelayed := true })]
  callbacks := [("thank", fun _ => .applyFlags (.text "thanks>1") (.done .goOn))]

def ferryText : Text :=
  "\x7b\"pay\": 5\x7dAboard. |$toll|\x7b\"pay\": [3, 4], \"if\": \"gold>1\"\x7d"

def ferryStart : State Nat := { World.start default 0 with bus := [("paid", ["thank"])] }

theorem isolated_ferry : ferry.Isolated where
  condition := nofun
  placeholder := nofun
  action := by
    intro name action haction payload
    have hmem := Table.mem_of_get? haction
    simp only [ferry, List.mem_cons, Prod.mk.injEq, List.not_mem_nil, or_false] at hmem
    rcases hmem with ⟨-, rfl⟩ | ⟨-, rfl⟩
    · exact fun memory goesOn => trivial
    · trivial
  callback := by
    intro name callback hcallback arguments
    have hmem := Table.mem_of_get? hcallback
    simp only [ferry, List.mem_cons, Prod.mk.injEq, List.not_mem_nil, or_false] at hmem
    obtain ⟨-, rfl⟩ := hmem
    trivial

/-- The block behind the template is the last that names the payment, and it is its payload that is
reported. -/
theorem resolve_ferryText :
    ferry.Isolated ∧ ∃ r s',
      (ferry.resolve (ferry.reentryWithin 1) ferryText false).on ferryStart = (.ok r, s') ∧
      r.redirected = false ∧ s'.memory = 5 ∧
      (r.actions.invocations "pay").map Value.display = ["3".toList, "4".toList] ∧
      ∃ ran, (∀ calls, ferry.Ran (ferry.reentryWithin 1) ferryStart calls s' ↔ calls = ran) ∧
        ran.map (fun call => call.2.display) =
          ["1".toList, "2".toList, "5".toList, "3".toList, "4".toList] ∧
        (∀ call ∈ ran, r.actions.contains call.1) ∧
        ∃ before b after, ferry.blocksRead (ferry.reentryWithin 1) false ferryText ferryStart =
            before ++ b :: after ∧
          (ferry.calls b).filter (fun call => call.1 = ("pay" : Text)) =
            (r.actions.invocations "pay").map (("pay" : Text), ·) := by
  have hresolved : ((ferry.resolve (ferry.reentryWithin 1) ferryText false).on
      ferryStart).1.toOption.map (fun r => (r.redirected, r.actions.contains "pay",
        (r.actions.invocations "pay").map Value.display)) =
      some (false, true, ["3".toList, "4".toList]) := by decide +kernel
  have hmemory : ((ferry.resolve (ferry.reentryWithin 1) ferryText false).on
      ferryStart).2.memory = 5 := by decide +kernel
  obtain ⟨r, s', hrun, hresolved⟩ := exists_eq_ok_of_map hresolved
  rw [hrun] at hmemory
  obtain ⟨hredirected, hresolved⟩ := Prod.mk.inj hresolved
  obtain ⟨hpay, hinvocations⟩ := Prod.mk.inj hresolved
  obtain ⟨ran, hran, hblocks, hreported, hlast⟩ :=
    resolve_reports_what_ran ferry isolated_ferry 1 hrun hredirected
  obtain ⟨before, b, after, hsplit, -, -, -, objects, hcalls, -, hobjects⟩ :=
    hlast "pay" _ hpay (by decide) rfl rfl
  rw [← hobjects fun _ _ _ => rfl] at hcalls
  refine ⟨isolated_ferry, r, s', hrun, hredirected, hmemory, hinvocations,
    ran, hran, ?_, fun call hcall => (hreported call hcall).1, before, b, after, hsplit, hcalls⟩
  rw [hblocks]
  decide +kernel

end Engine

end StoryScript
