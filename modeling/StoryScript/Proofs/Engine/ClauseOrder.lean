import StoryScript.Proofs.Condition.Splitting
import StoryScript.Proofs.Engine.Reports

/-!
# The order of conditions

Where the conditions of a host change nothing, a clause comes to what its conditions come to one by
one (`Gate.answer_allHold`, `Gate.answer_anyHolds`). Main statement: the conditions of a branch of
which all must hold can be put in any order, and so can those of which one must hold, unless one
holds and another one fails; then it matters whether one that holds comes before all that fail
(`Engine.passes_reordered`).
-/

namespace StoryScript

open Run

variable {σ α β : Type}

/-- A state that is another but for what was reported. -/
def State.SameButReports (s s' : State σ) : Prop := s' = { s with notices := s'.notices }

theorem State.SameButReports.refl (s : State σ) : s.SameButReports s := rfl

theorem State.SameButReports.trans {s s' s'' : State σ} (h : s.SameButReports s')
    (h' : s'.SameButReports s'') : s.SameButReports s'' := by
  unfold SameButReports at h h' ⊢
  rw [h', h]

/-- A program of the host that leaves the state as it is, whatever it reports and however it
ends. -/
def HostProgram.ChangesNothing (re : Reentry σ) (p : HostProgram σ α) : Prop :=
  ∀ s : State σ, s.SameButReports ((p.run re).on s).2

namespace Run

/-- A run that only asks: nothing hangs on what was reported before it, and it changes nothing. -/
structure IsQuery (x : Run σ α) : Prop where
  ignoresReports : x.IgnoresReports
  changesNothing : ∀ s : State σ, s.SameButReports (x.on s).2

namespace IsQuery

theorem pure (a : α) : IsQuery (pure a : Run σ α) :=
  ⟨ignoresReports_pure a, State.SameButReports.refl⟩

theorem ofExcept (x : Except Failure α) : IsQuery (ofExcept x : Run σ α) :=
  ⟨ignoresReports_ofExcept x, State.SameButReports.refl⟩

theorem notify (n : Notice) : IsQuery (notify n : Run σ Unit) :=
  ⟨ignoresReports_notify n, fun _ => rfl⟩

theorem bind {x : Run σ α} {f : α → Run σ β} (hx : x.IsQuery) (hf : ∀ a, (f a).IsQuery) :
    (x >>= f).IsQuery := by
  refine ⟨hx.ignoresReports.bind fun a => (hf a).ignoresReports, fun s => ?_⟩
  have hfirst := hx.changesNothing s
  rw [on_bind]
  generalize x.on s = out at hfirst
  obtain ⟨failure | a, s'⟩ := out
  · exact hfirst
  · exact hfirst.trans ((hf a).changesNothing s')

/-- What comes of a sequence that begins with a question, as of its parts in the same state. -/
theorem answer_bind {x : Run σ α} {f : α → Run σ β} (hx : x.IsQuery)
    (hf : ∀ a, (f a).IgnoresReports) (s : State σ) :
    ((x >>= f).on s).1 = (x.on s).1 >>= fun a => ((f a).on s).1 := by
  have hsame := hx.changesNothing s
  rw [on_bind]
  generalize x.on s = out at hsame ⊢
  obtain ⟨failure | a, s'⟩ := out
  · rfl
  · show ((f a).on s').1 = ((f a).on s).1
    rw [show s' = { s with notices := s'.notices } from hsame]
    exact (hf a).answer_eq s s'.notices

end IsQuery

end Run

/-! ## Gates -/

namespace Gate

variable {test : Text → Run σ Bool}

/-- Questions that must all be affirmed come to what they come to one by one. -/
theorem answer_allHold (h : ∀ c, (test c).IsQuery) (cs : List Text) (s : State σ) :
    ((allHold test cs).on s).1 = allHold (fun c => ((test c).on s).1) cs := by
  induction cs with
  | nil => rfl
  | cons c cs ih =>
    have hrest : ∀ holds : Bool, ((if holds then allHold test cs else pure false) : Run σ Bool)
        |>.IgnoresReports := by
      intro holds
      cases holds with
      | true => exact ignoresReports_allHold (fun c => (h c).ignoresReports) cs
      | false => exact ignoresReports_pure false
    rw [allHold, allHold, (h c).answer_bind hrest, ← ih]
    apply bind_congr
    intro holds
    cases holds <;> rfl

/-- Questions of which one must be affirmed come to what they come to one by one. -/
theorem answer_anyHolds (h : ∀ c, (test c).IsQuery) (cs : List Text) (s : State σ) :
    ((anyHolds test cs).on s).1 = anyHolds (fun c => ((test c).on s).1) cs := by
  induction cs with
  | nil => rfl
  | cons c cs ih =>
    have hrest : ∀ holds : Bool, ((if holds then pure true else anyHolds test cs) : Run σ Bool)
        |>.IgnoresReports := by
      intro holds
      cases holds with
      | true => exact ignoresReports_pure true
      | false => exact ignoresReports_anyHolds (fun c => (h c).ignoresReports) cs
    rw [anyHolds, anyHolds, (h c).answer_bind hrest, ← ih]
    apply bind_congr
    intro holds
    cases holds <;> rfl

section

variable {m : Type → Type} [Monad m] (test : Text → m Bool) (f : Text → Text) (cs : List Text)

theorem allHold_map : allHold test (cs.map f) = allHold (fun c => test (f c)) cs := by
  induction cs with
  | nil => rfl
  | cons c cs ih => rw [List.map_cons, allHold, allHold, ih]

theorem anyHolds_map : anyHolds test (cs.map f) = anyHolds (fun c => test (f c)) cs := by
  induction cs with
  | nil => rfl
  | cons c cs ih => rw [List.map_cons, anyHolds, anyHolds, ih]

end

variable {verdict : Text → Except Failure Bool} {cs : List Text}

theorem allHold_eq_true_iff : allHold verdict cs = .ok true ↔ ∀ c ∈ cs, verdict c = .ok true := by
  induction cs with
  | nil => exact ⟨fun _ _ hc => (nomatch hc), fun _ => rfl⟩
  | cons c cs ih =>
    rw [List.forall_mem_cons, ← ih, allHold]
    rcases verdict c with failure | _ | _
    · exact ⟨(nomatch ·), fun h => nomatch h.1⟩
    · exact ⟨(nomatch ·), fun h => nomatch h.1⟩
    · exact ⟨fun h => ⟨rfl, h⟩, fun h => h.2⟩

/-- Some condition holds, and those before it do not fail. -/
theorem anyHolds_eq_true_iff : anyHolds verdict cs = .ok true ↔
    ∃ before c after, cs = before ++ c :: after ∧ verdict c = .ok true ∧
      ∀ d ∈ before, ∀ failure, verdict d ≠ .error failure := by
  induction cs with
  | nil =>
    refine ⟨(nomatch ·), ?_⟩
    rintro ⟨before, c, after, hcs, -⟩
    simp at hcs
  | cons c cs ih =>
    rw [anyHolds]
    cases hc : verdict c with
    | error failure =>
      refine ⟨(nomatch ·), ?_⟩
      rintro ⟨_ | ⟨b, before⟩, d, after, hcs, hd, hbefore⟩
      · obtain ⟨rfl, -⟩ := List.cons.inj hcs
        rw [hc] at hd
        cases hd
      · obtain ⟨rfl, -⟩ := List.cons.inj hcs
        exact absurd hc (hbefore c List.mem_cons_self failure)
    | ok holds =>
      cases holds with
      | true => exact ⟨fun _ => ⟨[], c, cs, rfl, hc, fun _ hd => (nomatch hd)⟩, fun _ => rfl⟩
      | false =>
        refine Iff.trans ih ⟨?_, ?_⟩
        · rintro ⟨before, d, after, rfl, hd, hbefore⟩
          have hhead : ∀ failure, verdict c ≠ .error failure := by simp [hc]
          exact ⟨c :: before, d, after, rfl, hd, List.forall_mem_cons.2 ⟨hhead, hbefore⟩⟩
        · rintro ⟨_ | ⟨b, before⟩, d, after, hcs, hd, hbefore⟩
          · obtain ⟨rfl, -⟩ := List.cons.inj hcs
            rw [hc] at hd
            cases hd
          · obtain ⟨rfl, rfl⟩ := List.cons.inj hcs
            exact ⟨before, d, after, rfl, hd, fun d' hd' => hbefore d' (List.mem_cons_of_mem _ hd')⟩

/-- Where no condition fails, any that holds will do. -/
theorem anyHolds_eq_true_iff_of_none_fails
    (h : ∀ c ∈ cs, ∀ failure, verdict c ≠ .error failure) :
    anyHolds verdict cs = .ok true ↔ ∃ c ∈ cs, verdict c = .ok true := by
  rw [anyHolds_eq_true_iff]
  constructor
  · rintro ⟨before, c, after, rfl, hc, -⟩
    exact ⟨c, by simp, hc⟩
  · rintro ⟨c, hmem, hc⟩
    obtain ⟨before, after, rfl⟩ := List.append_of_mem hmem
    exact ⟨before, c, after, rfl, hc, fun d hd => h d (List.mem_append_left _ hd)⟩

end Gate

/-! ## Branches -/

/-- A branch that depends on some conditions. -/
def Branch.ofConditions (kind : BranchKind) (cs : List Text) (body : Text) : Branch :=
  ⟨kind, Text.join [','] cs, body⟩

namespace Engine

/-- The conditions of an engine change nothing. -/
def ConditionsChangeNothing (e : Engine σ) (re : Reentry σ) : Prop :=
  ∀ name getter, e.conditions.get? name = some getter → ∀ arguments,
    (getter arguments).ChangesNothing re

/-- What comes of asking in a state whether a condition holds. -/
def verdict (e : Engine σ) (re : Reentry σ) (s : State σ) (c : Text) : Except Failure Bool :=
  ((e.holds re c).on s).1

/-- What comes of testing a branch in a state. -/
def decision (e : Engine σ) (re : Reentry σ) (s : State σ) (b : Branch) : Except Failure Bool :=
  ((e.passes re b).on s).1

variable {e : Engine σ} {re : Reentry σ}

theorem verdict_trim (s : State σ) (c : Text) : e.verdict re s c.trim = e.verdict re s c := by
  unfold verdict Engine.holds
  rw [Text.trim_trim]
  cases Comparison.read? e.sigil c.trim with
  | none => rfl
  | some comparison =>
    dsimp only
    rw [on_bind, on_bind]
    obtain ⟨failure | actual, s'⟩ := (e.conditionValue re comparison.key).on s
    · rfl
    · dsimp only
      rcases comparison.holds actual with failure | _ | answer <;> rfl

theorem isQuery_holds (hre : re.IgnoresReports) (he : e.ConditionsChangeNothing re) (c : Text) :
    (e.holds re c).IsQuery := by
  have hvalue (key : Text) : (e.conditionValue re key).IsQuery := by
    refine ⟨ignoresReports_conditionValue hre key, fun s => ?_⟩
    unfold conditionValue
    cases Text.after? e.sigil key with
    | none => rfl
    | some rest =>
      cases Reference.read? e.sigil key with
      | none => rfl
      | some r =>
        dsimp only
        rw [entry]
        cases hgetter : e.conditions.get? r.name with
        | none => rfl
        | some getter => exact he r.name getter hgetter r.arguments s
  unfold Engine.holds
  cases Comparison.read? e.sigil c.trim with
  | none => exact (IsQuery.notify _).bind fun _ => .pure false
  | some comparison =>
    apply (hvalue comparison.key).bind
    intro actual
    apply (IsQuery.ofExcept _).bind
    intro answer
    cases answer with
    | none => exact (IsQuery.notify _).bind fun _ => .pure false
    | some b => exact .pure b

/-- A test comes to an answer whatever happens: a branch passes if its gate opens, and does not if
that fails. -/
theorem decision_eq (e : Engine σ) (re : Reentry σ) (b : Branch) (s : State σ) :
    ∃ answer, e.decision re s b = .ok answer ∧
      (answer = true ↔ b.condition = [] ∨ ((e.opens re (gateOf b)).on s).1 = .ok true) := by
  unfold decision passes
  cases hcondition : b.condition with
  | nil => exact ⟨true, rfl, by simp⟩
  | cons c cs =>
    rw [if_neg (by simp), on_bind, on_attempt]
    generalize (e.opens re (gateOf b)).on s = out
    obtain ⟨failure | answer, s'⟩ := out
    · exact ⟨false, rfl, by simp⟩
    · exact ⟨answer, rfl, by simp⟩

section

variable {cs : List Text} (hre : re.IgnoresReports) (he : e.ConditionsChangeNothing re)
  (hcs : ∀ c ∈ cs, Clause.IsCondition c) (body : Text) (s : State σ)
include hre he hcs

theorem answer_opens_ifAll :
    ((e.opens re (gateOf (.ofConditions .ifAll cs body))).on s).1 =
      Gate.allHold (e.verdict re s) cs := by
  have hopens : e.opens re (gateOf (.ofConditions .ifAll cs body)) =
      Gate.allHold (e.holds re) (Clause.split (Text.join [','] cs)) := by
    show (Gate.allHold (e.holds re) (Clause.split (Text.join [','] cs)) >>= fun holds =>
      if holds then pure true else pure false) = _
    conv_rhs => rw [← bind_pure (Gate.allHold _ _)]
    apply bind_congr
    intro holds
    cases holds <;> rfl
  rw [hopens, Clause.split_join hcs, Gate.allHold_map,
    Gate.answer_allHold fun c => isQuery_holds hre he c.trim,
    show (fun c => ((e.holds re (Text.trim c)).on s).1) = e.verdict re s from
      funext (verdict_trim s)]

theorem answer_opens_ifAny :
    ((e.opens re (gateOf (.ofConditions .ifAny cs body))).on s).1 =
      Gate.anyHolds (e.verdict re s) cs := by
  have hopens : e.opens re (gateOf (.ofConditions .ifAny cs body)) =
      Gate.anyHolds (e.holds re) (Clause.split (Text.join [','] cs)) := by
    show (pure true >>= fun holds : Bool =>
      if holds then Gate.anyHolds (e.holds re) (Clause.split (Text.join [','] cs))
      else pure false) = _
    rw [pure_bind, if_pos rfl]
  rw [hopens, Clause.split_join hcs, Gate.anyHolds_map,
    Gate.answer_anyHolds fun c => isQuery_holds hre he c.trim,
    show (fun c => ((e.holds re (Text.trim c)).on s).1) = e.verdict re s from
      funext (verdict_trim s)]

/-- A branch of which all conditions must hold passes if each of them does. -/
theorem decision_ifAll : ∃ answer, e.decision re s (.ofConditions .ifAll cs body) = .ok answer ∧
    (answer = true ↔ ∀ c ∈ cs, e.verdict re s c = .ok true) := by
  obtain ⟨answer, hanswer, htrue⟩ := e.decision_eq re (.ofConditions .ifAll cs body) s
  rw [answer_opens_ifAll hre he hcs, Gate.allHold_eq_true_iff] at htrue
  refine ⟨answer, hanswer, htrue.trans ⟨?_, .inr⟩⟩
  rintro (hnil | hall)
  · -- Without a condition there is none to hold.
    rw [Clause.eq_nil_of_join_eq_nil hcs hnil]
    exact fun _ hc => nomatch hc
  · exact hall

/-- A branch of which one condition must hold passes if one that does comes before all that fail. -/
theorem decision_ifAny (hne : cs ≠ []) :
    ∃ answer, e.decision re s (.ofConditions .ifAny cs body) = .ok answer ∧
      (answer = true ↔ ∃ before c after, cs = before ++ c :: after ∧
        e.verdict re s c = .ok true ∧ ∀ d ∈ before, ∀ failure, e.verdict re s d ≠ .error failure) := by
  obtain ⟨answer, hanswer, htrue⟩ := e.decision_eq re (.ofConditions .ifAny cs body) s
  rw [answer_opens_ifAny hre he hcs, Gate.anyHolds_eq_true_iff] at htrue
  refine ⟨answer, hanswer, htrue.trans ⟨?_, .inr⟩⟩
  rintro (hnil | hany)
  · exact absurd (Clause.eq_nil_of_join_eq_nil hcs hnil) hne
  · exact hany

theorem decision_ifAny_of_head_holds {c : Text} (hc : c ∈ cs)
    (hholds : e.verdict re s c = .ok true) :
    e.decision re s (.ofConditions .ifAny (c :: cs.erase c) body) = .ok true := by
  have hperm := (List.perm_cons_erase hc).symm
  obtain ⟨answer, hanswer, htrue⟩ := decision_ifAny hre he
    (fun d hd => hcs d (hperm.mem_iff.1 hd)) body s (List.cons_ne_nil c (cs.erase c))
  rw [hanswer, htrue.2 ⟨[], c, cs.erase c, rfl, hholds, fun _ hd => nomatch hd⟩]

theorem decision_ifAny_of_head_fails {c : Text} (hc : c ∈ cs) {failure : Failure}
    (hfails : e.verdict re s c = .error failure) :
    e.decision re s (.ofConditions .ifAny (c :: cs.erase c) body) = .ok false := by
  have hperm := (List.perm_cons_erase hc).symm
  obtain ⟨answer, hanswer, htrue⟩ := decision_ifAny hre he
    (fun d hd => hcs d (hperm.mem_iff.1 hd)) body s (List.cons_ne_nil c (cs.erase c))
  cases answer with
  | false => exact hanswer
  | true =>
    obtain ⟨_ | ⟨b, before⟩, d, after, heq, hholds, hbefore⟩ := htrue.1 rfl
    · obtain ⟨rfl, -⟩ := List.cons.inj heq
      rw [hfails] at hholds
      cases hholds
    · obtain ⟨rfl, -⟩ := List.cons.inj heq
      exact absurd hfails (hbefore c List.mem_cons_self failure)

/-- If no condition fails or none holds, the order of the conditions does not matter. -/
theorem decision_ifAny_of_unmixed (hunmixed : ¬ ((∃ c ∈ cs, e.verdict re s c = .ok true) ∧
      ∃ c ∈ cs, ∃ failure, e.verdict re s c = .error failure)) :
    ∃ answer, e.decision re s (.ofConditions .ifAny cs body) = .ok answer ∧
      (answer = true ↔ cs = [] ∨ ∃ c ∈ cs, e.verdict re s c = .ok true) := by
  by_cases hne : cs = []
  · obtain ⟨answer, hanswer, htrue⟩ := e.decision_eq re (.ofConditions .ifAny cs body) s
    subst hne
    exact ⟨answer, hanswer, fun _ => .inl rfl, fun _ => htrue.2 (.inl rfl)⟩
  · obtain ⟨answer, hanswer, htrue⟩ := decision_ifAny hre he hcs body s hne
    refine ⟨answer, hanswer, htrue.trans ⟨?_, ?_⟩⟩
    · rintro ⟨before, c, after, rfl, hholds, -⟩
      exact .inr ⟨c, by simp, hholds⟩
    · rintro (hnil | hholds)
      · exact absurd hnil hne
      · have hnone : ∀ c ∈ cs, ∀ failure, e.verdict re s c ≠ .error failure :=
          fun c hc failure hfails => hunmixed ⟨hholds, c, hc, failure, hfails⟩
        exact Gate.anyHolds_eq_true_iff.1
          ((Gate.anyHolds_eq_true_iff_of_none_fails hnone).2 hholds)

end

/-- The order of the conditions of a branch, where those of the host change nothing. In whatever
order they are written, a branch of which all must hold is decided in the same way. One of which one
must hold is so too, unless one holds and another one fails; it passes if one that holds comes
before all that fail. -/
theorem passes_reordered (e : Engine σ) (n : Nat)
    (hhosts : e.ConditionsChangeNothing (e.reentryWithin n)) {cs : List Text}
    (hcs : ∀ c ∈ cs, Clause.IsCondition c) (body : Text) (s : State σ) :
    (∀ cs', cs'.Perm cs → ∃ answer,
      e.decision (e.reentryWithin n) s (.ofConditions .ifAll cs body) = .ok answer ∧
        e.decision (e.reentryWithin n) s (.ofConditions .ifAll cs' body) = .ok answer) ∧
    ((∀ cs', cs'.Perm cs → ∃ answer,
        e.decision (e.reentryWithin n) s (.ofConditions .ifAny cs body) = .ok answer ∧
          e.decision (e.reentryWithin n) s (.ofConditions .ifAny cs' body) = .ok answer) ↔
      ¬ ((∃ c ∈ cs, e.verdict (e.reentryWithin n) s c = .ok true) ∧
        ∃ c ∈ cs, ∃ failure, e.verdict (e.reentryWithin n) s c = .error failure)) ∧
    (cs ≠ [] → ∃ answer,
      e.decision (e.reentryWithin n) s (.ofConditions .ifAny cs body) = .ok answer ∧
        (answer = true ↔ ∃ before c after, cs = before ++ c :: after ∧
          e.verdict (e.reentryWithin n) s c = .ok true ∧
            ∀ d ∈ before, ∀ failure, e.verdict (e.reentryWithin n) s d ≠ .error failure)) := by
  have hre := e.ignoresReports_reentryWithin n
  have hperm {cs' : List Text} (h : cs'.Perm cs) : ∀ c ∈ cs', Clause.IsCondition c :=
    fun c hc => hcs c (h.mem_iff.1 hc)
  refine ⟨?_, ⟨?_, ?_⟩, decision_ifAny hre hhosts hcs body s⟩
  · intro cs' h
    obtain ⟨answer, hanswer, htrue⟩ := decision_ifAll hre hhosts hcs body s
    obtain ⟨answer', hanswer', htrue'⟩ := decision_ifAll hre hhosts (hperm h) body s
    have hsame : answer = answer' := by
      rw [Bool.eq_iff_iff, htrue, htrue']
      exact ⟨fun hall c hc => hall c (h.mem_iff.1 hc), fun hall c hc => hall c (h.mem_iff.2 hc)⟩
    exact ⟨answer, hanswer, hsame ▸ hanswer'⟩
  · -- The one that holds and the one that fails are put first in turn.
    rintro hall ⟨⟨c, hc, hholds⟩, d, hd, failure, hfails⟩
    obtain ⟨answer, hanswer, hpasses⟩ := hall _ (List.perm_cons_erase hc).symm
    obtain ⟨answer', hanswer', hstays⟩ := hall _ (List.perm_cons_erase hd).symm
    rw [decision_ifAny_of_head_holds hre hhosts hcs body s hc hholds] at hpasses
    rw [decision_ifAny_of_head_fails hre hhosts hcs body s hd hfails] at hstays
    rw [hanswer, ← hpasses, ← hstays] at hanswer'
    cases hanswer'
  · intro hunmixed cs' h
    have hunmixed' : ¬ ((∃ c ∈ cs', e.verdict (e.reentryWithin n) s c = .ok true) ∧
        ∃ c ∈ cs', ∃ failure, e.verdict (e.reentryWithin n) s c = .error failure) := by
      simpa only [h.mem_iff] using hunmixed
    obtain ⟨answer, hanswer, htrue⟩ := decision_ifAny_of_unmixed hre hhosts hcs body s hunmixed
    obtain ⟨answer', hanswer', htrue'⟩ :=
      decision_ifAny_of_unmixed hre hhosts (hperm h) body s hunmixed'
    have hsame : answer = answer' := by
      have hnil : cs' = [] ↔ cs = [] := by
        rw [← List.length_eq_zero_iff, h.length_eq, List.length_eq_zero_iff]
      rw [Bool.eq_iff_iff, htrue, htrue', hnil]
      simp only [h.mem_iff]
    exact ⟨answer, hanswer, hsame ▸ hanswer'⟩

/-- An inn that counts the guests it is told of. -/
def inn : Engine Unit where
  settings := .standard
  sigil := "_"
  repair := id
  fragments := none
  conditions := [("_guests", fun guests => .done (.int guests.length))]
  placeholders := []
  actions := []
  callbacks := []

def innStart : State Unit where
  flags := ⟨.text "main", [(.text "main", [(.text "gold", .int 5)])]⟩
  bus := []
  talking := none
  depth := 0
  notices := []
  memory := ()

def innConditions : List Text := ["_guests(ann, bob) = 2", " gold < 3 ", "gold = plenty"]

theorem conditionsChangeNothing_inn (re : Reentry Unit) : inn.ConditionsChangeNothing re := by
  intro name getter hgetter arguments s
  by_cases hguests : ("_guests" : Text) = name
  · subst hguests
    obtain rfl := Option.some.inj hgetter
    rfl
  · exact absurd (hgetter.symm.trans (if_neg hguests)) (Option.some_ne_none getter)

/-- Of three conditions that can be asked about, one holds, in whatever order they are asked. -/
theorem passes_innConditions :
    inn.ConditionsChangeNothing (inn.reentryWithin 1) ∧
      (∀ c ∈ innConditions, Clause.IsCondition c) ∧
      ∀ cs, cs.Perm innConditions →
        inn.decision (inn.reentryWithin 1) innStart (.ofConditions .ifAny cs []) = .ok true ∧
        inn.decision (inn.reentryWithin 1) innStart (.ofConditions .ifAll cs []) = .ok false := by
  have hhosts := conditionsChangeNothing_inn (inn.reentryWithin 1)
  have hcs : ∀ c ∈ innConditions, Clause.IsCondition c := by decide +kernel
  refine ⟨hhosts, hcs, fun cs h => ?_⟩
  obtain ⟨hall, hany, -⟩ := passes_reordered inn 1 hhosts hcs [] innStart
  have hnone : ∀ c ∈ innConditions,
      (inn.verdict (inn.reentryWithin 1) innStart c).toOption.isSome := by decide +kernel
  have hunmixed : ¬ ((∃ c ∈ innConditions,
        inn.verdict (inn.reentryWithin 1) innStart c = .ok true) ∧
      ∃ c ∈ innConditions, ∃ failure,
        inn.verdict (inn.reentryWithin 1) innStart c = .error failure) := by
    rintro ⟨-, c, hc, failure, hfails⟩
    have hsome := hnone c hc
    rw [hfails] at hsome
    cases hsome
  obtain ⟨answer, hwritten, hanswer⟩ := hany.2 hunmixed cs h
  obtain ⟨answer', hwritten', hanswer'⟩ := hall cs h
  obtain rfl : true = answer := Except.ok.inj hwritten
  obtain rfl : false = answer' := Except.ok.inj hwritten'
  exact ⟨hanswer, hanswer'⟩

/-- Of a condition that holds and one that is not registered, the first one written decides. -/
theorem passes_behind_unregistered :
    inn.ConditionsChangeNothing (inn.reentryWithin 1) ∧
    (∀ c ∈ [("gold = 5" : Text), "_ghost = 1"], Clause.IsCondition c) ∧
    [("_ghost = 1" : Text), "gold = 5"].Perm ["gold = 5", "_ghost = 1"] ∧
    inn.decision (inn.reentryWithin 1) innStart
      (.ofConditions .ifAny ["gold = 5", "_ghost = 1"] []) = .ok true ∧
    inn.decision (inn.reentryWithin 1) innStart
      (.ofConditions .ifAny ["_ghost = 1", "gold = 5"] []) = .ok false :=
  ⟨conditionsChangeNothing_inn _, by decide, .swap _ _ _, rfl, rfl⟩

end Engine

end StoryScript
