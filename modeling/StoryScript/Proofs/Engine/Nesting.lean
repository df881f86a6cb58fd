import StoryScript.Proofs.Engine.Invariant

/-!
# How deep templates nest

Every run of an engine ends as deep inside templates as it began, failed or not, also where hosts
call the engine again (`Engine.keepsDepth_resolve`). At the limit templates are left as they are
(`Engine.on_templatePass_of_le`), so two ways of resolving fragments that agree below the limit come
to the same (`Engine.agreeAt_resolveOver`). Main statement: the recursion of a resolution ends, is
never deeper than the limit, and leaves no trace in the depth (`Engine.resolve_nests_within_limit`).
-/

namespace StoryScript

open Run

variable {σ α β : Type}

namespace Run

/-- Two runs that do the same at a depth of templates. -/
def AgreeAt (d : Nat) (x y : Run σ α) : Prop := ∀ s : State σ, s.depth = d → x.on s = y.on s

theorem AgreeAt.refl (d : Nat) (x : Run σ α) : AgreeAt d x x := fun _ _ => rfl

theorem AgreeAt.bind {d : Nat} {x y : Run σ α} {f g : α → Run σ β} (h : AgreeAt d x y)
    (hdepth : KeepsDepth x) (hfg : ∀ a, AgreeAt d (f a) (g a)) :
    AgreeAt d (x >>= f) (y >>= g) := by
  intro s hs
  have hdepth' := hdepth s
  rw [on_bind, on_bind, ← h s hs]
  generalize x.on s = out at hdepth'
  obtain ⟨failure | a, s'⟩ := out
  · rfl
  · exact hfg a s' (hdepth'.trans hs)

theorem AgreeAt.getState_bind {d : Nat} {f g : State σ → Run σ β}
    (h : ∀ s, AgreeAt d (f s) (g s)) : AgreeAt d (getState >>= f) (getState >>= g) :=
  fun s hs => h s s hs

theorem AgreeAt.deeper {d : Nat} {x y : Run σ α} (h : AgreeAt (d + 1) x y) :
    AgreeAt d (deeper x) (deeper y) := by
  intro s hs
  rw [on_deeper, on_deeper, h { s with depth := s.depth + 1 } (congrArg (· + 1) hs)]

end Run

namespace Engine

variable (e : Engine σ) (re : Reentry σ) (dryRun : Bool)

/-! ## The depth after a run -/

variable {re} in
theorem upholds_depth (hre : re.KeepsDepth) :
    e.Upholds re dryRun (fun d s => s.depth = d) fun _ _ => True where
  notices h _ := h
  enters h := congrArg (· + 1) h
  leaves h := congrArg (· - 1) h
  failsOutside _ := trivial
  condition _ _ := (HostProgram.keepsDepth_run hre _).keeps _
  placeholder _ _ := (HostProgram.keepsDepth_run hre _).keeps _
  action _ _ _ _ _ _ :=
    ((keepsDepth_notify _).bind fun _ => HostProgram.keepsDepth_run hre _).keeps _

variable {re} in
theorem keepsDepth_resolveWithin (hre : re.KeepsDepth) (levels : Nat) (t : Text) :
    KeepsDepth (e.resolveWithin re dryRun levels t) :=
  keepsDepth_of_keeps fun _ =>
    (e.upholds_depth dryRun hre).keeps_resolveWithin e.allows_all (fun _ => trivial) levels t

variable {re} in
theorem keepsDepth_trigger (hre : re.KeepsDepth) (name : Text) (arguments : List Value) :
    KeepsDepth (e.trigger re name arguments) := by
  have hcallbacks (names : List Text) : KeepsDepth (e.runCallbacks re arguments names) := by
    induction names with
    | nil => exact fun _ => rfl
    | cons name names ih =>
      rw [runCallbacks]
      cases e.callbacks.get? name with
      | none => exact ih
      | some callback =>
        apply (HostProgram.keepsDepth_run hre _).bind
        intro propagation
        cases propagation with
        | goOn => exact ih
        | stop => exact fun _ => rfl
  exact fun s => hcallbacks _ s

variable {re} in
theorem keepsDepth_resolve (hre : re.KeepsDepth) (t : Text) :
    KeepsDepth (e.resolve re t dryRun) := by
  apply (e.keepsDepth_trigger hre _ _).bind
  intro goesOn
  cases goesOn with
  | false => exact fun _ => rfl
  | true =>
    apply (e.keepsDepth_resolveWithin dryRun hre _ t).bind
    intro r
    cases r.redirected <;> exact fun _ => rfl

/-- Hosts that call the engine again find it as deep as they left it. -/
theorem keepsDepth_reentryWithin (reentries : Nat) : (e.reentryWithin reentries).KeepsDepth := by
  induction reentries with
  | zero => exact ⟨fun _ _ => rfl, fun _ _ _ => rfl⟩
  | succ reentries ih => exact ⟨e.keepsDepth_resolve false ih, e.keepsDepth_trigger ih⟩

/-! ## At the limit -/

/-- The reports on the references of cuts that are all met at the limit. -/
def tooDeep (limit : Int) (cuts : List Cut) : List Notice :=
  cuts.filterMap fun
    | .plain _ => none
    | .span inner => some (.templateTooDeep ('$' :: inner) limit)

variable {e} {m : Int} (hm : e.settings.maxTemplateDepth = .int m)

include hm in
theorem on_substituteTemplate_of_le (nested : Text → Run σ Resolution) (reference : Text)
    {s : State σ} (h : m ≤ s.depth) :
    (e.substituteTemplate nested reference).on s =
      (.ok none, { s with notices := s.notices ++ [.templateTooDeep reference m] }) := by
  have hreaches : reaches s.depth e.settings.maxTemplateDepth = .ok true := by
    rw [hm, reaches, decide_eq_true h]
  show Run.on (do
    if ← Run.ofExcept (reaches s.depth e.settings.maxTemplateDepth) then _ else _) s = _
  rw [hreaches, hm]
  rfl

include hm in
/-- Every reference that is met at the limit stays as it is written, however fragments would be
resolved. -/
theorem on_templatePass_of_le (nested : Text → Run σ Resolution) {s : State σ} (h : m ≤ s.depth)
    (output : Text) (found : ActionMap) (cuts : List Cut) :
    (e.templatePass nested output found cuts).on s =
      (.ok (.text (output ++ cuts.flatMap templateMarks.writtenCut) found),
        { s with notices := s.notices ++ tooDeep m cuts }) := by
  induction cuts generalizing output s with
  | nil => simp [templatePass, tooDeep, on_pure]
  | cons cut cuts ih =>
    cases cut with
    | plain t =>
      rw [templatePass, ih h]
      simp [Delimiter.writtenCut, tooDeep]
    | span inner =>
      rw [templatePass, on_bind, on_substituteTemplate_of_le hm nested _ h]
      have hrest (ns : List Notice) :=
        ih (s := { s with notices := ns }) h (output ++ templateMarks.written inner)
      exact (hrest _).trans (by simp [Delimiter.writtenCut, tooDeep])

/-! ## Below the limit -/

variable {re}

omit hm in
theorem agreeAt_substituteTemplate {nested nested' : Text → Run σ Resolution} {d : Nat}
    (hdepth : ∀ t, KeepsDepth (nested t)) (h : ∀ t, AgreeAt (d + 1) (nested t) (nested' t))
    (reference : Text) :
    AgreeAt d (e.substituteTemplate nested reference) (e.substituteTemplate nested' reference) := by
  apply AgreeAt.getState_bind
  intro s
  refine (AgreeAt.refl d _).bind (fun _ => rfl) fun tooDeep => ?_
  cases tooDeep with
  | true => exact .refl d _
  | false =>
    cases e.loadFragment s.flags.current reference with
    | error failure => exact .refl d _
    | ok fragment =>
      cases fragment with
      | text t => exact (h t).deeper.bind (hdepth t).deeper fun _ => .refl d _
      | _ => exact .refl d _

include hm in
theorem agreeAt_templatePass (hre : re.KeepsDepth) {nested nested' : Text → Run σ Resolution}
    (hdepth : ∀ t, KeepsDepth (nested t)) {d : Nat}
    (h : (d : Int) < m → ∀ t, AgreeAt (d + 1) (nested t) (nested' t)) (output : Text)
    (found : ActionMap) (cuts : List Cut) :
    AgreeAt d (e.templatePass nested output found cuts)
      (e.templatePass nested' output found cuts) := by
  by_cases hd : (d : Int) < m
  · induction cuts generalizing output found with
    | nil => exact .refl d _
    | cons cut cuts ih =>
      cases cut with
      | plain t => exact ih _ _
      | span inner =>
        refine (agreeAt_substituteTemplate hdepth (h hd) _).bind ?_ fun substitute => ?_
        · have hupholds := e.upholds_depth false hre
          exact keepsDepth_of_keeps fun _ =>
            hupholds.keeps_substituteTemplate e.allows_all (fun t => (hdepth t).keeps _) _
        · cases substitute with
          | none => exact ih _ _
          | some r =>
            cases hr : r.redirected with
            | true => simp only [hr, if_true]; exact .refl d _
            | false => simp only [hr]; exact ih _ _
  · intro s hs
    have hlimit : m ≤ s.depth := by omega
    rw [on_templatePass_of_le hm nested hlimit, on_templatePass_of_le hm nested' hlimit]

include hm in
theorem agreeAt_resolveOver (hre : re.KeepsDepth) {nested nested' : Text → Run σ Resolution}
    (hdepth : ∀ t, KeepsDepth (nested t)) {d : Nat}
    (h : (d : Int) < m → ∀ t, AgreeAt (d + 1) (nested t) (nested' t)) (t : Text) :
    AgreeAt d (e.resolveOver re dryRun nested t) (e.resolveOver re dryRun nested' t) := by
  have hupholds := e.upholds_depth dryRun hre
  have hrendered := keepsDepth_of_keeps fun _ => hupholds.keeps_rendered t
  refine (AgreeAt.refl d _).bind hrendered fun u => ?_
  refine (agreeAt_templatePass hm hre hdepth h _ _ _).bind ?_ fun substitution => .refl d _
  exact keepsDepth_of_keeps fun _ =>
    hupholds.keeps_templatePass e.allows_all (fun t => (hdepth t).keeps _) _ _ _

/-! ## Resolutions -/

variable (e re)

/-- Resolves fragments in one way where the depth is within a limit and in another where it is
not. -/
def capped (limit : Nat) (other nested : Text → Run σ Resolution) (t : Text) : Run σ Resolution :=
  Run.ofFunction fun s => if s.depth ≤ limit then (nested t).on s else (other t).on s

theorem on_capped (limit : Nat) (other nested : Text → Run σ Resolution) (t : Text) (s : State σ) :
    (capped limit other nested t).on s =
      if s.depth ≤ limit then (nested t).on s else (other t).on s :=
  rfl

/-- A number of levels of a resolution. Another way of resolving is taken below the last of them,
and wherever the depth is not within a limit. -/
def resolveCapped (limit : Nat) (other : Text → Run σ Resolution) :
    (levels : Nat) → Text → Run σ Resolution
  | 0 => other
  | levels + 1 => e.resolveOver re dryRun (capped limit other (resolveCapped limit other levels))

/-- The state after a sequence of calls, each of an engine and with its outcome let go. -/
def afterCalls (reentries : Nat) (calls : List (Engine σ × Text × Bool)) (s : State σ) : State σ :=
  calls.foldl
    (fun s (e, t, dryRun) => ((e.resolve (e.reentryWithin reentries) t dryRun).on s).2) s

variable {e re}

include hm in
theorem agreeAt_resolveCapped (hre : re.KeepsDepth) (other : Text → Run σ Resolution)
    {levels levels' d : Nat} (hpos : 0 < levels) (hpos' : 0 < levels') (h : m < d + levels)
    (h' : m < d + levels') (t : Text) :
    AgreeAt d (e.resolveWithin re dryRun levels t)
      (e.resolveCapped re dryRun m.toNat other levels' t) := by
  induction levels generalizing levels' d t with
  | zero => contradiction
  | succ levels ih =>
    obtain ⟨levels', rfl⟩ : ∃ n, levels' = n + 1 := ⟨levels' - 1, by omega⟩
    rw [resolveWithin_succ]
    apply agreeAt_resolveOver dryRun hm hre (e.keepsDepth_resolveWithin dryRun hre levels)
    intro hd u s hs
    have hwithin : s.depth ≤ m.toNat := by omega
    have hnested : (e.resolveWithin re dryRun levels u).on s =
        (e.resolveCapped re dryRun m.toNat other levels' u).on s :=
      ih (by omega) (by omega) (by omega) (by omega) u s hs
    rw [on_capped, if_pos hwithin, hnested]

include hm in
theorem on_resolveCapped (hre : re.KeepsDepth) (other : Text → Run σ Resolution) {levels : Nat}
    (h : m.toNat < levels) (t : Text) (s : State σ) :
    (e.resolveCapped re dryRun m.toNat other levels t).on s =
      (e.resolveWithin re dryRun (Engine.levels e.settings + 1) t).on s := by
  have hlevels : Engine.levels e.settings = m.toNat + 1 := by rw [Engine.levels, hm]; rfl
  exact (agreeAt_resolveCapped dryRun hm hre other (by omega) (by omega) (by omega) (by omega)
    t s rfl).symm

/-- Templates nest no deeper than the limit, and leave no trace. The recursion of a resolution ends:
of more levels than the limit none is reached below the limit, nor is any at a greater depth, so
that what is resolved there in whatever other way does not matter. A text whose references are met
at the limit stays as it is. And whether a call returns or fails, the depth is then as before it,
also after any sequence of calls. -/
theorem resolve_nests_within_limit (e : Engine σ) {m : Int}
    (hm : e.settings.maxTemplateDepth = .int m) (reentries : Nat) (dryRun : Bool) :
    (∀ (other : Text → Run σ Resolution) (n : Nat), m.toNat < n → ∀ t s,
      (e.resolveCapped (e.reentryWithin reentries) dryRun m.toNat other n t).on s =
        (e.resolveWithin (e.reentryWithin reentries) dryRun (levels e.settings + 1) t).on s) ∧
    (∀ nested t (s : State σ), m ≤ s.depth →
      (e.templatePass nested [] .empty (templateMarks.cut t)).on s =
        (.ok (.text t .empty),
          { s with notices := s.notices ++ tooDeep m (templateMarks.cut t) })) ∧
    (∀ t s, ((e.resolve (e.reentryWithin reentries) t dryRun).on s).2.depth = s.depth) ∧
    ∀ calls (s : State σ), (afterCalls reentries calls s).depth = s.depth := by
  refine ⟨fun other n hn t s => ?_, fun nested t s hs => ?_, fun t => ?_, fun calls => ?_⟩
  · exact on_resolveCapped dryRun hm (e.keepsDepth_reentryWithin reentries) other hn t s
  · rw [on_templatePass_of_le hm nested hs, Delimiter.written_cut _ (by decide)]
    rfl
  · exact e.keepsDepth_resolve dryRun (e.keepsDepth_reentryWithin reentries) t
  · induction calls with
    | nil => exact fun _ => rfl
    | cons call calls ih =>
      obtain ⟨e, t, dryRun⟩ := call
      intro s
      exact (ih _).trans (e.keepsDepth_resolve dryRun (e.keepsDepth_reentryWithin reentries) t s)

/-- An engine with two fragments that refer to each other, followed two levels deep. -/
def echoing : Engine Unit where
  settings := { Settings.standard with maxTemplateDepth := .int 2 }
  sigil := "_"
  repair := id
  fragments := some [(.text "main",
    [(.text "$ping", .text "ping |$pong|"), (.text "$pong", .text "pong |$ping|")])]
  conditions := []
  placeholders := []
  actions := []
  callbacks := []

def echoingStart : State Unit := ⟨default, [], none, 0, [], ()⟩

/-- The third reference is met at the limit, and nothing goes wrong that would go wrong behind
it. -/
theorem resolve_echoing :
    echoing.settings.maxTemplateDepth = .int 2 ∧
      (((echoing.resolveCapped (echoing.reentryWithin 0) false 2
        (fun _ => .ofExcept (.error .exhausted)) 3 "|$ping|").on echoingStart).1.toOption.map
          Resolution.output) = some "ping pong |$ping|".toList ∧
      ((echoing.resolve (echoing.reentryWithin 0) "|$ping|" false).on
        echoingStart).2.depth = 0 := by
  obtain ⟨hcapped, -, hdepth, -⟩ := resolve_nests_within_limit echoing (m := 2) rfl 0 false
  refine ⟨rfl, ?_, hdepth _ _⟩
  have hrun := hcapped (fun _ => .ofExcept (.error .exhausted)) 3 (by decide) "|$ping|" echoingStart
  rw [show (2 : Int).toNat = 2 from rfl] at hrun
  rw [hrun]
  decide +kernel

end Engine

end StoryScript
