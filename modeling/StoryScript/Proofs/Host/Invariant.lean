import StoryScript.Host.Run

/-!
# What runs keep of the state

A run keeps a property of states if it leads from states with the property to states with it,
however it ends, and fails only in a way that is allowed in the state it fails in (`Run.Keeps`).
Main statements: sequences of runs keep what each run of them keeps (`Run.Keeps.bind`), an attempt
and a run one template deeper keep what their inside keeps (`Run.Keeps.attempt`,
`Run.Keeps.deeper`), and a program of the host keeps the depth of templates if what it may ask for
does (`HostProgram.keepsDepth_run`).
-/

namespace StoryScript

variable {σ α β : Type}

namespace Run

def Keeps (holds : State σ → Prop) (fails : Failure → State σ → Prop) (x : Run σ α) : Prop :=
  ∀ s, holds s → holds (x.on s).2 ∧
    ∀ failure, (x.on s).1 = .error failure → fails failure (x.on s).2

theorem on_getState_bind (f : State σ → Run σ β) (s : State σ) :
    (getState >>= f).on s = (f s).on s := rfl

theorem exists_of_on_bind_eq_ok {x : Run σ α} {f : α → Run σ β} {s s' : State σ} {b : β}
    (h : (x >>= f).on s = (.ok b, s')) :
    ∃ a s₁, x.on s = (.ok a, s₁) ∧ (f a).on s₁ = (.ok b, s') := by
  rw [on_bind] at h
  generalize x.on s = out at h
  obtain ⟨failure | a, s₁⟩ := out
  · cases h
  · exact ⟨a, s₁, rfl, h⟩

theorem exists_eq_ok_of_map {x : Run σ α} {s : State σ} {f : α → β} {b : β}
    (h : (x.on s).1.toOption.map f = some b) : ∃ a s', x.on s = (.ok a, s') ∧ f a = b := by
  generalize x.on s = out at h
  obtain ⟨failure | a, s'⟩ := out
  · cases h
  · exact ⟨a, s', rfl, Option.some.inj h⟩

variable {holds : State σ → Prop} {fails : Failure → State σ → Prop}

theorem keeps_pure (a : α) : Keeps holds fails (pure a : Run σ α) :=
  fun _ hs => ⟨hs, fun _ h => nomatch h⟩

theorem keeps_ofExcept {x : Except Failure α}
    (h : ∀ failure s, x = .error failure → fails failure s) :
    Keeps holds fails (ofExcept x : Run σ α) :=
  fun s hs => ⟨hs, fun failure hfailure => h failure s hfailure⟩

theorem keeps_change {f : State σ → State σ} (h : ∀ s, holds s → holds (f s)) :
    Keeps holds fails (change f) :=
  fun s hs => ⟨h s hs, fun _ h => nomatch h⟩

/-- A run that goes on with the state as it is. -/
theorem keeps_getState_bind {f : State σ → Run σ β}
    (h : ∀ s, holds s → holds ((f s).on s).2 ∧
      ∀ failure, ((f s).on s).1 = .error failure → fails failure ((f s).on s).2) :
    Keeps holds fails (getState >>= f) :=
  h

theorem Keeps.bind {x : Run σ α} {f : α → Run σ β} (hx : Keeps holds fails x)
    (hf : ∀ a, Keeps holds fails (f a)) : Keeps holds fails (x >>= f) := by
  intro s hs
  obtain ⟨hholds, hfails⟩ := hx s hs
  rw [on_bind]
  generalize x.on s = out at hholds hfails
  obtain ⟨failure | a, s'⟩ := out
  · refine ⟨hholds, fun failure' h => ?_⟩
    cases h
    exact hfails failure rfl
  · exact hf a s' hholds

/-- A failure of what is attempted goes no further, so any is allowed there. -/
theorem Keeps.attempt {fails' : Failure → State σ → Prop} {x : Run σ α}
    (hx : Keeps holds fails' x) : Keeps holds fails (attempt x) :=
  fun s hs => ⟨(hx s hs).1, fun _ h => nomatch h⟩

theorem Keeps.deeper {inside : State σ → Prop} {x : Run σ α} (hx : Keeps inside fails x)
    (henter : ∀ s, holds s → inside { s with depth := s.depth + 1 })
    (hleave : ∀ s, inside s → holds { s with depth := s.depth - 1 })
    (hfails : ∀ failure s, fails failure s → fails failure { s with depth := s.depth - 1 }) :
    Keeps holds fails (deeper x) := by
  intro s hs
  obtain ⟨hinside, hfailed⟩ := hx _ (henter s hs)
  rw [on_deeper]
  exact ⟨hleave _ hinside, fun failure h => hfails failure _ (hfailed failure h)⟩

theorem Keeps.weaken {fails' : Failure → State σ → Prop} {x : Run σ α}
    (hx : Keeps holds fails x) (h : ∀ failure s, fails failure s → fails' failure s) :
    Keeps holds fails' x :=
  fun s hs => ⟨(hx s hs).1, fun failure hfailure => h failure _ ((hx s hs).2 failure hfailure)⟩

/-- A run that ends as deep inside templates as it began. -/
def KeepsDepth (x : Run σ α) : Prop := ∀ s, (x.on s).2.depth = s.depth

theorem KeepsDepth.keeps {x : Run σ α} (h : KeepsDepth x) (d : Nat) :
    Keeps (fun s => s.depth = d) (fun _ _ => True) x :=
  fun s hs => ⟨(h s).trans hs, fun _ _ => trivial⟩

theorem keepsDepth_of_keeps {x : Run σ α}
    (h : ∀ d, Keeps (fun s => s.depth = d) (fun _ _ => True) x) : KeepsDepth x :=
  fun s => (h s.depth s rfl).1

theorem keepsDepth_notify (n : Notice) : KeepsDepth (notify n : Run σ Unit) := fun _ => rfl

theorem KeepsDepth.bind {x : Run σ α} {f : α → Run σ β} (hx : KeepsDepth x)
    (hf : ∀ a, KeepsDepth (f a)) : KeepsDepth (x >>= f) :=
  keepsDepth_of_keeps fun d => (hx.keeps d).bind fun a => (hf a).keeps d

theorem KeepsDepth.deeper {x : Run σ α} (h : KeepsDepth x) : KeepsDepth (deeper x) := by
  intro s
  rw [on_deeper, h]
  rfl

theorem on_applyFlags (data : Value) (s : State σ) :
    (applyFlags data).on s =
      ((s.flags.apply data).failure.elim (.ok ()) .error,
        { s with
          flags := (s.flags.apply data).store
          notices := s.notices ++ (s.flags.apply data).notices }) := by
  unfold applyFlags ofFunction on
  dsimp only [ExceptT.run, ExceptT.mk, StateT.run]
  cases (s.flags.apply data).failure <;> rfl

theorem keepsDepth_applyFlags (data : Value) : KeepsDepth (applyFlags data : Run σ Unit) := by
  intro s
  rw [on_applyFlags]

end Run

structure Reentry.KeepsDepth (re : Reentry σ) : Prop where
  resolve : ∀ t, (re.resolve t).KeepsDepth
  trigger : ∀ name arguments, (re.trigger name arguments).KeepsDepth

theorem HostProgram.keepsDepth_run {re : Reentry σ} (hre : re.KeepsDepth) (p : HostProgram σ α) :
    (p.run re).KeepsDepth := by
  induction p with
  | done | fail => exact fun _ => rfl
  | readMemory next ih | readFlag _ next ih => exact fun s => ih _ s
  | writeMemory memory next ih => exact fun s => ih { s with memory := memory }
  | listen name callback next ih => exact fun s => ih { s with bus := s.bus.on name callback }
  | unlisten name callback next ih => exact fun s => ih { s with bus := s.bus.off name callback }
  | applyFlags data next ih => exact (Run.keepsDepth_applyFlags data).bind fun _ => ih
  | resolve t next ih => exact (hre.resolve t).bind ih
  | trigger name arguments next ih => exact (hre.trigger name arguments).bind ih

end StoryScript
