import StoryScript.Host.Run

/-!
# Runs that report nothing of note

A calm run reports at the lowest level only, leaves flags and memory of a kind as it found them, of
that kind, and answers as it should or fails in a way that is allowed. Calmness is kept by binds
(`Run.Calm.bind`), and a run that never fails is calm as an attempt (`Run.Calm.attempt`). A quiet
program of the host reports nothing at all and does not fail (`HostProgram.Quiet`).
-/

namespace StoryScript

variable {σ α β : Type}

/-- A state whose reports are those of another and then some of the lowest level. -/
def State.LogsDebug (s s' : State σ) : Prop :=
  ∃ logged, s'.notices = s.notices ++ logged ∧ ∀ n ∈ logged, n.level = .debug

namespace State.LogsDebug

theorem of_eq {s s' : State σ} (h : s'.notices = s.notices) : s.LogsDebug s' :=
  ⟨[], by simpa using h, by simp⟩

theorem trans {s s' s'' : State σ} (h : s.LogsDebug s') (h' : s'.LogsDebug s'') :
    s.LogsDebug s'' := by
  obtain ⟨logged, hnotices, hdebug⟩ := h
  obtain ⟨logged', hnotices', hdebug'⟩ := h'
  refine ⟨logged ++ logged', by rw [hnotices', hnotices, List.append_assoc], fun n hn => ?_⟩
  rcases List.mem_append.1 hn with hn | hn
  · exact hdebug n hn
  · exact hdebug' n hn

end State.LogsDebug

namespace Run

/-- What a calm run may end in: a good answer and flags and memory of a kind, or a failure of those
that are allowed. -/
inductive Ends (kept : FlagStore → σ → Prop) (fails : Failure → Prop) (good : α → Prop) :
    Except Failure α × State σ → Prop where
  | ok {a : α} {s : State σ} (hgood : good a) (hkept : kept s.flags s.memory) :
    Ends kept fails good (.ok a, s)
  | error {failure : Failure} {s : State σ} (hfails : fails failure) :
    Ends kept fails good (.error failure, s)

def Calm (kept : FlagStore → σ → Prop) (fails : Failure → Prop) (good : α → Prop)
    (x : Run σ α) : Prop :=
  ∀ s : State σ, kept s.flags s.memory → Ends kept fails good (x.on s) ∧ s.LogsDebug (x.on s).2

variable {kept : FlagStore → σ → Prop} {fails : Failure → Prop} {good : α → Prop}

theorem calm_pure {a : α} (h : good a) : Calm kept fails good (pure a : Run σ α) :=
  fun _ hs => ⟨.ok h hs, .of_eq rfl⟩

theorem calm_ofExcept_ok (a : α) :
    Calm kept fails (fun b => b = a) (ofExcept (.ok a) : Run σ α) :=
  fun _ hs => ⟨.ok rfl hs, .of_eq rfl⟩

theorem calm_ofExcept {x : Except Failure α} (h : ∀ failure, x = .error failure → fails failure) :
    Calm kept fails (fun _ => True) (ofExcept x : Run σ α) := by
  intro s hs
  cases x with
  | ok a => exact ⟨.ok trivial hs, .of_eq rfl⟩
  | error failure => exact ⟨.error (h failure rfl), .of_eq rfl⟩

theorem calm_notify {n : Notice} (h : n.level = .debug) :
    Calm kept fails (fun _ => True) (notify n) := by
  intro s hs
  exact ⟨.ok trivial hs, [n], rfl, by simpa using h⟩

theorem calm_readFlag {flag : Text} {good : Value → Prop}
    (h : ∀ flags memory, kept flags memory → good (flags.get flag)) :
    Calm kept fails good (readFlag flag) :=
  fun s hs => ⟨.ok (h s.flags s.memory hs) hs, .of_eq rfl⟩

theorem calm_getState : Calm kept fails (fun _ => True) (getState : Run σ (State σ)) :=
  fun _ hs => ⟨.ok trivial hs, .of_eq rfl⟩

theorem calm_notifyAll_nil : Calm kept fails (fun _ => True) (notifyAll ([] : List Notice)) :=
  fun _ hs => ⟨.ok trivial hs, .of_eq (List.append_nil _)⟩

/-- Calm runs one after another, of which the second may start from more states. -/
theorem Calm.bind_on {kept' : FlagStore → σ → Prop} {good' : β → Prop} {x : Run σ α}
    {f : α → Run σ β} (hx : Calm kept fails good x) (himp : ∀ {fs m}, kept fs m → kept' fs m)
    (hf : ∀ a, good a → Calm kept' fails good' (f a)) {s : State σ}
    (hs : kept s.flags s.memory) :
    Ends kept' fails good' ((x >>= f).on s) ∧ s.LogsDebug ((x >>= f).on s).2 := by
  obtain ⟨hends, hlogs⟩ := hx s hs
  rw [on_bind]
  generalize x.on s = out at hends hlogs
  cases hends with
  | @ok a s' hgood hkept =>
    obtain ⟨hends', hlogs'⟩ := hf a hgood s' (himp hkept)
    exact ⟨hends', hlogs.trans hlogs'⟩
  | error hfails => exact ⟨.error hfails, hlogs⟩

theorem Calm.bind {good' : β → Prop} {x : Run σ α} {f : α → Run σ β}
    (hx : Calm kept fails good x) (hf : ∀ a, good a → Calm kept fails good' (f a)) :
    Calm kept fails good' (x >>= f) :=
  fun _ hs => hx.bind_on id hf hs

/-- A calm run that never fails answers with what it answers as an attempt. -/
theorem Calm.attempt {x : Run σ α} (hx : Calm kept (fun _ => False) good x) :
    Calm kept fails (fun answer => ∃ a, answer = .ok a ∧ good a) (attempt x) := by
  intro s hs
  obtain ⟨hends, hlogs⟩ := hx s hs
  rw [on_attempt]
  generalize x.on s = out at hends hlogs
  cases hends with
  | ok hgood hkept => exact ⟨.ok ⟨_, rfl, hgood⟩ hkept, hlogs⟩
  | error hfails => exact hfails.elim

end Run

namespace HostProgram

/-- A program that, from flags and memory of a kind, neither fails nor reports anything, answers
well and leaves flags and memory of that kind. -/
def Quiet (re : Reentry σ) (kept : FlagStore → σ → Prop) (good : α → Prop)
    (p : HostProgram σ α) : Prop :=
  ∀ s : State σ, kept s.flags s.memory →
    ∃ a s', (p.run re).on s = (.ok a, s') ∧ good a ∧ kept s'.flags s'.memory ∧
      s'.notices = s.notices

theorem Quiet.calm {re : Reentry σ} {kept : FlagStore → σ → Prop} {fails : Failure → Prop}
    {good : α → Prop} {p : HostProgram σ α} (h : p.Quiet re kept good) :
    Run.Calm kept fails good (p.run re) := by
  intro s hs
  obtain ⟨a, s', hrun, hgood, hkept, hnotices⟩ := h s hs
  rw [hrun]
  exact ⟨.ok hgood hkept, .of_eq hnotices⟩

end HostProgram

end StoryScript
