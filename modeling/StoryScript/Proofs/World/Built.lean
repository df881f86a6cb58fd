import StoryScript.Proofs.Block.Objects
import StoryScript.Proofs.Engine.Containment
import StoryScript.Proofs.Store.Amounts
import StoryScript.World

/-!
# Engines that are built from worlds

An engine that a world is built to has constant conditions and placeholders and no action but the
one that changes flags (`World.ofWorld_of_build`). Main statement: if its fragments are texts, its
flags numbers and its settings the standard ones, resolving a text returns, unless what a block asks
of the flags is no text and no map or meets an integer too large for a floating-point number
(`World.resolve_of_build`).
-/

namespace StoryScript

open Run

variable {σ : Type}

/-- An engine at which only a world has registered something. -/
structure Engine.OfWorld (e : Engine σ) : Prop where
  condition : ∀ {name getter}, e.conditions.get? name = some getter →
    ∃ v, getter = World.constant v
  placeholder : ∀ {name getter}, e.placeholders.get? name = some getter →
    ∃ v, getter = World.constant v
  actions : e.actions = [(World.flagAction, .plain ActionEntry.changeFlags)]
  tags : ∀ memory, e.tags memory = e.settings.tags

namespace Engine.OfWorld

variable {e : Engine σ} {re : Reentry σ} {holds : State σ → Prop}
  {fails : Failure → State σ → Prop}

theorem keeps_condition (h : e.OfWorld) {name : Text} {getter : Getter σ}
    (hgetter : e.conditions.get? name = some getter) (arguments : List Text) :
    Keeps holds fails ((getter arguments).run re) := by
  obtain ⟨v, rfl⟩ := h.condition hgetter
  exact keeps_pure v

theorem keeps_placeholder (h : e.OfWorld) {name : Text} {getter : Getter σ}
    (hgetter : e.placeholders.get? name = some getter) (arguments : List Text) :
    Keeps holds fails ((getter arguments).run re) := by
  obtain ⟨v, rfl⟩ := h.placeholder hgetter
  exact keeps_pure v

end Engine.OfWorld

theorem Engine.eq_of_registerCondition {e e' : Engine σ} {name : Text} {getter : Getter σ}
    (h : (e.registerCondition name getter).map Prod.fst = .ok e') :
    e' = { e with conditions := e.conditions.insert name getter } := by
  unfold registerCondition at h
  split at h
  · cases h
    rfl
  · cases h

namespace World

variable {repair : Repair}

theorem ofWorld_registerPlaceholders {e : Engine σ} (h : e.OfWorld)
    (placeholders : Table Text Value) : (registerPlaceholders e placeholders).OfWorld := by
  induction placeholders generalizing e with
  | nil => exact h
  | cons p placeholders ih =>
    refine ih (e := (e.registerPlaceholder p.1 (constant p.2)).1) ⟨h.condition, ?_, h.actions, h.tags⟩
    intro name getter hgetter
    rcases Table.eq_or_of_get?_insert hgetter with rfl | hgetter
    · exact ⟨p.2, rfl⟩
    · exact h.placeholder hgetter

theorem ofWorld_registerConditions {e e' : Engine σ} (h : e.OfWorld)
    {conditions : Table Text Value} (hregister : registerConditions e conditions = .ok e') :
    e'.OfWorld := by
  induction conditions generalizing e with
  | nil =>
    obtain rfl := Except.ok.inj hregister
    exact h
  | cons p conditions ih =>
    obtain ⟨e₁, he₁, hrest⟩ := exists_of_bind_eq_ok hregister
    refine ih ?_ hrest
    obtain rfl := Engine.eq_of_registerCondition he₁
    refine ⟨fun {name getter} hgetter => ?_, h.placeholder, h.actions, h.tags⟩
    rcases Table.eq_or_of_get?_insert hgetter with rfl | hgetter
    · exact ⟨p.2, rfl⟩
    · exact h.condition hgetter

/-- What is built knows the action that changes flags, and then what the world registers. -/
theorem exists_of_build {world : Table Text Value} {e : Engine σ} {store : FlagStore}
    (h : build repair world = .ok (e, store)) :
    ∃ settings sigil library placeholders conditions,
      registerConditions (registerPlaceholders
        { settings := settings, sigil := sigil, repair := repair, fragments := some library,
          conditions := [], placeholders := [],
          actions := [(flagAction, .plain ActionEntry.changeFlags)], callbacks := [] }
        placeholders) conditions = .ok e := by
  obtain ⟨store', -, h⟩ := exists_of_bind_eq_ok h
  obtain ⟨library, -, h⟩ := exists_of_bind_eq_ok h
  obtain ⟨settings, -, h⟩ := exists_of_bind_eq_ok h
  obtain ⟨e₀, he₀, h⟩ := exists_of_bind_eq_ok h
  obtain ⟨placeholders, -, h⟩ := exists_of_bind_eq_ok h
  obtain ⟨conditions, -, h⟩ := exists_of_bind_eq_ok h
  obtain ⟨e₁, he₁, h⟩ := exists_of_bind_eq_ok h
  obtain ⟨rfl, rfl⟩ := Prod.mk.inj (Except.ok.inj h)
  unfold Engine.create at he₀
  split at he₀
  · cases he₀
    exact ⟨_, _, library, placeholders, conditions, he₁⟩
  · cases he₀

theorem ofWorld_of_build {world : Table Text Value} {e : Engine σ} {store : FlagStore}
    (h : build repair world = .ok (e, store)) : e.OfWorld := by
  obtain ⟨settings, sigil, library, placeholders, conditions, he⟩ := exists_of_build h
  refine ofWorld_registerConditions (ofWorld_registerPlaceholders ?_ placeholders) he
  exact ⟨nofun, nofun, rfl, fun _ => rfl⟩

theorem callbacks_registerPlaceholders (e : Engine σ) (placeholders : Table Text Value) :
    (registerPlaceholders e placeholders).callbacks = e.callbacks := by
  induction placeholders generalizing e with
  | nil => rfl
  | cons p placeholders ih => exact ih (e.registerPlaceholder p.1 (constant p.2)).1

theorem callbacks_registerConditions {e e' : Engine σ} {conditions : Table Text Value}
    (h : registerConditions e conditions = .ok e') : e'.callbacks = e.callbacks := by
  induction conditions generalizing e with
  | nil =>
    cases h
    rfl
  | cons p conditions ih =>
    obtain ⟨e₁, he₁, hrest⟩ := exists_of_bind_eq_ok h
    rw [ih hrest, Engine.eq_of_registerCondition he₁]

/-- Nothing listens at an engine that a world is built to. -/
theorem callbacks_of_build {world : Table Text Value} {e : Engine σ} {store : FlagStore}
    (h : build repair world = .ok (e, store)) : e.callbacks = [] := by
  obtain ⟨settings, sigil, library, placeholders, conditions, he⟩ := exists_of_build h
  rw [callbacks_registerConditions he, callbacks_registerPlaceholders]

/-! ## What resolving a text does to the flags -/

/-- Whether a flag action that was run has met something that stops the flags of a state. -/
def FlagActionFailed (failure : Failure) (s : State σ) : Prop :=
  ∃ payload, .actionRun flagAction payload ∈ s.notices ∧ s.flags.StopsAt payload failure

theorem keeps_flagAction (re : Reentry σ) (payload : Value) :
    Keeps (fun s => s.flags.Numeric) FlagActionFailed (do
      notify (.actionRun flagAction payload)
      (ActionEntry.changeFlags payload).run re) := by
  intro s hs
  obtain ⟨hnumeric, hfails⟩ := FlagStore.apply_of_numeric hs payload
  have hrun : Run.on (do
        notify (.actionRun flagAction payload)
        (ActionEntry.changeFlags payload).run re) s =
      ((s.flags.apply payload).failure.elim (.ok ()) .error,
        { s with
          flags := (s.flags.apply payload).store
          notices := s.notices ++ [.actionRun flagAction payload] ++
            (s.flags.apply payload).notices }) := by
    show (applyFlags payload >>= fun _ => pure ()).on
      { s with notices := s.notices ++ [.actionRun flagAction payload] } = _
    rw [on_bind, on_applyFlags]
    cases (s.flags.apply payload).failure <;> rfl
  rw [hrun]
  refine ⟨hnumeric, fun failure hfailure => ⟨payload, by simp, hfails failure ?_⟩⟩
  cases hstops : (s.flags.apply payload).failure with
  | none => rw [hstops] at hfailure; cases hfailure
  | some failure' =>
    rw [hstops] at hfailure
    obtain rfl := Except.error.inj hfailure
    rfl

theorem upholds_numeric {e : Engine σ} (h : e.OfWorld) (re : Reentry σ) (dryRun : Bool) :
    e.Upholds re dryRun (fun _ s => s.flags.Numeric) fun failure s =>
      dryRun = false ∧ FlagActionFailed failure s where
  notices hs _ := hs
  enters hs := hs
  leaves hs := hs
  failsOutside := id
  condition hgetter arguments := h.keeps_condition hgetter arguments
  placeholder hgetter arguments := h.keeps_placeholder hgetter arguments
  action hreal {d name action} haction payload := by
    rw [h.actions, Table.get?] at haction
    split at haction
    · next hname =>
      subst hname
      obtain rfl := Option.some.inj haction
      intro s hs
      obtain ⟨hnumeric, hfails⟩ := keeps_flagAction re payload s hs
      exact ⟨hnumeric, fun failure hfailure => ⟨hreal, hfails failure hfailure⟩⟩
    · cases haction

/-- Resolving a text as a world is built to returns, whatever is written in it, unless a flag action
is run that fails. It does so where its payload is no text and no map, and at an integer too large
for a floating-point number. -/
theorem resolve_of_build {world : Table Text Value} {e : Engine σ} {store : FlagStore}
    (hbuild : build repair world = .ok (e, store)) (hsettings : e.settings = .standard)
    (hfragments : ∀ library, e.fragments = some library →
      ∀ container ∈ library, ∀ fragment ∈ container.2, fragment.2.isText)
    (hflags : ∀ container ∈ store.containers, ∀ flag ∈ container.2, flag.2.isNumber) (memory : σ)
    (t : Text) (dryRun : Bool) :
    (∃ r, ((e.resolve e.reentry t dryRun).on (start store memory)).1 = .ok r) ∨
      dryRun = false ∧
        ∃ failure, ((e.resolve e.reentry t dryRun).on (start store memory)).1 = .error failure ∧
          FlagActionFailed failure ((e.resolve e.reentry t dryRun).on (start store memory)).2 := by
  have hplain : e.Plain := by
    have htags (memory : σ) : e.tags memory = Settings.standard.tags := by
      rw [(ofWorld_of_build hbuild).tags, hsettings]
    refine ⟨⟨8, by rw [hsettings]; rfl⟩, hfragments, fun memory => ?_, fun memory => ?_⟩
    · rw [htags]
      decide
    · rw [htags]
      decide
  have hupholds := upholds_numeric (ofWorld_of_build hbuild) e.reentry dryRun
  have hkeeps := hupholds.keeps_resolution hplain
    (e.keepsDepth_reentryWithin Engine.reentryLimit) (d := 0) t
  have hfails := (hkeeps (start store memory) (FlagStore.numeric_of_containers hflags)).2
  rw [Engine.on_resolve_of_listeners_eq_nil dryRun t rfl]
  generalize (e.resolveWithin e.reentry dryRun (Engine.levels e.settings + 1) t).on
    (start store memory) = out at hfails ⊢
  obtain ⟨failure | r, s⟩ := out
  · obtain ⟨hreal, hstops⟩ := hfails failure rfl
    exact .inr ⟨hreal, failure, rfl, hstops⟩
  · exact .inl ⟨_, rfl⟩

/-- A world with a greeting that names a customer. -/
def tavern : Table Text Value :=
  [("current", .text "tavern"),
    ("flags", .map [("tavern", .map [("gold", .int 20)])]),
    ("fragments", .map [("tavern", .map [("$greeting", .text "Barkeep: Welcome, |name|!")])]),
    ("placeholders", .map [("name", .text "Aria")])]

def tavernEngine : Engine Unit where
  settings := .standard
  sigil := "_"
  repair := id
  fragments := some [(.text "tavern", [(.text "$greeting", .text "Barkeep: Welcome, |name|!")])]
  conditions := []
  placeholders := [("name", constant (.text "Aria"))]
  actions := [(flagAction, .plain ActionEntry.changeFlags)]
  callbacks := []

def tavernStore : FlagStore := ⟨.text "tavern", [(.text "tavern", [(.text "gold", .int 20)])]⟩

def tavernText : Text := "|$greeting|\x7b\"flag\": \"gold<5\"\x7d"

theorem resolve_tavernText :
    build id tavern = .ok (tavernEngine, tavernStore) ∧
      (∀ container ∈ tavernStore.containers, ∀ flag ∈ container.2, flag.2.isNumber) ∧
      (∃ r, ((tavernEngine.resolve tavernEngine.reentry tavernText false).on
        (start tavernStore ())).1 = .ok r) ∧
      ((tavernEngine.resolve tavernEngine.reentry tavernText false).on
        (start tavernStore ())).1.toOption.map Resolution.output =
          some "Welcome, Aria!".toList := by
  have hbuild : build id tavern = .ok (tavernEngine, tavernStore) := rfl
  have hfragments : ∀ library, tavernEngine.fragments = some library →
      ∀ container ∈ library, ∀ fragment ∈ container.2, fragment.2.isText := by
    intro library hlibrary
    obtain rfl := Option.some.inj hlibrary
    decide
  have hflags : ∀ container ∈ tavernStore.containers, ∀ flag ∈ container.2, flag.2.isNumber := by
    decide
  refine ⟨hbuild, hflags, ?_, by decide +kernel⟩
  rcases resolve_of_build hbuild rfl hfragments hflags () tavernText false with
    hreturns | ⟨-, failure, hfailure, -⟩
  · exact hreturns
  · have hsome : ((tavernEngine.resolve tavernEngine.reentry tavernText false).on
        (start tavernStore ())).1.toOption.isSome := by decide +kernel
    rw [hfailure] at hsome
    cases hsome

def flagNumberText : Text := "\x7b\"flag\": 5\x7d"

def largeFlagText : Text :=
  "\x7b\"flag\": \x7b\"gold\": 1" ++ List.replicate 309 '0' ++ "\x7d\x7d"

/-- Flags are not changed by a number, and none becomes an integer of 310 digits: in both cases the
action fails, and the resolution of the text with it. -/
theorem resolve_flag_fails :
    ∃ (e : Engine Unit) (store : FlagStore), build id [] = .ok (e, store) ∧
      (∀ r, ((e.resolve e.reentry flagNumberText false).on (start store ())).1 ≠ .ok r) ∧
      ∀ r, ((e.resolve e.reentry largeFlagText false).on (start store ())).1 ≠ .ok r := by
  refine ⟨_, _, rfl, fun r hr => ?_, fun r hr => ?_⟩
  · have hsome : Option.isSome _ = true := congrArg (fun x => x.toOption.isSome) hr
    revert hsome
    decide +kernel
  · have hsome : Option.isSome _ = true := congrArg (fun x => x.toOption.isSome) hr
    revert hsome
    decide +kernel

end World

end StoryScript
