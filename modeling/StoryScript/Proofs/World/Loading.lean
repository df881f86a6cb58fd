import StoryScript.CommandLine.Run
import StoryScript.Proofs.Block.Objects

/-!
# Loading worlds

What is wrong with the file of a world is either told to the user or ends the program. Which of the
two it is depends on the bytes of the file alone: what is wrong with its JSON is told, unless an
integer is too long, and so is a condition that is misnamed, but a member of the wrong shape is not
(`World.handles_load`). Main statement: a command runs with the world of its file or tells what is
wrong with it, unless the bytes are not `World.Usable`, and then it crashes
(`Command.run_of_worldFile`).
-/

namespace StoryScript

variable {σ α β : Type}

theorem textOfFile_toUTF8 (s : String) : textOfFile s.toUTF8 = .ok (Lines.unify s.toList) := by
  have h : String.fromUTF8? s.toUTF8 = some s := dif_pos s.isValidUTF8
  rw [textOfFile, h]

/-- A computation that fails exactly if a condition does not hold, with a failure that is not told
to the user. -/
def Requires (P : Prop) (x : Except Failure α) : Prop :=
  (P ∧ ∃ a, x = .ok a) ∨ (¬ P ∧ ∃ failure, x = .error failure ∧ Command.isTold failure = false)

namespace Requires

variable {P Q : Prop} {x : Except Failure α}

theorem ok (h : P) (a : α) : Requires P (.ok a) := .inl ⟨h, a, rfl⟩

theorem error {failure : Failure} (h : ¬ P) (hfailure : Command.isTold failure = false) :
    Requires P (.error failure : Except Failure α) :=
  .inr ⟨h, failure, rfl, hfailure⟩

theorem congr (h : Requires P x) (hiff : P ↔ Q) : Requires Q x := propext hiff ▸ h

theorem bind (hx : Requires P x) {f : α → Except Failure β}
    (hf : ∀ a, x = .ok a → Requires Q (f a)) : Requires (P ∧ Q) (x >>= f) := by
  rcases hx with ⟨hP, a, rfl⟩ | ⟨hP, failure, rfl, hfailure⟩
  · rcases hf a rfl with ⟨hQ, hreturns⟩ | ⟨hQ, hcrashes⟩
    · exact .inl ⟨⟨hP, hQ⟩, hreturns⟩
    · exact .inr ⟨fun h => hQ h.2, hcrashes⟩
  · exact .error (fun h => hP h.1) hfailure

theorem map (hx : Requires P x) (f : α → β) : Requires P (x >>= fun a => .ok (f a)) :=
  (hx.bind fun a _ => ok trivial (f a)).congr (iff_of_eq (and_true P))

theorem foldlM {q : α → Prop} {f : β → α → Except Failure β}
    (hf : ∀ b a, Requires (q a) (f b a)) (l : List α) (b : β) :
    Requires (∀ a ∈ l, q a) (l.foldlM f b) := by
  induction l generalizing b with
  | nil => exact ok (List.forall_mem_nil q) b
  | cons a l ih => exact ((hf b a).bind fun b' _ => ih b').congr List.forall_mem_cons.symm

theorem mapM {q : α → Prop} {f : α → Except Failure β} (hf : ∀ a, Requires (q a) (f a))
    (l : List α) : Requires (∀ a ∈ l, q a) (l.mapM f) := by
  induction l with
  | nil => exact ok (List.forall_mem_nil q) []
  | cons a l ih =>
    rw [List.mapM_cons]
    exact ((hf a).bind fun b _ => ih.map (b :: ·)).congr List.forall_mem_cons.symm

end Requires

/-- A computation that, if a condition holds, returns or fails with a failure that is told to the
user, and otherwise fails with one that is not. -/
def Handles (P : Prop) (x : Except Failure α) : Prop :=
  (P ∧ ((∃ a, x = .ok a) ∨ ∃ failure, x = .error failure ∧ Command.isTold failure)) ∨
    (¬ P ∧ ∃ failure, x = .error failure ∧ Command.isTold failure = false)

variable {P Q : Prop} {x : Except Failure α}

theorem Handles.congr (h : Handles P x) (hiff : P ↔ Q) : Handles Q x := propext hiff ▸ h

theorem Handles.map (h : Handles P x) (f : α → β) : Handles P (x >>= fun a => .ok (f a)) := by
  rcases h with ⟨hP, ⟨a, rfl⟩ | ⟨failure, rfl, htold⟩⟩ | ⟨hP, failure, rfl, htold⟩
  · exact .inl ⟨hP, .inl ⟨f a, rfl⟩⟩
  · exact .inl ⟨hP, .inr ⟨failure, rfl, htold⟩⟩
  · exact .inr ⟨hP, failure, rfl, htold⟩

theorem Requires.bind_handles (hx : Requires P x) {f : α → Except Failure β}
    (hf : ∀ a, x = .ok a → Handles Q (f a)) : Handles (P ∧ Q) (x >>= f) := by
  rcases hx with ⟨hP, a, rfl⟩ | ⟨hP, failure, rfl, hfailure⟩
  · rcases hf a rfl with ⟨hQ, hhandles⟩ | ⟨hQ, hcrashes⟩
    · exact .inl ⟨⟨hP, hQ⟩, hhandles⟩
    · exact .inr ⟨fun h => hQ h.2, hcrashes⟩
  · exact .inr ⟨fun h => hP h.1, failure, rfl, hfailure⟩

namespace World

theorem read_toUTF8 (path : Text) (s : String) :
    read path s.toUTF8 = readText path (Lines.unify s.toList) := by
  rw [read, textOfFile_toUTF8]
  rfl

/-! ## Shapes -/

/-- A pair as entries are made of: a list of two, whose first can be a name, or a text or a map of
two. -/
inductive IsPair : Value → Prop
  | list {k v : Value} {key : Key} (h : k.toKey? = some key) : IsPair (.list [k, v])
  | text (k v : Char) : IsPair (.text [k, v])
  | map (k v : Text × Value) : IsPair (.map [k, v])

/-- A value that entries can be read of: a map, a list of pairs or an empty text. -/
inductive HoldsEntries : Value → Prop
  | map (entries : List (Text × Value)) : HoldsEntries (.map entries)
  | list {items : List Value} (h : ∀ item ∈ items, IsPair item) : HoldsEntries (.list items)
  | nothing : HoldsEntries (.text [])

/-- A map of values that entries can be read of. -/
inductive HoldsContainers : Value → Prop
  | map {containers : Table Text Value} (h : ∀ c ∈ containers, HoldsEntries c.2) :
    HoldsContainers (.map containers)

/-- A map in which a sigil is a text if there is one. -/
inductive HoldsSettings : Value → Prop
  | map {settings : Table Text Value}
    (h : ∀ sigil, settings.get? "condition_sigil" = some sigil → sigil.isText) :
    HoldsSettings (.map settings)

inductive IsMap : Value → Prop
  | map (entries : Table Text Value) : IsMap (.map entries)

/-- A world whose members have the shapes that they are read as. Nothing is read of flags and
fragments that count as false. -/
structure WellShaped (world : Table Text Value) : Prop where
  current : ∀ v, world.get? "current" = some v → ∃ key, v.toKey? = some key
  flags : ∀ v, world.get? "flags" = some v → v.isTrue → HoldsContainers v
  fragments : ∀ v, world.get? "fragments" = some v → v.isTrue → HoldsContainers v
  settings : ∀ v, world.get? "settings" = some v → HoldsSettings v
  placeholders : ∀ v, world.get? "placeholders" = some v → IsMap v
  conditions : ∀ v, world.get? "conditions" = some v → IsMap v

/-! ## Reading members -/

theorem requires_pairOf (v : Value) : Requires (IsPair v) (pairOf v) := by
  unfold pairOf
  split
  · next k v =>
    unfold pairOf.pair
    cases hkey : k.toKey? with
    | some key => exact .ok (.list hkey) _
    | none =>
      refine .error (fun h => ?_) rfl
      cases h with
      | list h => rw [hkey] at h; cases h
  · next k v => exact .ok (.text k v) _
  · next k x v y => exact .ok (.map (k, x) (v, y)) _
  · next _ items hlist =>
    exact .error (fun h => by cases h with | list => exact hlist _ _ rfl) rfl
  · next _ t htext =>
    exact .error (fun h => by cases h with | text => exact htext _ _ rfl) rfl
  · next _ entries hmap =>
    exact .error (fun h => by cases h with | map => exact hmap _ _ _ _ rfl) rfl
  · next _ hlist htext hmap _ _ _ =>
    refine .error (fun h => ?_) rfl
    cases h with
    | list => exact hlist _ _ rfl
    | text => exact htext _ _ rfl
    | map => exact hmap _ _ _ _ rfl

theorem requires_entriesOf (v : Value) : Requires (HoldsEntries v) (entriesOf v) := by
  cases v with
  | map entries => exact .ok (.map entries) _
  | list items =>
    refine (Requires.mapM requires_pairOf items).congr ⟨.list, fun h => ?_⟩
    cases h with
    | list h => exact h
  | text t =>
    cases t with
    | nil => exact .ok .nothing _
    | cons => exact .error nofun rfl
  | _ => exact .error nofun rfl

theorem requires_membersOf (v : Value) : Requires (IsMap v) (membersOf v) := by
  cases v with
  | map entries => exact .ok (.map entries) _
  | _ => exact .error nofun rfl

theorem requires_members (world : Table Text Value) (name : Text) :
    Requires (∀ v, world.get? name = some v → IsMap v) (members world name) := by
  unfold members
  cases hget : world.get? name with
  | none => exact .ok nofun _
  | some v => exact (requires_membersOf v).congr (by simp)

/-- Going through the members of a map that may be left out, each of which has to hold entries. -/
theorem requires_containers (world : Table Text Value) (name : Text)
    {f : Table Text Value → Except Failure β}
    (hf : ∀ containers, Requires (∀ c ∈ containers, HoldsEntries c.2) (f containers)) :
    Requires (∀ v, world.get? name = some v → v.isTrue → HoldsContainers v)
      (optionalMembers world name >>= f) := by
  have hnothing : ∃ b, f [] = .ok b := by
    rcases hf [] with ⟨-, hreturns⟩ | ⟨hnone, -⟩
    · exact hreturns
    · exact absurd (List.forall_mem_nil _) hnone
  obtain ⟨b, hb⟩ := hnothing
  unfold optionalMembers
  cases hget : world.get? name with
  | none => exact .inl ⟨nofun, b, hb⟩
  | some v =>
    by_cases htrue : v.isTrue
    · simp only [htrue, if_true, Option.some.injEq, forall_eq', forall_const]
      cases v with
      | map containers =>
        refine (hf containers).congr ⟨.map, fun h => ?_⟩
        cases h with
        | map h => exact h
      | _ => exact .error nofun rfl
    · simp only [htrue]
      exact .inl ⟨by simp [htrue], b, hb⟩

theorem requires_currentOf (world : Table Text Value) :
    Requires (∀ v, world.get? "current" = some v → ∃ key, v.toKey? = some key)
      (currentOf world) := by
  unfold currentOf
  cases hget : world.get? "current" with
  | none => exact .ok nofun _
  | some v =>
    simp only [Option.getD_some, Option.some.injEq, forall_eq']
    cases hkey : v.toKey? with
    | some key => exact .ok ⟨key, rfl⟩ _
    | none => exact .error (fun ⟨_, h⟩ => Option.some_ne_none _ h.symm) rfl

theorem requires_flags (world : Table Text Value) :
    Requires ((∀ v, world.get? "current" = some v → ∃ key, v.toKey? = some key) ∧
      ∀ v, world.get? "flags" = some v → v.isTrue → HoldsContainers v) (flags world) := by
  unfold flags
  refine (requires_currentOf world).bind fun current _ => ?_
  rw [← bind_assoc]
  exact (requires_containers world "flags"
    (Requires.mapM fun c => (requires_entriesOf c.2).map _)).map _

theorem requires_fragments (world : Table Text Value) :
    Requires (∀ v, world.get? "fragments" = some v → v.isTrue → HoldsContainers v)
      (fragments world) := by
  unfold fragments
  exact requires_containers world "fragments" fun containers =>
    Requires.foldlM (fun _ c => (requires_entriesOf c.2).map _) containers []

theorem requires_settings (repair : Repair) (world : Table Text Value) (library : FragmentLibrary) :
    Requires (∀ v, world.get? "settings" = some v → HoldsSettings v)
      (members world "settings" >>= fun settings =>
        (Engine.create (Settings.ofEntries settings) repair (some library) :
          Except Failure (Engine σ))) := by
  unfold members
  cases hget : world.get? "settings" with
  | none => exact .ok nofun _
  | some v =>
    simp only [Option.some.injEq, forall_eq']
    cases v with
    | map settings =>
      show Requires _ (Engine.create (Settings.ofEntries settings) repair (some library))
      have hsigil : (Settings.ofEntries settings).conditionSigil =
          (Table.get? settings "condition_sigil").getD (.text "_") := rfl
      unfold Engine.create
      rw [hsigil]
      cases hgiven : Table.get? settings "condition_sigil" with
      | none =>
        refine .ok (.map fun sigil hsigil => ?_) _
        rw [hgiven] at hsigil
        cases hsigil
      | some sigil =>
        cases sigil with
        | text t =>
          refine .ok (.map fun sigil hsigil => ?_) _
          rw [hgiven] at hsigil
          cases hsigil
          rfl
        | _ =>
          refine .error (fun h => ?_) rfl
          cases h with
          | map h => cases h _ hgiven
    | _ => exact .error nofun rfl

/-! ## Building -/

/-- A condition that is misnamed is told. -/
theorem handles_registerConditions (e : Engine σ) (conditions : Table Text Value) :
    Handles True (registerConditions e conditions) := by
  induction conditions generalizing e with
  | nil => exact .inl ⟨trivial, .inl ⟨e, rfl⟩⟩
  | cons p conditions ih =>
    rw [registerConditions, List.foldlM_cons]
    cases hregister : e.registerCondition p.1 (constant p.2) with
    | ok registered => exact ih registered.1
    | error failure =>
      refine .inl ⟨trivial, .inr ⟨failure, rfl, ?_⟩⟩
      unfold Engine.registerCondition at hregister
      split at hregister <;> cases hregister
      rfl

/-- Building fails with something that is not told exactly if a member has a wrong shape. -/
theorem handles_build (repair : Repair) (world : Table Text Value) :
    Handles (WellShaped world) (build repair world : Except Failure (Engine σ × FlagStore)) := by
  unfold build
  refine Handles.congr (P := _ ∧ _ ∧ _ ∧ _ ∧ _ ∧ True) ((requires_flags world).bind_handles
    fun store _ => (requires_fragments world).bind_handles fun library _ => ?_)
    ⟨fun ⟨⟨hcurrent, hflags⟩, hfragments, hsettings, hplaceholders, hconditions, _⟩ =>
      ⟨hcurrent, hflags, hfragments, hsettings, hplaceholders, hconditions⟩,
    fun h => ⟨⟨h.current, h.flags⟩, h.fragments, h.settings, h.placeholders, h.conditions,
      trivial⟩⟩
  rw [← bind_assoc]
  exact (requires_settings repair world library).bind_handles fun e _ =>
    (requires_members world "placeholders").bind_handles fun placeholders _ =>
      (requires_members world "conditions").bind_handles fun conditions _ =>
        (handles_registerConditions _ _).map _

/-- What comes of reading JSON for which there is a world or something to tell: any problem but the
length of an integer, a value that is no object, or a world whose members have the right shape. -/
inductive UsableJson : Except Json.Error Value → Prop
  | invalid {e : Json.Error} (h : e.problem ≠ .integerTooLong) : UsableJson (.error e)
  | notAnObject {v : Value} (h : ¬ IsMap v) : UsableJson (.ok v)
  | object {world : Table Text Value} (h : WellShaped world) : UsableJson (.ok (.map world))

/-- Bytes of a file that are a text for whose JSON there is a world or something to tell. -/
def Usable (bytes : ByteArray) : Prop := ∃ t, textOfFile bytes = .ok t ∧ UsableJson (Json.parse t)

theorem handles_loadText (repair : Repair) (path t : Text) :
    Handles (UsableJson (Json.parse t))
      ((readText path t).bind (build repair) : Except Failure (Engine σ × FlagStore)) := by
  unfold readText
  cases Json.parse t with
  | error e =>
    by_cases he : e.problem = .integerTooLong
    · simp only [he, if_true]
      refine .inr ⟨fun h => ?_, _, rfl, rfl⟩
      cases h with
      | invalid h => exact h he
    · simp only [he, if_false]
      exact .inl ⟨.invalid he, .inr ⟨_, rfl, rfl⟩⟩
  | ok v =>
    cases v with
    | map world =>
      refine (handles_build repair world).congr ⟨.object, fun h => ?_⟩
      cases h with
      | notAnObject h => exact absurd (.map world) h
      | object h => exact h
    | _ => exact .inl ⟨.notAnObject nofun, .inr ⟨_, rfl, rfl⟩⟩

/-- Loading a file fails with something that is not told exactly if its bytes are not usable. -/
theorem handles_load (repair : Repair) (path : Text) (bytes : ByteArray) :
    Handles (Usable bytes)
      ((read path bytes).bind (build repair) : Except Failure (Engine σ × FlagStore)) := by
  unfold read Usable
  cases htext : textOfFile bytes with
  | error failure =>
    unfold textOfFile at htext
    split at htext
    · cases htext
    · cases htext
      exact .inr ⟨by simp, _, rfl, rfl⟩
  | ok t => exact (handles_loadText repair path t).congr (by simp)

end World

namespace Command

section WorldFile

variable (repair : Repair) (files : Files) {c : Command} {path : Text} {bytes : ByteArray}

theorem worldOf_of_file (hworld : c.world = some path) (hbytes : files path = some bytes) :
    worldOf files c.world = some (World.read (normalPath path) bytes) := by
  rw [hworld, worldOf, hbytes]
  rfl

theorem run_eq_of_worldFile (hworld : c.world = some path) (hbytes : files path = some bytes)
    (hpaths : c.paths.all fun path => (files path).isSome) :
    c.run repair files =
      match ((World.read (normalPath path) bytes).bind (World.build repair) :
        Except Failure (Engine Unit × FlagStore)) with
      | .error failure =>
        if isTold failure then
          .finished 1 [] [] ("Error: " ++ failure.message ++ "\n")
        else .crashed failure
      | .ok (e, store) =>
        runTask files c.level e
          { World.start store () with notices := [World.report e store] } c.task := by
  rw [run, worldOf_of_file files hworld hbytes]
  exact if_pos hpaths

/-- What a command does with a file that is given as its world. If another file that it names is
missing, it is misused. Otherwise, if the bytes of the file are usable, it runs its task on the
engine that is built of them, or says why there is none and exits with one; and if they are not, it
crashes. -/
theorem run_of_worldFile (hworld : c.world = some path) (hbytes : files path = some bytes) :
    ((∃ other ∈ c.paths, files other = none) ∧ c.run repair files = .misused) ∨
    (World.Usable bytes ∧
      ((∃ e store, (World.read (normalPath path) bytes).bind (World.build repair) = .ok (e, store) ∧
          c.run repair files = runTask files c.level e
            { World.start store () with notices := [World.report e store] } c.task) ∨
        ∃ failure, (World.read (normalPath path) bytes).bind (World.build repair) =
            (.error failure : Except Failure (Engine Unit × FlagStore)) ∧
          isTold failure ∧ c.run repair files =
            .finished 1 [] [] ("Error: " ++ failure.message ++ "\n"))) ∨
    (¬ World.Usable bytes ∧
      ∃ failure, isTold failure = false ∧ c.run repair files = .crashed failure) := by
  by_cases hpaths : c.paths.all fun path => (files path).isSome
  · have hrun := run_eq_of_worldFile repair files hworld hbytes hpaths
    rcases World.handles_load repair (normalPath path) bytes with
      ⟨husable, ⟨⟨e, store⟩, hok⟩ | ⟨failure, herror, htold⟩⟩ | ⟨husable, failure, herror, htold⟩
    · exact .inr (.inl ⟨husable, .inl ⟨e, store, hok, by rw [hrun, hok]⟩⟩)
    · refine .inr (.inl ⟨husable, .inr ⟨failure, herror, htold, ?_⟩⟩)
      rw [hrun, herror]
      simp only [htold, if_true]
    · refine .inr (.inr ⟨husable, failure, htold, ?_⟩)
      rw [hrun, herror]
      simp [htold]
  · refine .inl ⟨by simpa using hpaths, ?_⟩
    rw [run, worldOf_of_file files hworld hbytes]
    exact if_neg hpaths

end WorldFile

def tavernJson : String :=
  "\x7b\"flags\": \x7b\"main\": [[\"gold\", 20]]\x7d, \"conditions\": \x7b\"_night\": true\x7d\x7d"

def nullJson : String := "\x7b\"placeholders\": null\x7d"

/-- A world, one whose placeholders are missing, and one that is no text. -/
def worldFiles : Files := fun path =>
  if path = ("tavern.json" : Text) then some tavernJson.toUTF8
  else if path = ("null.json" : Text) then some nullJson.toUTF8
  else if path = ("torn.json" : Text) then some ⟨#[0xff]⟩
  else none

/-- Asks for the gold in a world. -/
def goldIn (world : Text) : Command := ⟨.warning, some world, .evaluate "gold>10, _night" false⟩

def tavernWorld : Table Text Value :=
  [("flags", .map [("main", .list [.list [.text "gold", .int 20]])]),
    ("conditions", .map [("_night", .bool true)])]

theorem parse_tavernJson :
    Json.parse (Lines.unify tavernJson.toList) = .ok (.map tavernWorld) := by decide +kernel

theorem usable_tavernJson : World.Usable tavernJson.toUTF8 := by
  refine ⟨_, textOfFile_toUTF8 tavernJson, ?_⟩
  rw [parse_tavernJson]
  refine .object ⟨nofun, ?_, nofun, nofun, nofun, ?_⟩
  · intro v hv _
    cases hv
    exact .map (List.forall_mem_singleton.2 (.list (List.forall_mem_singleton.2 (.list rfl))))
  · intro v hv
    cases hv
    exact .map _

theorem run_goldIn_tavern :
    World.Usable tavernJson.toUTF8 ∧
    ∃ e store, (World.read (normalPath "tavern.json") tavernJson.toUTF8).bind (World.build id) =
        .ok (e, store) ∧
      (goldIn "tavern.json").run id worldFiles = runTask worldFiles .warning e
        { World.start store () with notices := [World.report e store] }
        (.evaluate "gold>10, _night" false) := by
  refine ⟨usable_tavernJson, ?_⟩
  have hbytes : worldFiles "tavern.json" = some tavernJson.toUTF8 := rfl
  rcases run_of_worldFile id worldFiles (c := goldIn "tavern.json") rfl hbytes with
    ⟨⟨other, hother, hnone⟩, -⟩ | ⟨-, hruns | ⟨failure, herror, -, -⟩⟩ | ⟨husable, -⟩
  · cases List.mem_singleton.1 hother
    cases hnone
  · exact hruns
  · have hbuilt : (World.build id tavernWorld : Except Failure (Engine Unit × FlagStore)).isOk := by
      decide +kernel
    rw [World.read_toUTF8, World.readText, parse_tavernJson] at herror
    rw [show World.build id tavernWorld = .error failure from herror] at hbuilt
    cases hbuilt
  · exact absurd usable_tavernJson husable

/-- A file that is no text crashes the program, and so does one with `null` for its placeholders. -/
theorem run_goldIn_crashes :
    (goldIn "torn.json").run id worldFiles = .crashed .undecodable ∧
      (goldIn "null.json").run id worldFiles = .crashed .notAMap := by
  constructor
  · have hbytes : worldFiles "torn.json" = some ⟨#[0xff]⟩ := rfl
    have hinvalid : ¬ (ByteArray.mk #[0xff]).IsValidUTF8 := fun h =>
      absurd (h.isUTF8FirstByte_getElem_zero (by decide)) (by decide)
    rw [run_eq_of_worldFile id worldFiles (c := goldIn "torn.json") rfl hbytes rfl, World.read,
      textOfFile, String.fromUTF8?, dif_neg hinvalid]
    rfl
  · have hbytes : worldFiles "null.json" = some nullJson.toUTF8 := rfl
    have hjson : Json.parse (Lines.unify nullJson.toList) =
        .ok (.map [("placeholders", .null)]) := by decide +kernel
    rw [run_eq_of_worldFile id worldFiles (c := goldIn "null.json") rfl hbytes rfl,
      World.read_toUTF8, World.readText, hjson]
    rfl

end Command

end StoryScript
