import Mathlib.Data.List.DropRight
import StoryScript.Proofs.Number.Literals
import StoryScript.Proofs.Store.Operations
import StoryScript.Proofs.Text.Cuts

/-!
# Flags as a map of integers

A ledger is a map from places, which are pairs of a container and a name, to integers, and knows the
current container (`Ledger`). Authors edit flags by integers, and by texts that list changes with
integer literals (`WrittenChange`). Main statements: each edit of a store that a ledger describes
makes it one that the edited ledger describes, with nothing to report (`Ledger.Describes.perform`);
and after all edits a flag reads as what the ledger has at its place (`FlagStore.get_after_edits`).
-/

namespace StoryScript

open FlagStore (Change Operation)

/-! ## Written changes -/

def FlagStore.Change.Kind.sign : Change.Kind → Char
  | .assign => '='
  | .increase => '>'
  | .decrease => '<'

/-- A change as authors write it: a flag and an integer with a sign between them, where blanks may
stand around both. -/
structure WrittenChange where
  before : Text
  kind : Change.Kind
  after : Text
  literal : IntegerLiteral
  flag_ne_nil : before.trim ≠ []
  not_mem_before : ∀ c ∈ ['=', '>', '<', ','], c ∉ before
  trim_after : after.trim = literal.written
  exact : ∃ x : Binary64, x.toInt? = some literal.value

namespace WrittenChange

variable (c : WrittenChange)

def flag : Text := c.before.trim

def written : Text := c.before ++ c.kind.sign :: c.after

/-- The change that is read from a written one. -/
def change : Change := ⟨c.flag, c.kind, .text c.literal.written⟩

theorem not_mem_after {d : Char} (hd : d ∈ ['=', '>', '<', ',']) : d ∉ c.after := by
  have hd' : d = '=' ∨ d = '>' ∨ d = '<' ∨ d = ',' := by simpa using hd
  obtain ⟨hblank, hdigit, hsign⟩ :
      Blank.isBlank d = false ∧ Digit.isDigit d = false ∧ d ∉ ['+', '-', '_'] := by
    obtain rfl | rfl | rfl | rfl := hd' <;> decide
  intro hmem
  have hwritten : d ∈ c.literal.written := c.trim_after ▸ Text.mem_trim hblank hmem
  rcases c.literal.mem_written hwritten with h | h
  · exact Bool.false_ne_true (hdigit.symm.trans h)
  · exact hsign h

theorem comma_not_mem_written : ',' ∉ c.written := by
  intro hmem
  rcases List.mem_append.1 hmem with h | h
  · exact c.not_mem_before ',' (by simp) h
  · rcases List.mem_cons.1 h with h | h
    · cases hkind : c.kind <;> rw [hkind] at h <;> cases h
    · exact c.not_mem_after (by simp) h

theorem isBlank_sign : Blank.isBlank c.kind.sign = false := by
  cases c.kind <;> decide

theorem trim_written : c.written.trim = c.before.trimLeft ++ c.kind.sign :: c.after.trimRight :=
  Text.trim_append_cons c.before c.isBlank_sign c.after

/-- Only the sign of a written change is a sign. -/
theorem findSome?_signs : (Change.Kind.signs.findSome? fun s =>
    (Text.cut? s.1 c.written.trim).map fun p => (s.2, p)) =
      some (c.kind, c.before.trimLeft, c.after.trimRight) := by
  have hbefore {d : Char} (hd : d ∈ ['=', '>', '<', ',']) : d ∉ c.before.trimLeft :=
    fun h => c.not_mem_before d hd (Text.mem_of_mem_trimLeft h)
  have hafter {d : Char} (hd : d ∈ ['=', '>', '<', ',']) : d ∉ c.after.trimRight :=
    fun h => c.not_mem_after hd (Text.mem_of_mem_trimRight h)
  have hother {d : Char} (hd : d ∈ ['=', '>', '<', ',']) (hne : d ≠ c.kind.sign) :
      Text.cut? d c.written.trim = none := by
    refine Text.cut?_of_not_mem ?_
    rw [trim_written]
    simp [hbefore hd, hafter hd, hne]
  have hsign : Text.cut? c.kind.sign c.written.trim =
      some (c.before.trimLeft, c.after.trimRight) := by
    rw [trim_written]
    exact Text.cut?_append (hbefore (by cases c.kind <;> simp [Change.Kind.sign])) _
  cases hkind : c.kind with
  | assign =>
    rw [hkind] at hsign
    simp [Change.Kind.signs, show Text.cut? '=' _ = _ from hsign]
  | increase =>
    rw [hkind] at hsign hother
    have hequal := hother (d := '=') (by simp) (by decide)
    simp [Change.Kind.signs, hequal, show Text.cut? '>' _ = _ from hsign]
  | decrease =>
    rw [hkind] at hsign hother
    have hequal := hother (d := '=') (by simp) (by decide)
    have hgreater := hother (d := '>') (by simp) (by decide)
    simp [Change.Kind.signs, hequal, hgreater, show Text.cut? '<' _ = _ from hsign]

theorem ofPair_written : Change.ofPair c.written.trim = .ok c.change := by
  unfold Change.ofPair
  rw [findSome?_signs]
  have hflag : c.before.trimLeft.trim = c.flag := Text.trim_trimLeft c.before
  have hamount : c.after.trimRight.trim = c.literal.written :=
    (Text.trim_trimRight c.after).trans c.trim_after
  simp [hflag, hamount, c.flag_ne_nil, flag, change]

/-- A text that lists written changes is read as these. -/
theorem ofText_join (cs : List WrittenChange) :
    Change.ofText (Text.join [','] (cs.map written)) = cs.map fun c => .ok c.change := by
  have hcomma : ∀ t ∈ cs.map written, ',' ∉ t := by
    intro t ht
    obtain ⟨c, -, rfl⟩ := List.mem_map.1 ht
    exact c.comma_not_mem_written
  have hne (c : WrittenChange) : c.written.trim.isEmpty = false := by
    rw [trim_written]
    simp
  unfold Change.ofText
  rw [Text.fields_join hcomma]
  cases cs with
  | nil => rfl
  | cons c cs =>
    rw [if_neg (by simp), List.map_map, List.filter_eq_self.2, List.map_map]
    · exact List.map_congr_left fun c _ => c.ofPair_written
    · intro t ht
      obtain ⟨c, -, rfl⟩ := List.mem_map.1 ht
      simp [hne c]

theorem complaints_map (cs : List WrittenChange) :
    ((cs.map fun c => (.ok c.change : Except Notice Change)).filterMap fun read =>
      match read with | .error n => some n | .ok _ => none) = [] := by
  rw [List.filterMap_map]
  exact List.filterMap_eq_nil_iff.2 fun c _ => rfl

theorem changes_map (cs : List WrittenChange) :
    (cs.map fun c => (.ok c.change : Except Notice Change)).filterMap Except.toOption =
      cs.map change := by
  rw [List.filterMap_map]
  show cs.filterMap (fun c => some c.change) = _
  exact congrFun List.filterMap_eq_map' cs

end WrittenChange

/-! ## Ledgers -/

/-- What authors do to flags with integers. -/
inductive Edit where
  | set (flag : Text) (n : Int)
  | add (flag : Text) (n : Int)
  | apply (changes : List WrittenChange)
  | goTo (container : Key)

namespace Edit

def operation : Edit → Operation
  | .set flag n => .set flag (.int n)
  | .add flag n => .add flag (.int n)
  | .apply changes => .apply (.text (Text.join [','] (changes.map WrittenChange.written)))
  | .goTo container => .goTo container

/-- The flags that an edit names: one for each change. -/
def flags : Edit → List Text
  | .set flag _ | .add flag _ => [flag]
  | .apply changes => changes.map WrittenChange.flag
  | .goTo _ => []

theorem flags_operation (edit : Edit) : edit.operation.flags = edit.flags := by
  cases edit with
  | set flag n | add flag n | goTo container => rfl
  | apply changes =>
    show ((Change.ofText _).filterMap Except.toOption).map Change.flag = _
    rw [WrittenChange.ofText_join, WrittenChange.changes_map, List.map_map]
    rfl

end Edit

/-- Integers at places, each of which is a container and a name. -/
structure Ledger where
  current : Key
  entries : Table (Key × Key) Int

namespace Ledger

/-- The place of a flag: the container is the text before the last point, or the current one where
that is empty, and the name is the text behind. -/
def place (l : Ledger) (flag : Text) : Key × Key :=
  let container := (flag.rdropWhile (· ≠ '.')).dropLast
  let name := flag.rtakeWhile (· ≠ '.')
  (if container = [] then l.current else .text container, .text name)

def amountAt (l : Ledger) (place : Key × Key) : Int := (l.entries.get? place).getD 0

def record (l : Ledger) (flag : Text) (n : Int) : Ledger :=
  { l with entries := l.entries.insert (l.place flag) n }

def increase (l : Ledger) (flag : Text) (n : Int) : Ledger :=
  l.record flag (l.amountAt (l.place flag) + n)

def change (l : Ledger) (c : WrittenChange) : Ledger :=
  match c.kind with
  | .assign => l.record c.flag c.literal.value
  | .increase => l.increase c.flag c.literal.value
  | .decrease => l.increase c.flag (-c.literal.value)

def edit (l : Ledger) : Edit → Ledger
  | .set flag n => l.record flag n
  | .add flag n => l.increase flag n
  | .apply changes => changes.foldl change l
  | .goTo container => { l with current := container }

def after (l : Ledger) (edits : List Edit) : Ledger := edits.foldl edit l

/-- The ledger of integers by container. -/
def create (current : Key) (flags : Table Key (Table Key Int)) : Ledger :=
  ⟨current, Table.ofEntries (flags.flatMap Table.withKey)⟩

/-! ## What a ledger describes -/

/-- Whether a store holds just what a ledger says, at every place. -/
structure Describes (l : Ledger) (s : FlagStore) : Prop where
  current : l.current = s.current
  valueAt : ∀ place, s.valueAt place = .int (l.amountAt place)

theorem place_of_not_mem (l : Ledger) {flag : Text} (h : '.' ∉ flag) :
    l.place flag = (l.current, .text flag) := by
  have hall : ∀ c ∈ flag, decide (c ≠ '.') := by
    intro c hc
    simpa using fun heq : c = '.' => h (heq ▸ hc)
  unfold place
  rw [List.rdropWhile_eq_nil_iff.2 hall, List.rtakeWhile_eq_self_iff.2 hall]
  rfl

theorem place_append (l : Ledger) (container : Text) {name : Text} (h : '.' ∉ name) :
    l.place (container ++ '.' :: name) =
      (if container = [] then l.current else .text container, .text name) := by
  have hall : ∀ c ∈ name.reverse, decide (c ≠ '.') := by
    intro c hc
    simpa using fun heq : c = '.' => h (heq ▸ List.mem_reverse.1 hc)
  have hback : (container ++ '.' :: name).rdropWhile (· ≠ '.') = container ++ ['.'] := by
    rw [List.rdropWhile, List.reverse_append, List.reverse_cons, List.append_assoc,
      List.dropWhile_append_of_pos hall]
    simp
  have hfront : (container ++ '.' :: name).rtakeWhile (· ≠ '.') = name := by
    rw [List.rtakeWhile, List.reverse_append, List.reverse_cons, List.append_assoc,
      List.takeWhile_append_of_pos hall]
    simp
  unfold place
  rw [hback, hfront, List.dropLast_concat]

namespace Describes

variable {l : Ledger} {s : FlagStore}

theorem locate (h : l.Describes s) (flag : Text) : s.locate flag = l.place flag := by
  unfold FlagStore.locate
  by_cases hmem : '.' ∈ flag
  · obtain ⟨name, container, hflag, hname⟩ :=
      List.eq_append_cons_of_mem (List.mem_reverse.2 hmem)
    obtain rfl : flag = container.reverse ++ '.' :: name.reverse := by
      rw [← List.reverse_reverse flag, hflag]
      simp
    have hname : '.' ∉ name.reverse := fun h => hname (List.mem_reverse.1 h)
    rw [Text.cutLast?_append _ hname, place_append l _ hname, h.current]
    cases container.reverse <;> rfl
  · rw [Text.cutLast?_of_not_mem hmem, place_of_not_mem l hmem, h.current]

theorem get (h : l.Describes s) (flag : Text) : s.get flag = .int (l.amountAt (l.place flag)) := by
  rw [FlagStore.get, h.locate, h.valueAt]

theorem set (h : l.Describes s) (flag : Text) (n : Int) :
    (l.record flag n).Describes (s.set flag (.int n)) := by
  refine ⟨h.current, fun place => ?_⟩
  rw [FlagStore.set, h.locate]
  by_cases hplace : l.place flag = place
  · subst hplace
    rw [FlagStore.valueAt_setAt_self]
    simp [amountAt, record, Table.get?_insert_self]
  · rw [FlagStore.valueAt_setAt_of_ne s _ hplace, h.valueAt]
    simp [amountAt, record, Table.get?_insert_of_ne _ _ hplace]

theorem add (h : l.Describes s) (flag : Text) (n : Int) :
    ∃ s', s.add flag (.int n) = .ok s' ∧ (l.increase flag n).Describes s' := by
  refine ⟨_, ?_, h.set flag (l.amountAt (l.place flag) + n)⟩
  rw [FlagStore.add, h.get]
  rfl

theorem change (h : l.Describes s) (c : WrittenChange) :
    ∃ s', s.change c.change = .ok (s', []) ∧ (l.change c).Describes s' := by
  obtain ⟨x, hread, hx⟩ := c.literal.exists_read?_written c.exact
  have hamount : FlagStore.amountOf c.change.amount = .ok (some x) := congrArg Except.ok hread
  have hheld : FlagStore.heldValue x = .int c.literal.value := by
    rw [FlagStore.heldValue, hx]
  rw [FlagStore.change_of_amount s hamount, hheld]
  have hkind : c.change.kind = c.kind := rfl
  unfold Ledger.change
  rw [hkind]
  cases c.kind with
  | assign => exact ⟨_, rfl, h.set c.flag c.literal.value⟩
  | increase =>
    obtain ⟨s', hs', hdescribes⟩ := h.add c.flag c.literal.value
    exact ⟨s', congrArg (Except.map (·, [])) hs', hdescribes⟩
  | decrease =>
    obtain ⟨s', hs', hdescribes⟩ := h.add c.flag (-c.literal.value)
    exact ⟨s', congrArg (Except.map (·, [])) hs', hdescribes⟩

theorem changeAll (h : l.Describes s) (cs : List WrittenChange) :
    ∃ s', s.changeAll (cs.map WrittenChange.change) = ⟨s', [], none⟩ ∧
      (cs.foldl Ledger.change l).Describes s' := by
  induction cs generalizing l s with
  | nil => exact ⟨s, rfl, h⟩
  | cons c cs ih =>
    obtain ⟨s₁, hs₁, hdescribes⟩ := h.change c
    obtain ⟨s', hs', hlast⟩ := ih hdescribes
    refine ⟨s', ?_, hlast⟩
    rw [List.map_cons, FlagStore.changeAll, hs₁]
    simp only [hs', List.nil_append]

/-- An edit of a store is one of its ledger, and leaves nothing to report. -/
theorem perform (h : l.Describes s) (edit : Edit) :
    ∃ s', s.perform edit.operation = ⟨s', [], none⟩ ∧ (l.edit edit).Describes s' := by
  cases edit with
  | set flag n => exact ⟨_, rfl, h.set flag n⟩
  | add flag n =>
    obtain ⟨s', hs', hdescribes⟩ := h.add flag n
    exact ⟨s', by rw [Edit.operation, FlagStore.perform, hs'], hdescribes⟩
  | apply cs =>
    obtain ⟨s', hs', hdescribes⟩ := h.changeAll cs
    refine ⟨s', ?_, hdescribes⟩
    show s.apply (.text (Text.join [','] (cs.map WrittenChange.written))) = _
    rw [FlagStore.apply, WrittenChange.ofText_join]
    simp only [WrittenChange.changes_map, hs', List.append_nil]
    exact congrArg (FlagStore.Applied.mk s' · none) (WrittenChange.complaints_map cs)
  | goTo container => exact ⟨_, rfl, rfl, h.valueAt⟩

theorem create (current : Key) (flags : Table Key (Table Key Int)) :
    (create current flags).Describes
      (.create current (Table.mapValues (Table.mapValues .int) flags)) := by
  refine ⟨rfl, fun place => ?_⟩
  rw [FlagStore.valueAt_create, Table.entriesAt_mapValues, amountAt]
  have hentries : Table.ofEntries (Table.mapValues Value.int (Table.entriesAt place.1 flags)) =
      Table.mapValues .int (Table.ofEntries (Table.entriesAt place.1 flags)) :=
    Table.insertAll_mapValues Value.int [] (Table.entriesAt place.1 flags)
  have hplace : (Table.ofEntries (Table.entriesAt place.1 flags)).get? place.2 =
      (Ledger.create current flags).entries.get? place :=
    Table.get?_insertAll_entriesAt flags place.1 place.2 rfl
  rw [hentries, Table.get?_mapValues, hplace]
  cases (Ledger.create current flags).entries.get? place <;> rfl

theorem after (h : l.Describes s) (edits : List Edit) :
    (l.after edits).Describes (s.after (edits.map Edit.operation)) := by
  induction edits generalizing l s with
  | nil => exact h
  | cons edit edits ih =>
    obtain ⟨s', hs', hdescribes⟩ := h.perform edit
    have hafter := ih hdescribes
    rw [List.map_cons, FlagStore.after, hs']
    exact hafter

theorem trace (h : l.Describes s) (edits : List Edit) {a : FlagStore.Applied}
    (ha : a ∈ s.trace (edits.map Edit.operation)) : a.notices = [] ∧ a.failure = none := by
  induction edits generalizing l s with
  | nil => cases ha
  | cons edit edits ih =>
    obtain ⟨s', hs', hdescribes⟩ := h.perform edit
    rw [List.map_cons, FlagStore.trace, hs'] at ha
    rcases List.mem_cons.1 ha with rfl | ha
    · exact ⟨rfl, rfl⟩
    · exact ih hdescribes ha

end Describes

end Ledger

namespace FlagStore

open Ledger

/-- A store is an exact map from containers and names to integers. After any edits a flag reads as
the integer that a ledger of the same edits has at its place, and none of them fails or leaves
anything to report. An edit keeps what is held everywhere but at the places of the flags that it
names, and a flag of the current container is the same one with and without the container. -/
theorem get_after_edits (current : Key) (flags : Table Key (Table Key Int)) (edits : List Edit) :
    let start := create current (Table.mapValues (Table.mapValues .int) flags)
    let s := start.after (edits.map Edit.operation)
    let l := (Ledger.create current flags).after edits
    (∀ flag, s.get flag = .int (l.amountAt (l.place flag))) ∧
      (∀ a ∈ start.trace (edits.map Edit.operation), a.notices = [] ∧ a.failure = none) ∧
      (∀ (edit : Edit) (place : Key × Key), place ∉ edit.flags.map l.place →
        (s.perform edit.operation).store.valueAt place = s.valueAt place) ∧
      ∀ (container name : Text), container ≠ [] → '.' ∉ name → s.current = .text container →
        s.get (container ++ '.' :: name) = s.get name ∧
          ∀ v, s.set (container ++ '.' :: name) v = s.set name v := by
  intro start s l
  have hstart := Describes.create current flags
  have hdescribes : l.Describes s := hstart.after edits
  refine ⟨hdescribes.get, fun a ha => hstart.trace edits ha, fun edit place hplace => ?_,
    fun container name hne hname hcurrent => ?_⟩
  · refine valueAt_perform_of_not_mem ?_
    rw [edit.flags_operation, List.map_congr_left fun flag _ => hdescribes.locate flag]
    exact hplace
  · have hsame : s.locate (container ++ '.' :: name) = s.locate name := by
      rw [hdescribes.locate, hdescribes.locate, place_append l container hname,
        place_of_not_mem l hname, if_neg hne, hdescribes.current, hcurrent]
    exact ⟨congrArg s.valueAt hsame, fun v => congrArg (s.setAt · v) hsame⟩

/-- `gold > +1_000`. -/
def reward : WrittenChange where
  before := "gold "
  kind := .increase
  after := " +1_000"
  literal := ⟨['+'], '1', [(true, '0'), (false, '0'), (false, '0')], by simp, by
    simp only [List.map_cons, List.map_nil, List.forall_mem_singleton, List.forall_mem_cons]
    decide⟩
  flag_ne_nil := by decide
  not_mem_before := by simp
  trim_after := by decide +kernel
  exact := ⟨.ofRatio false 1000 1, by decide +kernel⟩

def journey : List Edit := [.apply [reward], .goTo (.text "cave"), .add "gold" 3]

theorem get_after_journey :
    let s := (create (.text "main") [(.text "main", [(.text "gold", .int 5)])]).after
      (journey.map Edit.operation)
    s.get "main.gold" = .int 1005 ∧ s.get "cave.gold" = s.get "gold" ∧ s.get "gold" = .int 3 := by
  intro s
  obtain ⟨hget, -, -, hsame⟩ :=
    get_after_edits (.text "main") [(.text "main", [(.text "gold", 5)])] journey
  refine ⟨(hget _).trans ?_, (hsame "cave" "gold" (by decide) (by decide) ?_).1, (hget _).trans ?_⟩
  · exact congrArg Value.int (by decide +kernel)
  · rfl
  · exact congrArg Value.int (by decide +kernel)

end FlagStore

end StoryScript
