import StoryScript.Proofs.Number.Alphabet
import StoryScript.Proofs.Store.Ledger

/-!
# Pairs that ask for a change

A text of changes is read pair by pair, and a pair is cut at a sign that is chosen by its kind and
not by its place: at the first `=` in it, or if there is none at the first `>`, or if there is none
of these at the first `<` (`Change.ReadsAs`). No number holds a sign, so a pair asks for a change
only where that sign is its last one (`Change.Asks`); what other signs it has are then part of the
flag. Main statement: `FlagStore.changed_by_asking_pairs`.
-/

namespace StoryScript

namespace FlagStore

namespace Change

def signChars : List Char := ['=', '>', '<']

/-- The signs that are looked for before the one of a kind. -/
def Kind.before : Kind → List Char
  | .assign => []
  | .increase => ['=']
  | .decrease => ['=', '>']

/-- The pairs that a text lists, without the blanks around them. -/
def pairs (t : Text) : List Text :=
  ((Text.fields ',' t).map Text.trim).filter fun pair => !pair.isEmpty

/-- Whether a pair is cut at a sign of a kind into a key and an amount. -/
structure ReadsAs (pair : Text) (kind : Kind) (key amount : Text) : Prop where
  written : pair = key ++ kind.sign :: amount
  sign_not_mem : kind.sign ∉ key
  before_not_mem : ∀ d ∈ kind.before, d ∉ pair

/-- Whether a pair asks for a change of the flag that its key names, by the number that its amount
is. -/
structure Asks (pair : Text) (kind : Kind) (key amount : Text) : Prop
    extends ReadsAs pair kind key amount where
  key_ne_nil : key.trim ≠ []
  isNumber : (Quantity.read? amount.trim).isSome

/-- The change that a key and an amount are read as. -/
def ofCut (kind : Kind) (key amount : Text) : Change := ⟨key.trim, kind, .text amount.trim⟩

/-! ## Reading a pair -/

theorem Kind.sign_mem_signChars (kind : Kind) : kind.sign ∈ signChars := by
  cases kind <;> decide

variable {pair key amount : Text} {kind : Kind}

/-- A pair has no sign, or it is cut at one. -/
theorem exists_readsAs (pair : Text) :
    (∀ d ∈ signChars, d ∉ pair) ∨ ∃ kind key amount, ReadsAs pair kind key amount := by
  have hcut (kind : Kind) (hmem : kind.sign ∈ pair) (hbefore : ∀ d ∈ kind.before, d ∉ pair) :
      ∃ kind key amount, ReadsAs pair kind key amount := by
    obtain ⟨key, amount, hwritten, hkey⟩ := List.eq_append_cons_of_mem hmem
    exact ⟨kind, key, amount, hwritten, hkey, hbefore⟩
  by_cases hassign : '=' ∈ pair
  · exact .inr (hcut .assign hassign (by simp [Kind.before]))
  by_cases hincrease : '>' ∈ pair
  · exact .inr (hcut .increase hincrease (by simp [Kind.before, hassign]))
  by_cases hdecrease : '<' ∈ pair
  · exact .inr (hcut .decrease hdecrease (by simp [Kind.before, hassign, hincrease]))
  · exact .inl (by simp [signChars, hassign, hincrease, hdecrease])

theorem ofPair_of_signless (h : ∀ d ∈ signChars, d ∉ pair) :
    ofPair pair = .error (.noFlagOperator pair) := by
  have hcut : ∀ d ∈ signChars, Text.cut? d pair = none := fun d hd => Text.cut?_of_not_mem (h d hd)
  simp only [signChars, List.forall_mem_cons] at hcut
  simp [ofPair, Kind.signs, hcut]

theorem ReadsAs.ofPair_eq (h : ReadsAs pair kind key amount) :
    ofPair pair =
      if key.trim.isEmpty then .error (.emptyFlagKey pair) else .ok (ofCut kind key amount) := by
  have hsign : Text.cut? kind.sign pair = some (key, amount) := by
    rw [h.written]
    exact Text.cut?_append h.sign_not_mem amount
  have hbefore : ∀ d ∈ kind.before, Text.cut? d pair = none :=
    fun d hd => Text.cut?_of_not_mem (h.before_not_mem d hd)
  have hfound : (Kind.signs.findSome? fun s => (Text.cut? s.1 pair).map fun p => (s.2, p)) =
      some (kind, key, amount) := by
    cases kind with
    | assign => simp [Kind.signs, show Text.cut? '=' pair = _ from hsign]
    | increase =>
      simp [Kind.signs, hbefore '=' (by decide), show Text.cut? '>' pair = _ from hsign]
    | decrease =>
      simp [Kind.signs, hbefore '=' (by decide), hbefore '>' (by decide),
        show Text.cut? '<' pair = _ from hsign]
  rw [ofPair, hfound]
  rfl

/-- No sign is part of a number. -/
theorem Asks.not_mem_amount (h : Asks pair kind key amount) {d : Char} (hd : d ∈ signChars) :
    d ∉ amount := by
  intro hmem
  have hsign : Blank.isBlank d = false ∧ Quantity.isMargin d = false ∧
      Quantity.isQuantityChar d = false := by
    simp only [signChars, List.mem_cons, List.not_mem_nil, or_false] at hd
    rcases hd with rfl | rfl | rfl <;> decide
  obtain ⟨hblank, hmargin, hchar⟩ := hsign
  obtain ⟨x, hx⟩ := Option.isSome_iff_exists.1 h.isNumber
  rcases Quantity.mem_of_read? hx (Text.mem_trim hblank hmem) with hd | hd
  · exact Bool.false_ne_true (hmargin.symm.trans hd)
  · exact Bool.false_ne_true (hchar.symm.trans hd)

/-- A pair that asks for a change has one sign just where its key has none. -/
theorem Asks.signless_iff (h : Asks pair kind key amount) :
    (∀ d ∈ signChars, d ∉ key) ↔ pair.countP (signChars.contains ·) = 1 := by
  have hamount : amount.countP (signChars.contains ·) = 0 := by
    refine List.countP_eq_zero.2 fun d hd hsign => ?_
    exact h.not_mem_amount (List.contains_iff_mem.1 hsign) hd
  have hkey : (∀ d ∈ signChars, d ∉ key) ↔ key.countP (signChars.contains ·) = 0 := by
    rw [List.countP_eq_zero]
    constructor
    · exact fun hnot d hd hsign => hnot d (List.contains_iff_mem.1 hsign) hd
    · exact fun hnot d hd hmem => hnot d hmem (List.contains_iff_mem.2 hd)
  have hsign : signChars.contains kind.sign = true :=
    List.contains_iff_mem.2 kind.sign_mem_signChars
  rw [hkey, h.written, List.countP_append, List.countP_cons_of_pos hsign, hamount]
  omega

/-! ## Reading a text -/

theorem ofText_eq_map (t : Text) : ofText t = (pairs t).map ofPair := rfl

/-- The changes that a text asks for are read from pairs that have a key. -/
theorem mem_changesOf_text {t : Text} {c : Change} :
    c ∈ changesOf (.text t) ↔ ∃ pair ∈ pairs t, ∃ kind key amount,
      ReadsAs pair kind key amount ∧ key.trim ≠ [] ∧ c = ofCut kind key amount := by
  have hread : c ∈ changesOf (.text t) ↔ ∃ pair ∈ pairs t, ofPair pair = .ok c := by
    show c ∈ (ofText t).filterMap Except.toOption ↔ _
    rw [ofText_eq_map, List.mem_filterMap]
    constructor
    · rintro ⟨read, hread, hc⟩
      obtain ⟨pair, hpair, rfl⟩ := List.mem_map.1 hread
      cases hok : ofPair pair with
      | error n =>
        rw [hok] at hc
        cases hc
      | ok c' =>
        rw [hok] at hc
        exact ⟨pair, hpair, congrArg Except.ok (Option.some.inj hc) ▸ hok⟩
    · rintro ⟨pair, hpair, hok⟩
      exact ⟨_, List.mem_map_of_mem hpair, by rw [hok]; rfl⟩
  rw [hread]
  constructor
  · rintro ⟨pair, hpair, hok⟩
    rcases exists_readsAs pair with hnone | ⟨kind, key, amount, h⟩
    · rw [ofPair_of_signless hnone] at hok
      cases hok
    · rw [h.ofPair_eq] at hok
      split at hok
      · cases hok
      · next hkey =>
        cases hok
        exact ⟨pair, hpair, kind, key, amount, h, by simpa using hkey, rfl⟩
  · rintro ⟨pair, hpair, kind, key, amount, h, hkey, rfl⟩
    exact ⟨pair, hpair, by rw [h.ofPair_eq, if_neg (by simpa using hkey)]⟩

end Change

/-! ## What pairs change -/

section

variable {s : FlagStore} {cs : List Change} {place : Key × Key}

theorem change_of_malformed {c : Change} (h : amountOf c.amount = .ok none) (s : FlagStore) :
    s.change c = .ok (s, [.flagNotANumber c.amount c.flag]) := by
  rw [change, h]
  rfl

/-- What changes a place is a change of its flag by a number. -/
theorem exists_change_of_valueAt_ne (h : (s.changeAll cs).store.valueAt place ≠ s.valueAt place) :
    ∃ c ∈ cs, place = s.locate c.flag ∧ amountOf c.amount ≠ .ok none := by
  induction cs generalizing s with
  | nil => exact absurd rfl h
  | cons c cs ih =>
    have htail (s₁ : FlagStore) (hlocate : ∀ flag, s₁.locate flag = s.locate flag)
        (hvalue : s₁.valueAt place = s.valueAt place)
        (h : (s₁.changeAll cs).store.valueAt place ≠ s.valueAt place) :
        ∃ c' ∈ c :: cs, place = s.locate c'.flag ∧ amountOf c'.amount ≠ .ok none := by
      obtain ⟨c', hc', hplace, hamount⟩ := ih (hvalue ▸ h)
      exact ⟨c', List.mem_cons_of_mem c hc', hlocate c'.flag ▸ hplace, hamount⟩
    rw [changeAll] at h
    split at h
    · exact absurd rfl h
    · next s₁ notices hchange =>
      rcases eq_or_of_change hchange with rfl | ⟨v, rfl⟩
      · exact htail _ (fun _ => rfl) rfl h
      · by_cases hplace : place = s.locate c.flag
        · by_cases hamount : amountOf c.amount = .ok none
          · -- A change by no number is skipped, so the store is still the one before it.
            rw [change_of_malformed hamount] at hchange
            obtain ⟨hs, -⟩ := Prod.mk.inj (Except.ok.inj hchange)
            have hvalue := congrArg (valueAt · place) hs.symm
            exact htail (s.set c.flag v) (fun _ => rfl) hvalue h
          · exact ⟨c, List.mem_cons_self, hplace, hamount⟩
        · exact htail (s.set c.flag v) (fun _ => rfl) (valueAt_set_of_ne hplace v) h

/-- Changes by no number are reported if all changes are gone through. -/
theorem mem_notices_changeAll (h : (s.changeAll cs).failure = none) {c : Change} (hc : c ∈ cs)
    (hamount : amountOf c.amount = .ok none) :
    .flagNotANumber c.amount c.flag ∈ (s.changeAll cs).notices := by
  induction cs generalizing s with
  | nil => cases hc
  | cons c' cs ih =>
    rw [changeAll] at h ⊢
    split at h
    · cases h
    · next s₁ notices hchange =>
      rcases List.mem_cons.1 hc with rfl | hc
      · rw [change_of_malformed hamount] at hchange
        obtain ⟨-, rfl⟩ := Prod.mk.inj (Except.ok.inj hchange)
        simp
      · exact List.mem_append_right _ (ih h hc)

end

/-- Whether a notice is about a pair that asks for no change: it has no sign, key or number. -/
def Change.IsRejection (pair : Text) : Notice → Prop
  | .noFlagOperator pair' => pair' = pair ∧ ∀ d ∈ signChars, d ∉ pair
  | .emptyFlagKey pair' =>
    pair' = pair ∧ ∃ kind key amount, ReadsAs pair kind key amount ∧ key.trim = []
  | .flagNotANumber v flag => ∃ kind key amount, ReadsAs pair kind key amount ∧
      v = .text amount.trim ∧ flag = key.trim ∧ Quantity.read? amount.trim = none
  | _ => False

open Change

theorem mem_notices_of_error (s : FlagStore) {t pair : Text} (hpair : pair ∈ pairs t) {n : Notice}
    (h : ofPair pair = .error n) : n ∈ (s.apply (.text t)).notices := by
  refine List.mem_append_left _ (List.mem_filterMap.2 ⟨.error n, ?_, rfl⟩)
  rw [ofText_eq_map]
  exact List.mem_map.2 ⟨pair, hpair, h⟩

/-- Pairs that ask for no change are reported where the text is gone through. -/
theorem exists_rejection {s : FlagStore} {t : Text} (h : (s.apply (.text t)).failure = none)
    {pair : Text} (hpair : pair ∈ pairs t)
    (hasks : ∀ kind key amount, ¬ Asks pair kind key amount) :
    ∃ n ∈ (s.apply (.text t)).notices, IsRejection pair n := by
  rcases exists_readsAs pair with hnone | ⟨kind, key, amount, hreads⟩
  · exact ⟨_, mem_notices_of_error s hpair (ofPair_of_signless hnone), rfl, hnone⟩
  · by_cases hkey : key.trim = []
    · have hempty : ofPair pair = .error (.emptyFlagKey pair) := by
        rw [hreads.ofPair_eq, if_pos (by simp [hkey])]
      exact ⟨_, mem_notices_of_error s hpair hempty, rfl, kind, key, amount, hreads, hkey⟩
    · cases hread : Quantity.read? amount.trim with
      | some x => exact absurd ⟨hreads, hkey, by simp [hread]⟩ (hasks kind key amount)
      | none =>
        have hchange : ofCut kind key amount ∈ changesOf (.text t) :=
          mem_changesOf_text.2 ⟨pair, hpair, kind, key, amount, hreads, hkey, rfl⟩
        have hnotice := mem_notices_changeAll h hchange (congrArg Except.ok hread)
        exact ⟨_, List.mem_append_right _ hnotice, kind, key, amount, hreads, rfl, rfl, hread⟩

/-- A text changes flags only by pairs that ask for it, and of these the flag is without signs just
where the pair has a single one: a pair with more is taken for a change too, of a flag whose name
has signs in it, where its last sign is the one that is looked for first. A pair without signs is
reported as none in any case, and every pair that does not ask for a change is reported in some way
where the text is gone through. -/
theorem changed_by_asking_pairs (s : FlagStore) (t : Text) :
    (∀ place, (s.apply (.text t)).store.valueAt place ≠ s.valueAt place →
      ∃ pair ∈ pairs t, ∃ kind key amount, Asks pair kind key amount ∧
        place = s.locate key.trim ∧
        ((∀ d ∈ signChars, d ∉ key) ↔ pair.countP (signChars.contains ·) = 1)) ∧
      (∀ pair ∈ pairs t, ∀ kind key amount, Asks pair kind key amount →
        ofCut kind key amount ∈ changesOf (.text t)) ∧
      (∀ pair ∈ pairs t, (∀ d ∈ signChars, d ∉ pair) →
        .noFlagOperator pair ∈ (s.apply (.text t)).notices) ∧
      ((s.apply (.text t)).failure = none →
        ∀ pair ∈ pairs t, (∀ kind key amount, ¬ Asks pair kind key amount) →
          ∃ n ∈ (s.apply (.text t)).notices, IsRejection pair n) := by
  refine ⟨fun place hplace => ?_, fun pair hpair kind key amount hasks => ?_,
    fun pair hpair hnone => mem_notices_of_error s hpair (ofPair_of_signless hnone),
    fun h pair hpair => exists_rejection h hpair⟩
  · rw [store_apply] at hplace
    obtain ⟨c, hc, rfl, hamount⟩ := exists_change_of_valueAt_ne hplace
    obtain ⟨pair, hpair, kind, key, amount, hreads, hkey, rfl⟩ := mem_changesOf_text.1 hc
    have hread : Quantity.read? amount.trim ≠ none := fun hnone =>
      hamount (congrArg Except.ok hnone)
    have hasks : Asks pair kind key amount := ⟨hreads, hkey, Option.isSome_iff_ne_none.2 hread⟩
    exact ⟨pair, hpair, kind, key, amount, hasks, rfl, hasks.signless_iff⟩
  · exact mem_changesOf_text.2
      ⟨pair, hpair, kind, key, amount, hasks.toReadsAs, hasks.key_ne_nil, rfl⟩

def hastyText : Text := "gold>=5, hp=3, a==b, lots"

/-- The first pair is taken for a change of a flag that is named after its first sign too, the third
and the last are reported. -/
theorem changed_by_hastyText :
    (∃ pair ∈ pairs hastyText, ∃ kind key amount, Asks pair kind key amount ∧
      ((.text "main", .text "gold>") : Key × Key) = (default : FlagStore).locate key.trim ∧
      ((∀ d ∈ signChars, d ∉ key) ↔ pair.countP (signChars.contains ·) = 1)) ∧
      .noFlagOperator "lots" ∈ ((default : FlagStore).apply (.text hastyText)).notices ∧
      ∃ n ∈ ((default : FlagStore).apply (.text hastyText)).notices, IsRejection "a==b" n := by
  obtain ⟨hchanged, -, hsignless, hrejected⟩ := changed_by_asking_pairs default hastyText
  refine ⟨hchanged _ ?_, hsignless _ (by decide +kernel) (by simp [signChars]),
    hrejected rfl _ (by decide +kernel) fun kind key amount hasks => ?_⟩
  · show Value.int 5 ≠ .int 0
    simp
  · -- It has a sign too many on both sides of any of its signs.
    have hcount := congrArg (List.count '=') hasks.written
    have hamount : amount.count '=' = 0 :=
      List.count_eq_zero.2 (hasks.not_mem_amount (by decide))
    cases kind with
    | assign =>
      have hkey : key.count '=' = 0 := List.count_eq_zero.2 hasks.sign_not_mem
      simp [hkey, hamount, Kind.sign] at hcount
    | increase | decrease => exact absurd (by decide) (hasks.before_not_mem '=' (by decide))

/-- Two signs of which the last is looked for first are no reason to reject a pair. -/
theorem apply_doubleSigned :
    (default : FlagStore).apply (.text "gold>=5") =
      ⟨(default : FlagStore).set "gold>" (.int 5), [], none⟩ := rfl

end FlagStore

end StoryScript
