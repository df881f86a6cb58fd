import Mathlib.Data.List.TakeDrop
import StoryScript.Engine.Gates
import StoryScript.Markup.Span
import StoryScript.Proofs.Number.Literals
import StoryScript.Proofs.Text.Cuts

/-!
# Comparing flags with integers

A flag is compared with an integer as in `cave.gold >= +007`, with any blanks around the key, the
operator and the literal (`FlagTest`). Main statement: what such a condition comes to is what the
operator says of the two integers, where floating-point numbers are exact, and nothing is reported
(`Engine.on_holds_flagTest`).
-/

namespace StoryScript

open Blank (isBlank)

namespace Operator

/-- What an operator says of two integers. -/
def Relates : Operator → Int → Int → Prop
  | equal, m, n => m = n
  | notEqual, m, n => m ≠ n
  | atLeast, m, n => n ≤ m
  | atMost, m, n => m ≤ n
  | greater, m, n => n < m
  | less, m, n => m < n

instance : (operator : Operator) → (m n : Int) → Decidable (operator.Relates m n)
  | equal, m, n => inferInstanceAs (Decidable (m = n))
  | notEqual, m, n => inferInstanceAs (Decidable (m ≠ n))
  | atLeast, m, n => inferInstanceAs (Decidable (n ≤ m))
  | atMost, m, n => inferInstanceAs (Decidable (m ≤ n))
  | greater, m, n => inferInstanceAs (Decidable (n < m))
  | less, m, n => inferInstanceAs (Decidable (m < n))

theorem orders_of_toInt? (operator : Operator) {x y : Binary64} {m n : Int}
    (hx : x.toInt? = some m) (hy : y.toInt? = some n) :
    operator.orders x y = decide (operator.Relates m n) := by
  rw [Bool.eq_iff_iff, decide_eq_true_eq]
  cases operator with
  | equal => exact Binary64.eq_iff_of_toInt? hx hy
  | notEqual =>
    rw [orders, Bool.not_eq_true', ← Bool.not_eq_true, Binary64.eq_iff_of_toInt? hx hy]
    rfl
  | atLeast => exact Binary64.le_iff_of_toInt? hy hx
  | atMost => exact Binary64.le_iff_of_toInt? hx hy
  | greater => exact Binary64.lt_iff_of_toInt? hy hx
  | less => exact Binary64.lt_iff_of_toInt? hx hy

end Operator

namespace IntegerLiteral

variable (l : IntegerLiteral)

/-- A literal without underscores. -/
def ungrouped : Text := l.sign ++ l.digitText

theorem exact_size (h : Binary64.Exact l.value.natAbs) : Binary64.Exact l.size := by
  have hsize : l.value.natAbs = l.size := by
    rw [value_eq, Binary64.natAbs_signed]
    exact Nat.mul_one _
  rwa [hsize] at h

theorem exists_read?_ungrouped (h : Binary64.Exact l.value.natAbs) :
    ∃ n, Numeral.read? l.ungrouped = some n ∧ n.isPlain ∧ n.value.toInt? = some l.value := by
  have hexact := l.exact_size h
  refine ⟨_, l.read?_digits, rfl, ?_⟩
  show (Binary64.ofDecimal _ (Digit.ofDigits (l.digitText.filterMap Digit.value? ++ [])) 0).toInt? =
    some l.value
  rw [List.append_nil]
  show (Binary64.ofDecimal _ l.size 0).toInt? = some l.value
  rw [Binary64.ofDecimal_zero hexact.le_largest, hexact.toInt?_ofRatio, value_eq]

theorem ofLiteral_ungrouped (h : Binary64.Exact l.value.natAbs) :
    Value.ofLiteral l.ungrouped = .int l.value := by
  obtain ⟨n, hread, hplain, hvalue⟩ := l.exists_read?_ungrouped h
  have hne {t : Text} (ht : Numeral.read? t = none) : l.ungrouped ≠ t := by
    rintro rfl
    rw [hread] at ht
    cases ht
  rw [Value.ofLiteral, if_neg (hne (by decide)), if_neg (hne (by decide)),
    if_neg (mt List.isEmpty_iff.1 (hne (by decide))), hread]
  simp only [hplain, if_true, hvalue]

/-- A literal begins with a sign or a digit. -/
theorem exists_ungrouped_eq :
    ∃ c cs, l.ungrouped = c :: cs ∧ isBlank c = false ∧ c ≠ '=' := by
  have hfirst := l.digits _ List.mem_cons_self
  rcases l.sign_cases with hsign | hsign | hsign
  · exact ⟨l.first, _, by rw [ungrouped, hsign]; rfl, Digit.isBlank_eq_false hfirst,
      Digit.ne_of_isDigit hfirst (by decide)⟩
  · exact ⟨'+', l.digitText, by rw [ungrouped, hsign]; rfl, by decide, by decide⟩
  · exact ⟨'-', l.digitText, by rw [ungrouped, hsign]; rfl, by decide, by decide⟩

/-- A literal ends in a digit. -/
theorem exists_ungrouped_eq_concat :
    ∃ front last, l.ungrouped = front ++ [last] ∧ isBlank last = false := by
  rcases List.eq_nil_or_concat l.digitText with hnil | ⟨front, last, hdigits⟩
  · cases hnil
  · have hlast : last ∈ l.digitText := by simp [hdigits]
    refine ⟨l.sign ++ front, last, ?_, Digit.isBlank_eq_false (l.digits last hlast)⟩
    rw [ungrouped, hdigits, List.concat_eq_append, List.append_assoc]

end IntegerLiteral

namespace Comparison

/-! ## Reading a comparison -/

theorem toNat_bounds_of_isKeyChar {c : Char} (h : isKeyChar c) : 46 ≤ c.toNat ∧ c.toNat < 128 := by
  unfold isKeyChar Letter.isNameChar at h
  delta Char.isAlphanum Char.isAlpha Char.isUpper Char.isLower Char.isDigit at h
  simp only [Bool.or_eq_true, Bool.and_eq_true, beq_iff_eq, decide_eq_true_eq, ge_iff_le,
    UInt32.le_iff_toNat_le] at h
  change (c = '_' ∨ ((65 ≤ c.toNat ∧ c.toNat ≤ 90) ∨ 97 ≤ c.toNat ∧ c.toNat ≤ 122) ∨
    48 ≤ c.toNat ∧ c.toNat ≤ 57) ∨ c = '.' at h
  rcases h with (rfl | h | h) | rfl
  · decide
  · omega
  · omega
  · decide

theorem isBlank_eq_false_of_isKeyChar {c : Char} (h : isKeyChar c) : isBlank c = false := by
  have hbounds := toNat_bounds_of_isKeyChar h
  unfold Blank.isBlank
  rw [if_pos hbounds.2]
  simp only [Bool.or_eq_false_iff, Bool.and_eq_false_iff, beq_eq_false_iff_ne,
    decide_eq_false_iff_not]
  omega

/-- The first of the spellings that begins a text is the one that was written, unless another equals
sign follows it. -/
theorem readOperator_append {word : Text} {operator : Operator}
    (hword : (word, operator) ∈ Operator.spellings) {rest : Text} (hequals : rest.head? ≠ some '=')
    (hrest : Text.trimLeft rest ≠ []) :
    readOperator (word ++ rest) = some (operator, Text.trimLeft rest) := by
  have hafter : Text.after? ['='] rest = none := by
    cases rest with
    | nil => rfl
    | cons c cs => simpa [Text.after?, eq_comm] using hequals
  simp only [Operator.spellings, List.mem_cons, Prod.mk.injEq, List.not_mem_nil, or_false] at hword
  rcases hword with ⟨rfl, rfl⟩ | ⟨rfl, rfl⟩ | ⟨rfl, rfl⟩ | ⟨rfl, rfl⟩ | ⟨rfl, rfl⟩ | ⟨rfl, rfl⟩ |
    ⟨rfl, rfl⟩ <;>
  simp [readOperator, Operator.spellings, Text.after?, hafter, hrest]

theorem readOperator_of_digits {t : Text} (h : ∀ c ∈ t, Digit.isDigit c) :
    readOperator t = none := by
  cases t with
  | nil => rfl
  | cons c cs =>
    have hc := h c List.mem_cons_self
    have hne {d : Char} (hd : Digit.isDigit d = false) : d ≠ c := (Digit.ne_of_isDigit hc hd).symm
    simp [readOperator, Operator.spellings, Text.after?, hne (d := '=') (by decide),
      hne (d := '!') (by decide), hne (d := '<') (by decide), hne (d := '>') (by decide)]

/-- A key ends where another character than those of keys stands, if that opens no arguments. -/
theorem readKey_append {key : Text} (hne : key ≠ []) (hkey : ∀ c ∈ key, isKeyChar c) {c : Char}
    {rest : Text} (hc : isKeyChar c = false) (hparen : c ≠ '(') :
    readKey (key ++ c :: rest) = some (key, c :: rest) := by
  have hspan : (key ++ c :: rest).span isKeyChar = (key, c :: rest) := by
    rw [List.span_eq_takeWhile_dropWhile, List.takeWhile_append_of_pos hkey,
      List.dropWhile_append_of_pos hkey]
    simp [hc]
  have hnone : Reference.parenthesised? (c :: rest) = none := by
    unfold Reference.parenthesised?
    split
    · next heq => exact absurd (List.cons.inj heq).1 hparen
    · rfl
  rw [readKey, hspan]
  simp [hnone, hne]

theorem readKey_cons_of_not_isKeyChar {c : Char} (hc : isKeyChar c = false) (rest : Text) :
    readKey (c :: rest) = none := by
  rw [readKey, List.span_eq_takeWhile_dropWhile, List.takeWhile_cons_of_neg (by simp [hc])]
  rfl

/-- What follows the key that digits may be is digits. -/
theorem isDigit_of_readKey {t key rest : Text} (h : ∀ c ∈ t, Digit.isDigit c)
    (hread : readKey t = some (key, rest)) : ∀ c ∈ rest, Digit.isDigit c := by
  have hdrop : ∀ c ∈ t.dropWhile isKeyChar, Digit.isDigit c :=
    fun c hc => h c ((List.dropWhile_suffix isKeyChar).subset hc)
  have hnone : Reference.parenthesised? (t.dropWhile isKeyChar) = none := by
    unfold Reference.parenthesised?
    split
    · next heq => exact absurd (hdrop '(' (heq ▸ List.mem_cons_self)) (by decide)
    · rfl
  rw [readKey, List.span_eq_takeWhile_dropWhile] at hread
  simp only [hnone] at hread
  split at hread
  · cases hread
  · cases hread
    exact hdrop

/-- Nothing is read where no operator follows what may be a key. -/
theorem readFrom_eq_none {start t rest : Text} (hrest : Text.after? start t = some rest)
    (h : ∀ key u, readKey rest = some (key, u) → readOperator (Text.trimLeft u) = none) :
    readFrom start t = none := by
  rw [readFrom, hrest]
  cases hkey : readKey rest with
  | none => simp [hkey]
  | some p => simp [hkey, h p.1 p.2 hkey]

/-! ## What a comparison comes to -/

/-- Where numbers are exact, a comparison of integers has the answer that its operator gives. -/
theorem holds_int {c : Comparison} {m n : Int} (hm : Binary64.Exact m.natAbs)
    (hn : Binary64.Exact n.natAbs) (hvalue : Value.ofLiteral c.value = .int n) :
    c.holds (.int m) = .ok (some (decide (c.operator.Relates m n))) := by
  obtain ⟨x, hx, hxm⟩ := hm.exists_ofInt?
  obtain ⟨y, hy, hyn⟩ := hn.exists_ofInt?
  have horders := c.operator.orders_of_toInt? hxm hyn
  have hequal : Value.looselyEqual? (.int m) (.int n) = some (x.eq y) := by
    simp [Value.looselyEqual?, Value.isScalar, Value.toNumber?, hx, hy]
  unfold holds
  rw [hvalue]
  cases hoperator : c.operator with
  | equal | notEqual =>
    rw [hoperator] at horders
    simp only [hequal, Option.map_some, ← horders]
    rfl
  | atLeast | atMost | greater | less =>
    rw [hoperator] at horders
    simp only [Value.isText, Value.toNumber?, hx, hy, Option.bind_some, Option.map_some, horders]
    rfl

end Comparison

/-- A condition that compares a flag with an integer, as it is written. -/
structure FlagTest where
  key : Text
  word : Text
  operator : Operator
  literal : IntegerLiteral
  /-- The blanks before the key, before and behind the operator, and behind the literal. -/
  front : Text
  left : Text
  right : Text
  back : Text
  key_ne_nil : key ≠ []
  isKeyChar_of_mem : ∀ c ∈ key, Comparison.isKeyChar c
  spelled : (word, operator) ∈ Operator.spellings
  isBlank_of_mem : ∀ c ∈ front ++ left ++ right ++ back, isBlank c

namespace FlagTest

variable (t : FlagTest)

/-- The condition without the blanks around it. -/
def core : Text := t.key ++ (t.left ++ (t.word ++ (t.right ++ t.literal.ungrouped)))

def written : Text := t.front ++ t.core ++ t.back

theorem blanks : (∀ c ∈ t.front, isBlank c) ∧ (∀ c ∈ t.left, isBlank c) ∧
    (∀ c ∈ t.right, isBlank c) ∧ ∀ c ∈ t.back, isBlank c := by
  have h := t.isBlank_of_mem
  simp only [List.forall_mem_append] at h
  exact ⟨h.1.1.1, h.1.1.2, h.1.2, h.2⟩

theorem trimLeft_of_isBlank {u : Text} (h : ∀ c ∈ u, isBlank c) : Text.trimLeft u = [] :=
  List.dropWhile_eq_nil_iff.2 h

theorem trimRight_of_isBlank {u : Text} (h : ∀ c ∈ u, isBlank c) : Text.trimRight u = [] := by
  rw [Text.trimRight, List.dropWhile_eq_nil_iff.2 fun c hc => h c (List.mem_reverse.1 hc)]
  rfl

theorem trim_written : t.written.trim = t.core := by
  obtain ⟨hfront, -, -, hback⟩ := t.blanks
  obtain ⟨k, key, hkey⟩ := List.exists_cons_of_ne_nil t.key_ne_nil
  obtain ⟨digits, last, hliteral, hlast⟩ := t.literal.exists_ungrouped_eq_concat
  have hk : isBlank k = false :=
    Comparison.isBlank_eq_false_of_isKeyChar (t.isKeyChar_of_mem k (hkey ▸ List.mem_cons_self))
  have hcore : t.core = k :: (key ++ (t.left ++ (t.word ++ (t.right ++ digits))) ++ [last]) := by
    simp [core, hkey, hliteral]
  have hwritten : t.written =
      t.front ++ k :: (key ++ (t.left ++ (t.word ++ (t.right ++ digits))) ++ last :: t.back) := by
    simp [written, hcore]
  rw [hwritten, Text.trim_append_cons _ hk, Text.trimRight_append_cons _ hlast,
    trimLeft_of_isBlank hfront, trimRight_of_isBlank hback, hcore]
  rfl

/-- Nothing between the key and the digits could be part of a key. -/
theorem isKeyChar_eq_false {c : Char}
    (hc : c ∈ t.left ++ (t.word ++ (t.right ++ t.literal.sign))) : Comparison.isKeyChar c = false := by
  have hblank (h : isBlank c) : Comparison.isKeyChar c = false := by
    by_contra hkey
    rw [Comparison.isBlank_eq_false_of_isKeyChar (by simpa using hkey)] at h
    cases h
  have hwords : ∀ p ∈ Operator.spellings, p.1.any Comparison.isKeyChar = false := by decide
  obtain ⟨-, hleft, hright, -⟩ := t.blanks
  simp only [List.mem_append] at hc
  rcases hc with hc | hc | hc | hc
  · exact hblank (hleft c hc)
  · exact Bool.eq_false_iff.2 (List.any_eq_false.1 (hwords _ t.spelled) c hc)
  · exact hblank (hright c hc)
  · rcases t.literal.sign_cases with hsign | hsign | hsign <;> rw [hsign] at hc
    · cases hc
    · obtain rfl := List.mem_singleton.1 hc
      decide
    · obtain rfl := List.mem_singleton.1 hc
      decide

/-- The operator is found behind the blanks that follow the key. -/
theorem readOperator_tail :
    Comparison.readOperator (Text.trimLeft (t.left ++ (t.word ++ (t.right ++ t.literal.ungrouped)))) =
      some (t.operator, t.literal.ungrouped) := by
  obtain ⟨-, hleft, hright, -⟩ := t.blanks
  obtain ⟨d, digits, hliteral, hd, hequals⟩ := t.literal.exists_ungrouped_eq
  have hwords : ∀ p ∈ Operator.spellings, p.1 ≠ [] ∧ p.1.any isBlank = false := by decide
  obtain ⟨hne, hword⟩ := hwords _ t.spelled
  obtain ⟨w, word, hw⟩ := List.exists_cons_of_ne_nil hne
  have hblank : isBlank w = false :=
    Bool.eq_false_iff.2 (List.any_eq_false.1 hword w (hw ▸ List.mem_cons_self))
  have htrim : Text.trimLeft (t.right ++ t.literal.ungrouped) = t.literal.ungrouped := by
    rw [hliteral, Text.trimLeft_append_cons _ hd, trimLeft_of_isBlank hright, List.nil_append]
  have hhead : (t.right ++ t.literal.ungrouped).head? ≠ some '=' := by
    rw [hliteral]
    cases hr : t.right with
    | nil => simpa using hequals
    | cons c cs =>
      have hc : isBlank c := hright c (hr ▸ List.mem_cons_self)
      rintro ⟨⟩
      cases hc
  have htail : Text.trimLeft (t.left ++ (t.word ++ (t.right ++ t.literal.ungrouped))) =
      t.word ++ (t.right ++ t.literal.ungrouped) := by
    have hw : t.word = w :: word := hw
    rw [hw, List.cons_append, Text.trimLeft_append_cons _ hblank,
      trimLeft_of_isBlank hleft, List.nil_append]
  rw [htail, Comparison.readOperator_append t.spelled hhead (by rw [htrim, hliteral]; simp), htrim]

/-- A condition is read as it was meant. -/
theorem readFrom_nil_core :
    Comparison.readFrom [] t.core = some ⟨t.key, t.operator, t.literal.ungrouped⟩ := by
  have hwords : ∀ p ∈ Operator.spellings, p.1 ≠ [] ∧ '(' ∉ p.1 := by decide
  obtain ⟨hne, hparen⟩ := hwords _ t.spelled
  obtain ⟨-, hleft, -⟩ := t.blanks
  obtain ⟨c, rest, hgap⟩ := List.exists_cons_of_ne_nil (List.append_ne_nil_of_right_ne_nil t.left hne)
  have hc : c ∈ t.left ++ t.word := hgap ▸ List.mem_cons_self
  have hnot : c ≠ '(' := by
    rintro rfl
    rcases List.mem_append.1 hc with hc | hc
    · cases hleft _ hc
    · exact hparen hc
  have hkey : Comparison.readKey t.core =
      some (t.key, t.left ++ (t.word ++ (t.right ++ t.literal.ungrouped))) := by
    rw [core, ← List.append_assoc t.left, hgap, List.cons_append]
    have hmem : c ∈ t.left ++ (t.word ++ (t.right ++ t.literal.sign)) := by
      rw [← List.append_assoc]
      exact List.mem_append_left _ hc
    exact Comparison.readKey_append t.key_ne_nil t.isKeyChar_of_mem (t.isKeyChar_eq_false hmem) hnot
  rw [Comparison.readFrom, Text.after?]
  simp [hkey, t.readOperator_tail]

/-- A sigil that does not begin the key begins nothing that could be compared. -/
theorem readFrom_sigil_core {sigil : Text} (h : Text.after? sigil t.key = none) :
    Comparison.readFrom sigil t.core = none := by
  cases hafter : Text.after? sigil t.core with
  | none => simp [Comparison.readFrom, hafter]
  | some rest =>
    refine Comparison.readFrom_eq_none hafter fun key u hkey => ?_
    have hcore : t.key ++ ((t.left ++ (t.word ++ (t.right ++ t.literal.sign))) ++
        t.literal.digitText) = sigil ++ rest := by
      rw [← Text.eq_append_of_after? hafter]
      simp [core, IntegerLiteral.ungrouped]
    have hnothing {digits : Text} (hdigits : ∀ c ∈ digits, Digit.isDigit c)
        (hread : Comparison.readKey digits = some (key, u)) :
        Comparison.readOperator (Text.trimLeft u) = none :=
      Comparison.readOperator_of_digits fun c hc =>
        Comparison.isDigit_of_readKey hdigits hread c (Text.mem_of_mem_trimLeft hc)
    rcases List.append_eq_append_iff.1 hcore with ⟨more, -, htail⟩ | ⟨more, hbegins, -⟩
    · -- What is left behind the sigil begins between the key and the digits, or is digits.
      rcases List.append_eq_append_iff.1 htail with ⟨front, -, hdigits⟩ | ⟨gap, hgap, rfl⟩
      · have hall : ∀ c ∈ t.literal.digitText, Digit.isDigit c := t.literal.digits
        exact hnothing (fun c hc => hall c (hdigits ▸ List.mem_append_right front hc)) hkey
      · cases gap with
        | nil => exact hnothing t.literal.digits hkey
        | cons c gap =>
          have hc := t.isKeyChar_eq_false (c := c) (hgap ▸ by simp)
          rw [List.cons_append, Comparison.readKey_cons_of_not_isKeyChar hc] at hkey
          cases hkey
    · rw [hbegins, Text.after?_append] at h
      cases h

theorem read?_core {sigil : Text} (h : Text.after? sigil t.key = none) :
    Comparison.read? sigil t.core = some ⟨t.key, t.operator, t.literal.ungrouped⟩ := by
  rw [Comparison.read?, t.readFrom_sigil_core h, t.readFrom_nil_core]
  rfl

end FlagTest

namespace Engine

variable {σ : Type}

/-- Integer comparisons mean what they say. Where a flag holds an integer up to `2 ^ 53`, and is
compared with another one that is written with a sign or none, any digits and any blanks around the
key, the operator and the literal, the condition holds if the operator is true of the two, nothing is
reported, and nothing changes. -/
theorem on_holds_flagTest (e : Engine σ) (re : Reentry σ) (t : FlagTest)
    (hkey : Text.after? e.sigil t.key = none) {m : Int} (hm : m.natAbs ≤ 2 ^ 53)
    (hn : t.literal.value.natAbs ≤ 2 ^ 53) {s : State σ} (hflag : s.flags.get t.key = .int m) :
    (e.holds re t.written).on s = (.ok (decide (t.operator.Relates m t.literal.value)), s) := by
  have hliteral := t.literal.ofLiteral_ungrouped (Binary64.exact_of_natAbs_le hn)
  have hanswer := Comparison.holds_int (c := ⟨t.key, t.operator, t.literal.ungrouped⟩)
    (Binary64.exact_of_natAbs_le hm) (Binary64.exact_of_natAbs_le hn) hliteral
  have hvalue : (e.conditionValue re t.key).on s = (.ok (.int m), s) := by
    rw [conditionValue, hkey, ← hflag]
    rfl
  rw [Engine.holds, t.trim_written, t.read?_core hkey]
  dsimp only
  rw [Run.on_bind, hvalue]
  dsimp only
  rw [hanswer]
  rfl

/-- A flag of the cave, against minus seven with zeros in front of it. -/
def caveTest : FlagTest where
  key := "cave.gold"
  word := ">="
  operator := .atLeast
  literal := ⟨['-'], '0', [(false, '0'), (false, '7')], by decide, List.all_eq_true.1 (by decide)⟩
  front := " "
  left := []
  right := "  "
  back := "\n"
  key_ne_nil := by decide
  isKeyChar_of_mem := List.all_eq_true.1 (by decide)
  spelled := by decide
  isBlank_of_mem := List.all_eq_true.1 (by decide)

def caveEngine : Engine Unit where
  settings := .standard
  sigil := "_"
  repair := id
  fragments := none
  conditions := []
  placeholders := []
  actions := []
  callbacks := []

def caveStart (gold : Int) : State Unit where
  flags := FlagStore.set ⟨.text "main", []⟩ "cave.gold" (.int gold)
  bus := []
  talking := none
  depth := 0
  notices := []
  memory := ()

theorem holds_caveTest :
    caveTest.written = " cave.gold>=  -007\n".toList ∧
      (caveEngine.holds (.none Unit) " cave.gold>=  -007\n").on (caveStart (-7)) =
        (.ok true, caveStart (-7)) ∧
      (caveEngine.holds (.none Unit) " cave.gold>=  -007\n").on (caveStart (-8)) =
        (.ok false, caveStart (-8)) := by
  have hkey : Text.after? caveEngine.sigil caveTest.key = none := by decide
  have hvalue : caveTest.literal.value.natAbs ≤ 2 ^ 53 := by decide
  have hflag (gold : Int) : (caveStart gold).flags.get caveTest.key = .int gold :=
    FlagStore.get_set_self _ _ _
  refine ⟨by decide, ?_, ?_⟩
  · exact on_holds_flagTest caveEngine (.none Unit) caveTest hkey (by decide) hvalue (hflag (-7))
  · exact on_holds_flagTest caveEngine (.none Unit) caveTest hkey (by decide) hvalue (hflag (-8))

end Engine

end StoryScript
