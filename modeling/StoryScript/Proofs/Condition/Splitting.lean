import StoryScript.Condition.Clause
import StoryScript.Proofs.Text.Cuts

/-!
# Where clauses are split

A comma separates two conditions where the parentheses before it balance. That is where it stands
outside all parentheses, as long as every closing one closes another: a stray one puts the balance
out for the rest of the clause. Main statements: a clause is split at the commas where parentheses
balance and nowhere else, which without a stray parenthesis are those outside parentheses
(`Clause.split_separates_outside`), and conditions that were joined are taken apart again
(`Clause.split_join`).
-/

namespace StoryScript

namespace Text

/-! ## Nesting -/

/-- How many of the opening parentheses of a text are not closed yet. A closing one where none is
open is ordinary text. -/
def level (t : Text) : Nat :=
  t.foldl (fun n c => if c = '(' then n + 1 else if c = ')' then n - 1 else n) 0

/-- The parentheses that a text opens less those that it closes. -/
def balance (t : Text) : Int := t.count '(' - t.count ')'

/-- Whether a closing parenthesis stands where none is open. -/
def HasStray (t : Text) : Prop := ∃ front : Text, front ++ [')'] <+: t ∧ front.level = 0

theorem level_concat (t : Text) (c : Char) :
    level (t ++ [c]) = if c = '(' then t.level + 1 else if c = ')' then t.level - 1 else t.level := by
  rw [level, List.foldl_append]
  rfl

theorem balance_append (t u : Text) : balance (t ++ u) = t.balance + u.balance := by
  unfold balance
  rw [List.count_append, List.count_append]
  omega

theorem balance_cons (c : Char) (t : Text) : balance (c :: t) = balance [c] + t.balance :=
  balance_append [c] t

theorem balance_singleton (c : Char) :
    balance [c] = if c = '(' then 1 else if c = ')' then -1 else 0 := by
  unfold balance
  by_cases hopen : c = '('
  · subst hopen
    rfl
  · by_cases hclose : c = ')'
    · subst hclose
      rfl
    · simp [hopen, hclose]

theorem hasStray_concat {t : Text} {c : Char} :
    HasStray (t ++ [c]) ↔ t.HasStray ∨ c = ')' ∧ t.level = 0 := by
  constructor
  · rintro ⟨front, hfront, hlevel⟩
    rcases List.prefix_concat_iff.1 hfront with heq | hfront
    · obtain ⟨rfl, hc⟩ := List.append_inj' heq rfl
      exact .inr ⟨(List.cons.inj hc).1.symm, hlevel⟩
    · exact .inl ⟨front, hfront, hlevel⟩
  · rintro (⟨front, hfront, hlevel⟩ | ⟨rfl, hlevel⟩)
    · exact ⟨front, hfront.trans (List.prefix_append t [c]), hlevel⟩
    · exact ⟨t, List.prefix_rfl, hlevel⟩

theorem HasStray.of_prefix {t u : Text} (h : t.HasStray) (hu : t <+: u) : u.HasStray := by
  obtain ⟨front, hfront, hlevel⟩ := h
  exact ⟨front, hfront.trans hu, hlevel⟩

/-- The balance is the level of nesting up to a stray parenthesis, and below it from there on. -/
theorem balance_eq_or_lt (t : Text) :
    ¬ t.HasStray ∧ t.balance = t.level ∨ t.HasStray ∧ t.balance < t.level := by
  induction t using List.reverseRecOn with
  | nil =>
    refine .inl ⟨?_, rfl⟩
    rintro ⟨front, hfront, -⟩
    simp at hfront
  | append_singleton t c ih =>
    rw [hasStray_concat, balance_append, balance_singleton, level_concat]
    by_cases hopen : c = '('
    · have hclose : c ≠ ')' := by rw [hopen]; decide
      simp only [hopen, if_true] at hclose ⊢
      rcases ih with ⟨hstray, hbalance⟩ | ⟨hstray, hbalance⟩
      · exact .inl ⟨by simp [hstray], by omega⟩
      · exact .inr ⟨.inl hstray, by omega⟩
    · by_cases hclose : c = ')'
      · simp only [hclose, if_true, true_and]
        rw [if_neg (by decide), if_neg (by decide)]
        rcases ih with ⟨hstray, hbalance⟩ | ⟨hstray, hbalance⟩
        · by_cases hlevel : level t = 0
          · exact .inr ⟨.inr hlevel, by omega⟩
          · exact .inl ⟨by simp [hstray, hlevel], by omega⟩
        · exact .inr ⟨.inl hstray, by omega⟩
      · simp only [hopen, hclose, if_false, false_and, or_false]
        rcases ih with ⟨hstray, hbalance⟩ | ⟨hstray, hbalance⟩
        · exact .inl ⟨hstray, by omega⟩
        · exact .inr ⟨hstray, by omega⟩

theorem hasStray_iff {t : Text} : t.HasStray ↔ t.balance < t.level := by
  rcases t.balance_eq_or_lt with ⟨hnone, hbalance⟩ | ⟨hstray, hbalance⟩
  · exact ⟨fun h => absurd h hnone, fun h => absurd hbalance (Int.ne_of_lt h)⟩
  · exact ⟨fun _ => hbalance, fun _ => hstray⟩

instance (t : Text) : Decidable t.HasStray := decidable_of_iff _ hasStray_iff.symm

theorem balance_eq {t : Text} (h : ¬ t.HasStray) : t.balance = t.level := by
  rcases t.balance_eq_or_lt with ⟨-, heq⟩ | ⟨hstray, -⟩
  · exact heq
  · exact absurd hstray h

/-! ## Commas -/

/-- Whether a comma outside all parentheses stands at a position. -/
def isOutside (t : Text) (i : Nat) : Bool := t[i]? = some ',' && level (t.take i) = 0

/-- Whether a comma stands at a position before which parentheses balance. -/
def isBalanced (t : Text) (i : Nat) : Bool := t[i]? = some ',' && balance (t.take i) = 0

theorem isOutside_of_length_le {t : Text} {i : Nat} (h : t.length ≤ i) : t.isOutside i = false := by
  simp [isOutside, List.getElem?_eq_none h]

theorem isBalanced_eq {t : Text} {i : Nat} (h : ¬ HasStray (t.take i)) :
    t.isBalanced i = t.isOutside i := by
  have hbalance := balance_eq h
  unfold isBalanced isOutside
  congr 1
  exact decide_eq_decide.2 (by omega)

/-- Behind a stray parenthesis, a comma outside parentheses is never one where they balance. -/
theorem not_isBalanced_of_isOutside {t : Text} {i : Nat} (hstray : HasStray (t.take i))
    (h : t.isOutside i) : t.isBalanced i = false := by
  have hlevel : level (t.take i) = 0 := by simpa using (Bool.and_eq_true_iff.1 h).2
  rcases balance_eq_or_lt (t.take i) with ⟨hnone, -⟩ | ⟨-, hlt⟩
  · exact absurd hstray hnone
  · have hbalance : balance (t.take i) ≠ 0 := by omega
    simp [isBalanced, hbalance]

/-- What stands between the positions of a text that separate. -/
def piecesAt (separates : Nat → Bool) (t : Text) : List Text :=
  (t.zipIdx.splitOnP fun c => separates c.2).map (·.map Prod.fst)

theorem piecesAt_congr {separates separates' : Nat → Bool} {t : Text}
    (h : ∀ i, separates i = separates' i) : t.piecesAt separates = t.piecesAt separates' := by
  rw [funext h]

end Text

namespace Clause

open Text

/-- Texts without the last one if there is nothing in it. -/
def withoutBlankEnd (ts : List Text) : List Text := if ts.getLast? = some [] then ts.dropLast else ts

theorem withoutBlankEnd_cons (t : Text) {ts : List Text} (h : ts ≠ []) :
    withoutBlankEnd (t :: ts) = t :: withoutBlankEnd ts := by
  obtain ⟨u, us, rfl⟩ := List.exists_cons_of_ne_nil h
  unfold withoutBlankEnd
  rw [List.getLast?_cons_cons]
  split <;> rfl

/-- The commas that separate, as they are met behind what was read already: `read` is what was read
since the last of them, in reverse. -/
theorem splitFrom_eq_pieces (front read t : Text) :
    splitFrom front.balance read t = withoutBlankEnd
      (((((t.zipIdx front.length).splitOnP fun c => isBalanced (front ++ t) c.2).map
        (·.map Prod.fst)).modifyHead (read.reverse ++ ·)).map trim) := by
  induction t generalizing front read with
  | nil =>
    rw [splitFrom]
    simp only [List.zipIdx_nil, List.splitOnP_nil, List.map_cons, List.map_nil, List.modifyHead_cons,
      List.append_nil, withoutBlankEnd, List.getLast?_singleton, Option.some.injEq,
      List.isEmpty_iff, List.dropLast_singleton]
  | cons c cs ih =>
    have hrest := ih (front ++ [c])
    have hdepth : balance (front ++ [c]) =
        if c = '(' then front.balance + 1 else if c = ')' then front.balance - 1
        else front.balance := by
      rw [balance_append, balance_singleton]
      split_ifs <;> omega
    have hwhole : front ++ [c] ++ cs = front ++ c :: cs := by simp
    rw [hwhole, List.length_append, List.length_singleton, hdepth] at hrest
    -- Whether the character is a comma, the balance before it is the balance behind it.
    have hseparates : isBalanced (front ++ c :: cs) front.length = true ↔
        c = ',' ∧ (if c = '(' then front.balance + 1 else if c = ')' then front.balance - 1
          else front.balance) = 0 := by
      rw [isBalanced, List.getElem?_append_right (Nat.le_refl _), Nat.sub_self, List.take_left]
      by_cases hc : c = ','
      · subst hc
        simp
      · simp [hc]
    rw [splitFrom, List.zipIdx_cons, List.splitOnP_cons_eq_if_modifyHead]
    generalize hpieces : (List.splitOnP (fun c' => isBalanced (front ++ c :: cs) c'.2)
      (cs.zipIdx (front.length + 1))) = pieces at hrest ⊢
    obtain ⟨piece, pieces, rfl⟩ : ∃ piece more, pieces = piece :: more :=
      List.exists_cons_of_ne_nil (hpieces ▸ List.splitOnP_ne_nil _ _)
    by_cases hc : isBalanced (front ++ c :: cs) front.length
    · rw [if_pos (hseparates.1 hc), if_pos hc, hrest []]
      simp only [List.map_cons, List.map_nil, List.modifyHead_cons, List.append_nil,
        List.reverse_nil, List.nil_append]
      exact (withoutBlankEnd_cons _ (List.cons_ne_nil _ _)).symm
    · rw [if_neg (mt hseparates.2 hc), if_neg hc, hrest (c :: read)]
      simp only [List.map_cons, List.modifyHead_cons, List.reverse_cons, List.append_assoc,
        List.singleton_append]

/-- A clause is split where parentheses balance. -/
theorem split_eq_pieces (t : Text) :
    split t = withoutBlankEnd ((t.piecesAt t.isBalanced).map trim) := by
  have h := splitFrom_eq_pieces [] [] t
  have hhead (ts : List Text) : ts.modifyHead ([] ++ ·) = ts := by cases ts <;> rfl
  rw [List.reverse_nil, hhead] at h
  exact h

/-- Where a clause is split. It is split at the commas before which parentheses balance, into the
pieces between them without blanks at their ends, but for a blank last one. Up to a stray closing
parenthesis these are the commas outside parentheses, and behind one no comma is both, so a clause
without any is split at the commas outside parentheses and nowhere else. -/
theorem split_separates_outside (t : Text) :
    split t = withoutBlankEnd ((t.piecesAt t.isBalanced).map trim) ∧
      (∀ i, ¬ HasStray (t.take i) → t.isBalanced i = t.isOutside i) ∧
      (∀ i, HasStray (t.take i) → t.isOutside i → t.isBalanced i = false) ∧
      (¬ t.HasStray → split t = withoutBlankEnd ((t.piecesAt t.isOutside).map trim)) := by
  refine ⟨split_eq_pieces t, fun i => isBalanced_eq, fun i => not_isBalanced_of_isOutside,
    fun hstray => ?_⟩
  have hsame : ∀ i, t.isBalanced i = t.isOutside i := fun i =>
    isBalanced_eq fun h => hstray (h.of_prefix (List.take_prefix i t))
  rw [split_eq_pieces, piecesAt_congr hsame]

/-- A comma between arguments does not separate, and nothing stands for the blank end. -/
theorem split_guardedClause :
    ¬ HasStray "_near(ann, (the) inn) = true, gold > 1, " ∧
      withoutBlankEnd ((piecesAt (isOutside "_near(ann, (the) inn) = true, gold > 1, ")
        "_near(ann, (the) inn) = true, gold > 1, ").map trim) =
        ["_near(ann, (the) inn) = true".toList, "gold > 1".toList] ∧
      split "_near(ann, (the) inn) = true, gold > 1, " =
        ["_near(ann, (the) inn) = true".toList, "gold > 1".toList] := by
  have hstray : ¬ HasStray "_near(ann, (the) inn) = true, gold > 1, " := by decide
  have hpieces : withoutBlankEnd ((piecesAt (isOutside "_near(ann, (the) inn) = true, gold > 1, ")
      "_near(ann, (the) inn) = true, gold > 1, ").map trim) =
      ["_near(ann, (the) inn) = true".toList, "gold > 1".toList] := by decide +kernel
  obtain ⟨-, -, -, houtside⟩ := split_separates_outside "_near(ann, (the) inn) = true, gold > 1, "
  exact ⟨hstray, hpieces, (houtside hstray).trans hpieces⟩

/-- Behind a stray parenthesis, a comma outside parentheses does not separate, and one inside
parentheses may. -/
theorem split_behind_stray :
    (split "a),b" = ["a),b".toList] ∧
      withoutBlankEnd ((piecesAt (isOutside "a),b") "a),b").map trim) =
        ["a)".toList, "b".toList]) ∧
    (split ")(a,b" = [")(a".toList, "b".toList] ∧
      withoutBlankEnd ((piecesAt (isOutside ")(a,b") ")(a,b").map trim) = [")(a,b".toList]) := by
  decide +kernel

/-! ## Conditions put together -/

/-- A text is one condition of a clause: its parentheses match, no comma stands outside them, and it
is not blank. -/
structure IsCondition (c : Text) : Prop where
  not_hasStray : ¬ c.HasStray
  level_eq : c.level = 0
  not_isOutside : ∀ i, c.isOutside i = false
  trim_ne_nil : c.trim ≠ []

theorem isCondition_iff {c : Text} : IsCondition c ↔
    ¬ c.HasStray ∧ c.level = 0 ∧ (∀ i < c.length, c.isOutside i = false) ∧ c.trim ≠ [] := by
  constructor
  · intro h
    exact ⟨h.not_hasStray, h.level_eq, fun i _ => h.not_isOutside i, h.trim_ne_nil⟩
  · rintro ⟨hstray, hlevel, hcomma, htrim⟩
    refine ⟨hstray, hlevel, fun i => ?_, htrim⟩
    rcases Nat.lt_or_ge i c.length with hi | hi
    · exact hcomma i hi
    · exact isOutside_of_length_le hi

instance (c : Text) : Decidable (IsCondition c) := decidable_of_iff _ isCondition_iff.symm

/-- A text in which no comma separates is read as a whole. -/
theorem splitFrom_append {u : Text} (v : Text) {depth : Int} (read : Text)
    (h : ∀ front rest, u = front ++ ',' :: rest → depth + balance front ≠ 0) :
    splitFrom depth read (u ++ v) = splitFrom (depth + balance u) (u.reverse ++ read) v := by
  induction u generalizing depth read with
  | nil => simp [balance]
  | cons c u ih =>
    have hdepth : (if c = '(' then depth + 1 else if c = ')' then depth - 1 else depth) =
        depth + balance [c] := by
      rw [balance_singleton]
      split_ifs <;> omega
    have hcomma : ¬ (c = ',' ∧ depth + balance [c] = 0) := by
      rintro ⟨rfl, hzero⟩
      exact h [] u rfl hzero
    have hrest : ∀ front rest, u = front ++ ',' :: rest →
        depth + balance [c] + balance front ≠ 0 := by
      rintro front rest rfl
      have hne := h (c :: front) rest rfl
      rwa [balance_cons c front, ← Int.add_assoc] at hne
    rw [List.cons_append, splitFrom]
    simp only [hdepth, if_neg hcomma]
    rw [ih (c :: read) hrest, balance_cons c u, Int.add_assoc, List.reverse_cons, List.append_assoc,
      List.singleton_append]

theorem IsCondition.splitFrom {c : Text} (hc : IsCondition c) (v : Text) :
    Clause.splitFrom 0 [] (c ++ v) = Clause.splitFrom 0 c.reverse v := by
  have hcomma : ∀ front rest, c = front ++ ',' :: rest → 0 + balance front ≠ 0 := by
    intro front rest hfront
    have hbegins : front <+: c := ⟨_, hfront.symm⟩
    have hbalance := balance_eq fun hstray => hc.not_hasStray (hstray.of_prefix hbegins)
    have hlevel := hc.not_isOutside front.length
    rw [isOutside, hfront, List.take_left, List.getElem?_append_right (Nat.le_refl _),
      Nat.sub_self] at hlevel
    have hpositive : level front ≠ 0 := by simpa using hlevel
    omega
  have hbalance := balance_eq hc.not_hasStray
  rw [hc.level_eq] at hbalance
  rw [splitFrom_append v [] hcomma, hbalance, List.append_nil]
  rfl

/-- Conditions that were joined are taken apart again. -/
theorem split_join {cs : List Text} (h : ∀ c ∈ cs, IsCondition c) :
    split (Text.join [','] cs) = cs.map trim := by
  induction cs with
  | nil => rfl
  | cons c cs ih =>
    obtain ⟨hc, hcs⟩ := List.forall_mem_cons.1 h
    cases cs with
    | nil =>
      have hend := hc.splitFrom []
      rw [List.append_nil] at hend
      rw [split, Text.join, hend, Clause.splitFrom]
      simp only [List.reverse_reverse, List.isEmpty_iff, hc.trim_ne_nil, if_false, List.map_cons,
        List.map_nil]
    | cons d ds =>
      rw [split, Text.join, List.append_assoc, hc.splitFrom, List.singleton_append,
        Clause.splitFrom, List.map_cons, ← ih hcs]
      simp only [List.reverse_reverse]
      rfl

theorem eq_nil_of_join_eq_nil {cs : List Text} (h : ∀ c ∈ cs, IsCondition c)
    (hjoin : Text.join [','] cs = []) : cs = [] := by
  have hsplit := split_join h
  rw [hjoin] at hsplit
  exact List.map_eq_nil_iff.1 hsplit.symm

end Clause

end StoryScript
