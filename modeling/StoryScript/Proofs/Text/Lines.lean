import StoryScript.Proofs.Text.Cuts
import StoryScript.Text.Lines

/-!
# Lines of a text

A line is counted where a line feed ends it, and shown where any line break does. What is in front
of a place is some whole lines and the beginning of one (`Lines.exists_ended`). Main statements: a
place that is no break is on a shown line, as far down as it is counted
(`Lines.count_lt_length_splitFrom`), and lines in which there is no break but the carriage return
that may belong to their line feed are shown as they are counted (`Lines.split_ended_append`).
-/

namespace StoryScript.Lines

/-! ## Counted lines -/

/-- Lines as they are written, each with a line feed behind it. -/
def ended (above : List Text) : Text := above.flatMap (· ++ ['\n'])

@[simp] theorem ended_cons (l : Text) (above : List Text) :
    ended (l :: above) = l ++ '\n' :: ended above := by simp [ended]

/-- A text is some lines that are ended and what has been written of the next one. -/
theorem exists_ended (t : Text) :
    ∃ above start, t = ended above ++ start ∧ (∀ l ∈ above, '\n' ∉ l) ∧ '\n' ∉ start := by
  induction t with
  | nil => exact ⟨[], [], rfl, by simp, by simp⟩
  | cons c cs ih =>
    obtain ⟨above, start, rfl, habove, hstart⟩ := ih
    by_cases hc : c = '\n'
    · exact ⟨[] :: above, start, by simp [hc], by simpa using habove, hstart⟩
    · have hne : '\n' ≠ c := Ne.symm hc
      cases above with
      | nil => exact ⟨[], c :: start, rfl, by simp, by simp [hne, hstart]⟩
      | cons l above =>
        obtain ⟨hl, habove⟩ := List.forall_mem_cons.1 habove
        refine ⟨(c :: l) :: above, start, by simp, ?_, hstart⟩
        exact List.forall_mem_cons.2 ⟨by simp [hne, hl], habove⟩

variable {above : List Text}

theorem count_ended_append (h : ∀ l ∈ above, '\n' ∉ l) {start : Text} (hstart : '\n' ∉ start) :
    (ended above ++ start).count '\n' = above.length := by
  induction above with
  | nil => exact List.count_eq_zero.2 hstart
  | cons l above ih =>
    obtain ⟨hl, habove⟩ := List.forall_mem_cons.1 h
    rw [ended_cons, List.append_assoc, List.count_append, List.count_eq_zero.2 hl,
      List.cons_append, List.count_cons_self, ih habove, Nat.zero_add, List.length_cons]

/-- What stands behind the last line feed. -/
theorem rtakeWhile_ended_append (above : List Text) {start : Text} (h : '\n' ∉ start) :
    (ended above ++ start).rtakeWhile (· ≠ '\n') = start := by
  have hended : (ended above).rtakeWhile (· ≠ '\n') = [] := by
    rcases List.eq_nil_or_concat above with rfl | ⟨above, l, rfl⟩
    · rfl
    · simp [ended]
  have hstart : ∀ c ∈ start.reverse, decide (c ≠ '\n') = true := fun c hc =>
    decide_eq_true (ne_of_mem_of_not_mem (List.mem_reverse.1 hc) h)
  unfold List.rtakeWhile at hended ⊢
  rw [List.reverse_append, List.takeWhile_append_of_pos hstart, List.reverse_append, hended,
    List.reverse_reverse, List.nil_append]

theorem fields_ended_append (h : ∀ l ∈ above, '\n' ∉ l) (t : Text) :
    Text.fields '\n' (ended above ++ t) = above ++ Text.fields '\n' t := by
  induction above with
  | nil => rfl
  | cons l above ih =>
    obtain ⟨hl, habove⟩ := List.forall_mem_cons.1 h
    rw [ended_cons, List.append_assoc, List.cons_append, Text.fields_append hl, ih habove,
      List.cons_append]

theorem getElem?_zero_fields (sep : Char) (t : Text) :
    (Text.fields sep t)[0]? = some (t.takeWhile (· ≠ sep)) := by
  obtain ⟨fs, hfs⟩ := Text.exists_fields_eq sep t
  rw [hfs]
  rfl

/-- The line that a text goes on with behind ended lines, as it is counted. -/
theorem getElem?_fields_ended_append (h : ∀ l ∈ above, '\n' ∉ l) (t : Text) :
    (Text.fields '\n' (ended above ++ t))[above.length]? = some (t.takeWhile (· ≠ '\n')) := by
  rw [fields_ended_append h, List.getElem?_append_right (Nat.le_refl _), Nat.sub_self,
    getElem?_zero_fields]

/-! ## Shown lines -/

/-- Whether a text is shown on one line. -/
def Unbroken (t : Text) : Prop := ∀ c ∈ t, isBreak c = false

instance (t : Text) : Decidable (Unbroken t) := List.decidableBAll (isBreak · = false) t

/-- A line that a line feed ends, without the carriage return that may belong to it. -/
def body (l : Text) : Text := if l.getLast? = some '\r' then l.dropLast else l

/-- The first line that is shown of a text. -/
def firstShown (t : Text) : Text := t.takeWhile fun c => !isBreak c

/-- Every line break is a blank. -/
theorem isBlank_of_isBreak {c : Char} (h : isBreak c) : Blank.isBlank c := by
  have hblank : ∀ n ∈ breaks,
      (if n < 0x80 then n == 0x20 || (0x09 ≤ n && n ≤ 0x0D) || (0x1C ≤ n && n ≤ 0x1F)
        else Blank.wideBlanks.contains n : Bool) = true := by decide
  exact hblank _ (List.contains_iff_mem.1 h)

theorem splitFrom_cons_of_isBreak_eq_false {c : Char} (hc : isBreak c = false) (read cs : Text) :
    splitFrom read (c :: cs) = splitFrom (c :: read) cs := by
  rw [splitFrom, if_neg (by simp [hc])]
  rintro cs' rfl
  simp [isBreak, breaks] at hc

theorem splitFrom_append {t : Text} (h : Unbroken t) (read u : Text) :
    splitFrom read (t ++ u) = splitFrom (t.reverse ++ read) u := by
  induction t generalizing read with
  | nil => rfl
  | cons c cs ih =>
    obtain ⟨hc, hcs⟩ := List.forall_mem_cons.1 h
    rw [List.cons_append, splitFrom_cons_of_isBreak_eq_false hc, ih hcs, List.reverse_cons,
      List.append_assoc, List.singleton_append]

/-- A line feed ends a shown line, together with a carriage return in front of it. -/
theorem split_line {l : Text} (h : Unbroken (body l)) (t : Text) :
    split (l ++ '\n' :: t) = body l :: split t := by
  unfold body at h ⊢
  split at h
  · next hreturn =>
    rw [if_pos hreturn]
    obtain ⟨l, rfl⟩ := List.getLast?_eq_some_iff.1 hreturn
    rw [List.dropLast_concat] at h ⊢
    rw [split, List.append_assoc, splitFrom_append h]
    simp [splitFrom, split]
  · next hreturn =>
    rw [if_neg hreturn, split, splitFrom_append h, splitFrom.eq_4]
    · simp [isBreak, breaks, split]
    · simp

/-- Lines without other breaks are shown as they are counted. -/
theorem split_ended_append (h : ∀ l ∈ above, Unbroken (body l)) (t : Text) :
    split (ended above ++ t) = above.map body ++ split t := by
  induction above with
  | nil => rfl
  | cons l above ih =>
    obtain ⟨hl, habove⟩ := List.forall_mem_cons.1 h
    rw [ended_cons, List.append_assoc, List.cons_append, split_line hl, ih habove, List.map_cons,
      List.cons_append]

theorem getElem?_zero_splitFrom {read t : Text} (h : read ≠ [] ∨ t ≠ []) :
    (splitFrom read t)[0]? = some (read.reverse ++ firstShown t) := by
  unfold firstShown
  fun_induction splitFrom read t with
  | case1 => simp at h
  | case2 => simp
  | case3 read cs => simp [isBreak, breaks]
  | case4 read c cs _ hc => simp [hc]
  | case5 read c cs _ hc ih => simp [ih (.inl (List.cons_ne_nil c read)), hc]

theorem getElem?_zero_split {t : Text} (h : t ≠ []) :
    (split t)[0]? = some (firstShown t) :=
  getElem?_zero_splitFrom (.inr h)

/-- The line that a text goes on with behind ended lines, as it is shown. -/
theorem getElem?_split_ended_append (h : ∀ l ∈ above, Unbroken (body l)) {t : Text} (ht : t ≠ []) :
    (split (ended above ++ t))[above.length]? = some (firstShown t) := by
  have hlength : above.length = (above.map body).length := (List.length_map body).symm
  rw [split_ended_append h, hlength, List.getElem?_append_right (Nat.le_refl _), Nat.sub_self,
    getElem?_zero_split ht]

/-- A counted line has the first line that is shown of it in it. -/
theorem firstShown_takeWhile (t : Text) : firstShown (t.takeWhile (· ≠ '\n')) = firstShown t := by
  rw [firstShown, List.takeWhile_takeWhile, firstShown]
  congr 1
  funext c
  by_cases hc : c = '\n'
  · simp [hc, isBreak, breaks]
  · simp [hc]

/-- Breaks among the blanks at the end of a line do not matter. -/
theorem trimRight_firstShown {l : Text} (h : Unbroken l.trimRight) :
    (firstShown l).trimRight = l.trimRight := by
  have hl : l.trimRight ++ l.rtakeWhile Blank.isBlank = l := List.rdropWhile_append_rtakeWhile
  have hkept : ∀ c ∈ l.trimRight, (!isBreak c) = true := fun c hc => by simp [h c hc]
  have hblank : ∀ c ∈ firstShown (l.rtakeWhile Blank.isBlank), Blank.isBlank c = true :=
    fun c hc => List.mem_rtakeWhile_imp ((List.takeWhile_prefix _).subset hc)
  calc
    (firstShown l).trimRight =
        (l.trimRight ++ firstShown (l.rtakeWhile Blank.isBlank)).trimRight := by
      rw [firstShown, firstShown, ← List.takeWhile_append_of_pos hkept, hl]
    _ = l.trimRight.trimRight := by
      rw [Text.trimRight, List.reverse_append, List.dropWhile_append_of_pos]
      · rfl
      · simpa using hblank
    _ = l.trimRight := Text.trimRight_trimRight l

/-- A place that is no break is on a shown line, as far down as it is counted. -/
theorem count_lt_length_splitFrom (read before : Text) {c : Char} (hc : isBreak c = false)
    (rest : Text) : before.count '\n' < (splitFrom read (before ++ c :: rest)).length := by
  generalize ht : before ++ c :: rest = t
  fun_induction splitFrom read t generalizing before with
  | case1 | case2 => simp at ht
  | case3 read cs ih =>
    -- The two characters of one break are both in front of the place.
    rcases before with _ | ⟨d, _ | ⟨d', before⟩⟩
    · obtain ⟨rfl, -⟩ := List.cons.inj ht
      simp [isBreak, breaks] at hc
    · obtain ⟨-, ht⟩ := List.cons.inj ht
      obtain ⟨rfl, -⟩ := List.cons.inj ht
      simp [isBreak, breaks] at hc
    · simp only [List.cons_append, List.cons.injEq] at ht
      obtain ⟨rfl, rfl, ht⟩ := ht
      simpa using ih before ht
  | case4 read d cs _ hd ih =>
    rcases before with _ | ⟨d', before⟩
    · simp
    · simp only [List.cons_append, List.cons.injEq] at ht
      obtain ⟨rfl, ht⟩ := ht
      have hcount : (d' :: before).count '\n' ≤ before.count '\n' + 1 := by
        rw [List.count_cons]
        split <;> omega
      calc
        (d' :: before).count '\n' ≤ before.count '\n' + 1 := hcount
        _ < (splitFrom [] cs).length + 1 := Nat.succ_lt_succ (ih before ht)
  | case5 read d cs _ hd ih =>
    rcases before with _ | ⟨d', before⟩
    · have hshown := getElem?_zero_splitFrom (t := cs) (.inl (List.cons_ne_nil d read))
      exact (List.getElem?_eq_some_iff.1 hshown).1
    · simp only [List.cons_append, List.cons.injEq] at ht
      obtain ⟨rfl, ht⟩ := ht
      have hne : d' ≠ '\n' := by
        rintro rfl
        exact hd rfl
      rw [List.count_cons_of_ne hne]
      exact ih before ht

end StoryScript.Lines
