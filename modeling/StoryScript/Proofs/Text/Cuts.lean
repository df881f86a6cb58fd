import Mathlib.Data.List.DropRight
import StoryScript.Text.Basic

/-!
# Trimming and cutting texts

Trimming takes the blanks off both ends, in either order, and goes no further than a character that
is no blank (`Text.trim_append_cons`). Main statements: a text is cut at the first occurrence of a
character (`Text.cut?_append`) or at its last (`Text.cutLast?_append`), fields that were joined are
taken apart again (`Text.fields_join`), and a phrase is replaced where it stands in front
(`Text.replace_append`).
-/

namespace StoryScript.Text

open Blank (isBlank)

/-! ## Trimming -/

theorem trimLeft_trimLeft (t : Text) : trimLeft (trimLeft t) = trimLeft t :=
  List.dropWhile_idempotent isBlank t

theorem trimRight_trimRight (t : Text) : trimRight (trimRight t) = trimRight t :=
  List.rdropWhile_idempotent isBlank t

theorem trimLeft_append_cons (t : Text) {c : Char} (hc : isBlank c = false) (u : Text) :
    trimLeft (t ++ c :: u) = trimLeft t ++ c :: u := by
  induction t with
  | nil => simp [trimLeft, hc]
  | cons d ds ih =>
    unfold trimLeft at ih ⊢
    by_cases hd : isBlank d <;> simp [hd, ih]

theorem trimRight_append_cons (t : Text) {c : Char} (hc : isBlank c = false) (u : Text) :
    trimRight (t ++ c :: u) = t ++ c :: trimRight u := by
  have h := trimLeft_append_cons u.reverse hc t.reverse
  unfold trimLeft at h
  unfold trimRight
  simp [h]

/-- Blanks may be taken off either end first. -/
theorem trimLeft_trimRight (t : Text) : trimLeft (trimRight t) = trimRight (trimLeft t) := by
  induction t with
  | nil => rfl
  | cons c cs ih =>
    by_cases hc : isBlank c
    · have hleft : trimLeft (c :: cs) = trimLeft cs := List.dropWhile_cons_of_pos hc
      rw [hleft, ← ih]
      -- A blank in front is left over on the right only where something else is.
      have hright : trimRight (c :: cs) = trimRight cs ∨
          trimRight (c :: cs) = c :: trimRight cs := by
        unfold trimRight
        rw [List.reverse_cons, List.dropWhile_append]
        split
        · next hall =>
          refine .inl ?_
          rw [List.dropWhile_cons_of_pos hc, List.isEmpty_iff.1 hall]
          rfl
        · exact .inr (by simp)
      rcases hright with h | h <;> rw [h]
      exact List.dropWhile_cons_of_pos hc
    · have hc : isBlank c = false := by simpa using hc
      have hright : trimRight (c :: cs) = c :: trimRight cs := trimRight_append_cons [] hc cs
      rw [trimLeft, trimLeft, List.dropWhile_cons_of_neg (by simp [hc]), hright,
        List.dropWhile_cons_of_neg (by simp [hc])]

theorem trim_trimLeft (t : Text) : trim (trimLeft t) = trim t := by
  rw [trim, trimLeft_trimLeft, trim]

theorem trim_trimRight (t : Text) : trim (trimRight t) = trim t := by
  rw [trim, trimLeft_trimRight, trimRight_trimRight, trim]

theorem trim_trim (t : Text) : trim (trim t) = trim t :=
  (trim_trimRight (trimLeft t)).trans (trim_trimLeft t)

/-- A character that is no blank keeps the two sides of it apart. -/
theorem trim_append_cons (t : Text) {c : Char} (hc : isBlank c = false) (u : Text) :
    trim (t ++ c :: u) = trimLeft t ++ c :: trimRight u := by
  rw [trim, trimLeft_append_cons t hc, trimRight_append_cons _ hc]

theorem mem_of_mem_trimLeft {t : Text} {c : Char} (h : c ∈ trimLeft t) : c ∈ t :=
  (List.dropWhile_suffix isBlank).subset h

theorem mem_of_mem_trimRight {t : Text} {c : Char} (h : c ∈ trimRight t) : c ∈ t :=
  (List.rdropWhile_prefix isBlank t).subset h

theorem mem_trimLeft {t : Text} {c : Char} (hc : isBlank c = false) (h : c ∈ t) :
    c ∈ trimLeft t := by
  obtain ⟨front, back, rfl⟩ := List.append_of_mem h
  rw [trimLeft_append_cons front hc]
  simp

theorem mem_trimRight {t : Text} {c : Char} (hc : isBlank c = false) (h : c ∈ t) :
    c ∈ trimRight t := by
  obtain ⟨front, back, rfl⟩ := List.append_of_mem h
  rw [trimRight_append_cons front hc]
  simp

/-- Only blanks are taken off. -/
theorem mem_trim {t : Text} {c : Char} (hc : isBlank c = false) (h : c ∈ t) : c ∈ trim t :=
  mem_trimRight hc (mem_trimLeft hc h)

/-! ## Cutting -/

variable {sep : Char}

theorem after?_append (start rest : Text) : after? start (start ++ rest) = some rest := by
  induction start with
  | nil => rfl
  | cons c cs ih => rw [List.cons_append, after?, if_pos rfl, ih]

theorem cut?_of_not_mem {t : Text} (h : sep ∉ t) : cut? sep t = none := by
  induction t with
  | nil => rfl
  | cons c cs ih =>
    obtain ⟨hc, hcs⟩ := not_or.1 (mt List.mem_cons.2 h)
    rw [cut?, if_neg (Ne.symm hc), ih hcs]
    rfl

/-- A text is cut at the first occurrence of a character. -/
theorem cut?_append {t : Text} (h : sep ∉ t) (u : Text) :
    cut? sep (t ++ sep :: u) = some (t, u) := by
  induction t with
  | nil => simp [cut?]
  | cons c cs ih =>
    obtain ⟨hc, hcs⟩ := not_or.1 (mt List.mem_cons.2 h)
    rw [List.cons_append, cut?, if_neg (Ne.symm hc), ih hcs]
    rfl

theorem cutLast?_of_not_mem {t : Text} (h : sep ∉ t) : cutLast? sep t = none := by
  induction t with
  | nil => rfl
  | cons c cs ih =>
    obtain ⟨hc, hcs⟩ := not_or.1 (mt List.mem_cons.2 h)
    rw [cutLast?, ih hcs]
    exact if_neg (Ne.symm hc)

/-- A text is cut at the last occurrence of a character. -/
theorem cutLast?_append (t : Text) {u : Text} (h : sep ∉ u) :
    cutLast? sep (t ++ sep :: u) = some (t, u) := by
  induction t with
  | nil => simp [cutLast?, cutLast?_of_not_mem h]
  | cons c cs ih => rw [List.cons_append, cutLast?, ih]

/-- The first field is what stands in front of the first separator. -/
theorem exists_fields_eq (sep : Char) (t : Text) :
    ∃ fs, fields sep t = t.takeWhile (· ≠ sep) :: fs := by
  induction t with
  | nil => exact ⟨[], rfl⟩
  | cons c cs ih =>
    obtain ⟨fs, hfs⟩ := ih
    by_cases hc : c = sep
    · exact ⟨fields sep cs, by simp [fields, hc]⟩
    · exact ⟨fs, by simp [fields, hc, hfs]⟩

theorem fields_of_not_mem {t : Text} (h : sep ∉ t) : fields sep t = [t] := by
  induction t with
  | nil => rfl
  | cons c cs ih =>
    obtain ⟨hc, hcs⟩ := not_or.1 (mt List.mem_cons.2 h)
    rw [fields, if_neg (Ne.symm hc), ih hcs]

theorem fields_append {t : Text} (h : sep ∉ t) (u : Text) :
    fields sep (t ++ sep :: u) = t :: fields sep u := by
  induction t with
  | nil => simp [fields]
  | cons c cs ih =>
    obtain ⟨hc, hcs⟩ := not_or.1 (mt List.mem_cons.2 h)
    rw [List.cons_append, fields, if_neg (Ne.symm hc), ih hcs]

/-- Fields that were joined are taken apart again; of no fields there is an empty one. -/
theorem fields_join {ts : List Text} (h : ∀ t ∈ ts, sep ∉ t) :
    fields sep (join [sep] ts) = if ts.isEmpty then [[]] else ts := by
  fun_induction join [sep] ts with
  | case1 => rfl
  | case2 t => exact fields_of_not_mem (h t List.mem_cons_self)
  | case3 t u ts ih =>
    obtain ⟨ht, hts⟩ := List.forall_mem_cons.1 h
    rw [List.append_assoc, List.singleton_append, fields_append ht, ih hts]
    rfl

/-- What no separator is in goes to the first field. -/
theorem fields_append_of_not_mem {t : Text} (h : sep ∉ t) (u : Text) :
    fields sep (t ++ u) = (fields sep u).modifyHead (t ++ ·) := by
  obtain ⟨fs, hfs⟩ := exists_fields_eq sep u
  induction t with
  | nil => rw [List.nil_append, hfs]; rfl
  | cons c cs ih =>
    obtain ⟨hc, hcs⟩ := not_or.1 (mt List.mem_cons.2 h)
    rw [List.cons_append, fields, if_neg (Ne.symm hc), ih hcs, hfs]
    rfl

/-! ## Replacing -/

variable {phrase : Text} (replacement : Text)

theorem replaceFrom_length (t u : Text) :
    replaceFrom phrase replacement t.length (t ++ u) = replace phrase replacement u := by
  induction t with
  | nil => rfl
  | cons c t ih => exact ih

/-- A phrase is replaced where it stands in front. -/
theorem replace_append (h : phrase ≠ []) (t : Text) :
    replace phrase replacement (phrase ++ t) = replacement ++ replace phrase replacement t := by
  obtain ⟨c, cs, rfl⟩ := List.exists_cons_of_ne_nil h
  have hafter : after? (c :: cs) (c :: (cs ++ t)) = some t := after?_append (c :: cs) t
  rw [List.cons_append, replace, replaceFrom, hafter]
  simp only [List.length_cons, Nat.add_sub_cancel]
  rw [replaceFrom_length]

theorem replace_cons_of_after? {c : Char} {t : Text} (h : after? phrase (c :: t) = none) :
    replace phrase replacement (c :: t) = c :: replace phrase replacement t := by
  rw [replace, replaceFrom, h]
  rfl

/-- What the phrase does not begin in stands for itself. -/
theorem replace_append_of_not_mem {m : Char} (hphrase : phrase.head? = some m) {t : Text}
    (ht : m ∉ t) (u : Text) :
    replace phrase replacement (t ++ u) = t ++ replace phrase replacement u := by
  obtain ⟨ms, rfl⟩ := List.head?_eq_some_iff.1 hphrase
  induction t with
  | nil => rfl
  | cons c t ih =>
    obtain ⟨hc, ht⟩ := not_or.1 (mt List.mem_cons.2 ht)
    have hnone : after? (m :: ms) (c :: (t ++ u)) = none := by rw [after?, if_neg hc]
    rw [List.cons_append, replace_cons_of_after? replacement hnone, ih ht, List.cons_append]

end StoryScript.Text
