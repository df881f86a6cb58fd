import StoryScript.Proofs.Text.Lines
import StoryScript.Proofs.Validation.Positions

/-!
# The line that an issue is shown with

The line of an issue is counted, and its context is the shown line of that number. There is always
such a line, since what the issue is about is no break (`Lines.count_lt_length_splitFrom`). It is
the line of the issue if that one and every line above it are each shown on one line; any other
break puts the contexts of what is behind it on a line too far up. Main statement:
`Validation.context_of_issue`.
-/

namespace StoryScript.Validation

variable {σ : Type}

/-- The place of an issue: the lines above it and what is in front of it on its own line. -/
theorem exists_place {e : Engine σ} {current : Key} {script : Text} {i : Issue}
    (hi : i ∈ (ofScript e current script).issues) :
    ∃ above start c rest, script = Lines.ended above ++ (start ++ c :: rest) ∧
      (∀ l ∈ above, '\n' ∉ l) ∧ '\n' ∉ start ∧ Blank.isBlank c = false ∧
      i.finding.BeginsAt (c :: rest) ∧ i.line = above.length + 1 ∧ i.column = start.length + 1 ∧
      i.context = ((Lines.split script)[above.length]?).map Text.trimRight := by
  obtain ⟨l, hl, rfl⟩ := mem_issues_iff.1 hi
  have hbegins := Check.beginsAt_of_mem_found hl
  obtain ⟨c, rest, hrest, hc⟩ := hbegins.exists_cons
  obtain ⟨above, start, hbefore, habove, hstart⟩ := Lines.exists_ended (script.take l.offset)
  have hscript : script = Lines.ended above ++ (start ++ c :: rest) := by
    rw [← List.append_assoc, ← hbefore, ← hrest, List.take_append_drop]
  have hposition : Lines.position script l.offset = (above.length + 1, start.length + 1) := by
    have hcolumn := congrArg List.length (Lines.rtakeWhile_ended_append above hstart)
    rw [List.rtakeWhile, List.length_reverse] at hcolumn
    simp only [Lines.position, hbefore, hcolumn]
    rw [Lines.count_ended_append habove hstart]
  refine ⟨above, start, c, rest, hscript, habove, hstart, hc, hrest ▸ hbegins, ?_⟩
  simp [Issue.ofLocated, hposition]

/-- Every issue is on a line of the script, where what it is about stands at its column, and has a
context. The context is that line, where no line break is in front of it or on it but the line feeds
that end lines, with or without carriage returns, and breaks among the blanks at its end. -/
theorem context_of_issue (e : Engine σ) (current : Key) (script : Text) {i : Issue}
    (hi : i ∈ (ofScript e current script).issues) :
    ∃ before c rest line, script = before ++ c :: rest ∧ i.finding.BeginsAt (c :: rest) ∧
      i.line = 1 + before.count '\n' ∧
      i.column = 1 + (before.rtakeWhile (· ≠ '\n')).length ∧
      (Text.fields '\n' script)[i.line - 1]? = some line ∧
      line.trimRight[i.column - 1]? = some c ∧
      i.context.isSome ∧
      ((∀ l ∈ (Text.fields '\n' script).take (i.line - 1), Lines.Unbroken (Lines.body l)) →
        Lines.Unbroken line.trimRight → i.context = some line.trimRight) := by
  obtain ⟨above, start, c, rest, hscript, habove, hstart, hc, hbegins, hline, hcolumn, hcontext⟩ :=
    exists_place hi
  have hunbroken : Lines.isBreak c = false :=
    Bool.eq_false_iff.2 fun h => by simp [Lines.isBlank_of_isBreak h] at hc
  have hcount := Lines.count_ended_append habove hstart
  have hnext : (start ++ c :: rest).takeWhile (· ≠ '\n') =
      start ++ c :: rest.takeWhile (· ≠ '\n') := by
    have hfeed : c ≠ '\n' := by
      rintro rfl
      cases hc
    have hinside : ∀ d ∈ start, decide (d ≠ '\n') = true := fun d hd =>
      decide_eq_true (ne_of_mem_of_not_mem hd hstart)
    rw [List.takeWhile_append_of_pos hinside]
    simp [hfeed]
  rw [hline, hcolumn, hcontext, Nat.add_sub_cancel, Nat.add_sub_cancel]
  refine ⟨Lines.ended above ++ start, c, rest, (start ++ c :: rest).takeWhile (· ≠ '\n'),
    by rw [hscript, List.append_assoc], hbegins, by omega, ?_, ?_, ?_, ?_, ?_⟩
  · rw [Lines.rtakeWhile_ended_append above hstart, Nat.add_comm]
  · rw [hscript, Lines.getElem?_fields_ended_append habove]
  · rw [hnext, Text.trimRight_append_cons start hc, List.getElem?_append_right (Nat.le_refl _),
      Nat.sub_self]
    rfl
  · have hshown := Lines.count_lt_length_splitFrom [] (Lines.ended above ++ start) hunbroken rest
    rw [hcount, List.append_assoc, ← hscript] at hshown
    rw [Option.isSome_map, Lines.split, List.getElem?_eq_getElem hshown]
    rfl
  · intro hends hbody
    rw [hscript, Lines.fields_ended_append habove, List.take_left] at hends
    rw [hscript, Lines.getElem?_split_ended_append hends (by simp), Option.map_some,
      ← Lines.firstShown_takeWhile, Lines.trimRight_firstShown hbody]

/-- A script with a carriage return in front of its line feed, and blanks behind its keyword. -/
def returnedText : Text := "Hail\r\n  fi\x7b\x7d \x0c"

/-- The stray keyword is shown on its line. -/
theorem context_of_returnedText :
    ∃ i ∈ (ofScript bare (.text "main") returnedText).issues, i.line = 2 ∧ i.column = 3 ∧
      i.context = some "  fi\x7b\x7d" := by
  have hfound : (Check.run bare (.text "main") returnedText).found = [⟨8, .strayEnd⟩] := rfl
  have hi : Issue.ofLocated returnedText (Lines.split returnedText) ⟨8, .strayEnd⟩ ∈
      (ofScript bare (.text "main") returnedText).issues :=
    mem_issues_iff.2 ⟨⟨8, .strayEnd⟩, by rw [hfound]; exact List.mem_singleton_self _, rfl⟩
  obtain ⟨before, c, rest, line, -, -, -, -, hline, -, -, hcontext⟩ :=
    context_of_issue bare (.text "main") returnedText hi
  obtain rfl : "  fi\x7b\x7d \x0c".toList = line := Option.some.inj hline
  exact ⟨_, hi, rfl, rfl, hcontext (by decide +kernel) (by decide +kernel)⟩

/-- A script of one line on which a form feed is. -/
def pagedText : Text := "Hail\x0cfi\x7b\x7d"

/-- The stray keyword is shown on a part of its line that it is not in. -/
theorem context_of_pagedText :
    ¬ ∀ i ∈ (ofScript bare (.text "main") pagedText).issues, ∃ line,
      (Text.fields '\n' pagedText)[i.line - 1]? = some line ∧
        i.context = some line.trimRight := by
  intro hcontexts
  have hfound : (Check.run bare (.text "main") pagedText).found = [⟨5, .strayEnd⟩] := rfl
  obtain ⟨line, hline, hcontext⟩ := hcontexts _
    (mem_issues_iff.2 ⟨⟨5, .strayEnd⟩, by rw [hfound]; exact List.mem_singleton_self _, rfl⟩)
  obtain rfl : pagedText = line := Option.some.inj hline
  exact absurd (Option.some.inj hcontext : "Hail".toList = pagedText.trimRight) (by decide +kernel)

end StoryScript.Validation
