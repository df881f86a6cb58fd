import StoryScript.Text.Terminal
import StoryScript.Validation.Check

/-! The report of a check as it is shown on a terminal: errors, warnings, a summary and counts. -/

namespace StoryScript.Report

open Terminal

def line (t : Text) : Text := t ++ ['\n']

def rule (width : Nat) (c : Char) : Text := List.replicate width c

def heading (name : Text) : Text :=
  line ("\n" ++ bold ++ rule 80 '=' ++ reset) ++
    line (bold ++ "VALIDATION REPORT: " ++ cyan ++ name ++ reset) ++
    line (bold ++ rule 80 '=' ++ reset)

/-- The line an issue is on, with a pointer to its column. -/
def context (colour : Text) (i : Issue) : Text :=
  match i.context with
  | none | some [] => []
  | some t =>
    line ("    " ++ colour ++ Text.padLeft 4 (Text.ofNat i.line) ++ reset ++ " │ " ++ t) ++
      line ("         │ " ++ rule (i.column - 1) ' ' ++ colour ++ "▲" ++ reset)

def suggestion (i : Issue) : Text :=
  match i.finding.suggestion? with
  | none => []
  | some t => line ("    " ++ cyan ++ "💡 Suggestion:" ++ reset ++ " " ++ t)

def issue (colour : Text) (i : Issue) : Text :=
  line ("\n  " ++ colour ++ bold ++ "Line " ++ Text.ofNat i.line ++ reset ++ ":" ++
      Text.ofNat i.column ++ " - " ++ bold ++ i.finding.message ++ reset) ++
    context colour i ++ suggestion i

def issues (colour title : Text) (is : List Issue) : Text :=
  if is.isEmpty then []
  else
    line ("\n" ++ colour ++ bold ++ title ++ " (" ++ Text.ofNat is.length ++ "):" ++ reset) ++
      line (colour ++ rule 60 '━' ++ reset) ++ is.flatMap (issue colour)

def count (title : Text) (n : Nat) : Text :=
  line ("  • " ++ title ++ ": " ++ cyan ++ Text.ofNat n ++ reset)

def statistics (v : Validation) : Text :=
  line ("\n" ++ bold ++ blue ++ "📊 STATISTICS:" ++ reset) ++
    line (blue ++ rule 40 '─' ++ reset) ++
    count "Conditional chains" v.stats.chains ++
    count "Conditions" v.stats.conditions ++
    count "Action blocks" v.stats.actionBlocks ++
    count "Placeholders" v.stats.placeholders ++
    count "Templates" v.stats.templates ++
    count "Total lines" v.lineCount

def summary (v : Validation) : Text :=
  line ("\n" ++ bold ++ rule 80 '=' ++ reset) ++
    line (bold ++ "Summary:" ++ reset ++ " " ++ red ++ Text.ofNat v.errors.length ++
      " error(s)" ++ reset ++ ", " ++ yellow ++ Text.ofNat v.warnings.length ++ " warning(s)" ++
      reset) ++
    line (if v.passed then green ++ bold ++ "✅ VALIDATION PASSED WITH WARNINGS" ++ reset
      else red ++ bold ++ "❌ VALIDATION FAILED" ++ reset)

/-- The report on a script of the given name, in colours. -/
def write (name : Text) (v : Validation) : Text :=
  if v.issues.isEmpty then
    heading name ++
      line ("\n" ++ green ++ bold ++ "✅ VALIDATION PASSED - No issues found!" ++ reset) ++
      statistics v
  else
    heading name ++ issues red "❌ ERRORS" v.errors ++ issues yellow "⚠️  WARNINGS" v.warnings ++
      summary v ++ statistics v

/-- What is said of a script that is not there. -/
def missing (name : Text) : Text := line ("❌ File not found: " ++ name)

end StoryScript.Report
