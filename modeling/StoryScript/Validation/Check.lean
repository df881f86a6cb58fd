import StoryScript.Block.Closing
import StoryScript.Engine.Resolve
import StoryScript.Text.Lines
import StoryScript.Validation.Finding

/-! Checking a script without running it: its placeholders and templates first, then its brace
groups from left to right. Code spans are blanked before, so nothing in them is found and every
position is a position in the script. -/

namespace StoryScript

structure Located where
  offset : Nat
  finding : Finding
deriving Repr

structure ScriptStats where
  chains : Nat
  conditions : Nat
  actionBlocks : Nat
  placeholders : Nat
  templates : Nat
deriving DecidableEq, Repr

def ScriptStats.zero : ScriptStats := ⟨0, 0, 0, 0, 0⟩

structure Check where
  found : List Located
  stats : ScriptStats

namespace Check

def start : Check := ⟨[], .zero⟩

def find (c : Check) (offset : Nat) (finding : Finding) : Check :=
  { c with found := c.found ++ [⟨offset, finding⟩] }

/-- A brace that matters, as a scan from left to right meets it. -/
inductive Brace where
  | strayClosing (offset : Nat)
  | unmatchedOpening (offset : Nat)
  /-- A group, its opening brace, the keyword in front of it and what stands inside. -/
  | group (offset : Nat) (keyword : Option Keyword) (inner : Text)
deriving Repr

/-- The braces of a text of which the front was read already; `read` holds that in reverse, and
`skip` counts the characters of a group that are still to be passed over. Nothing after an
unmatched brace counts. -/
def bracesFrom : (skip : Nat) → (read : Text) → Text → List Brace
  | _, _, [] => []
  | skip + 1, read, c :: cs => bracesFrom skip (c :: read) cs
  | 0, read, c :: cs =>
    if c = '}' then .strayClosing read.length :: bracesFrom 0 (c :: read) cs
    else if c = '{' then
      match Block.closingFrom 0 (c :: cs) with
      | none => [.unmatchedOpening read.length]
      | some n =>
        .group read.length (Keyword.before? (read.take 4).reverse) (cs.take (n - 1)) ::
          bracesFrom n (c :: read) cs
    else bracesFrom 0 (c :: read) cs

def braces (t : Text) : List Brace := bracesFrom 0 [] t

/-- Where a check stands among the chains. -/
inductive Standing where
  | outside
  /-- In a chain that began at a position. -/
  | inside (start : Nat)
  /-- Behind a chain that ended at a position, where it may go on; it began at another. -/
  | after (start gapStart : Nat)
deriving Repr

/-- A chain goes on only directly where it ended. -/
def Standing.at (s : Standing) (offset : Nat) : Standing :=
  match s with
  | .after start gapStart => if gapStart = offset then .after start gapStart else .outside
  | s => s

variable {σ : Type} (e : Engine σ)

def condition (keyword : Keyword) (offset : Nat) (c : Check) (t : Text) : Check :=
  let c := { c with stats.conditions := c.stats.conditions + 1 }
  match Comparison.read? e.sigil t with
  | none => c.find offset (.malformedCondition t keyword)
  | some comparison =>
    let c :=
      match Text.after? e.sigil comparison.key with
      | none => c
      | some _ =>
        match Reference.read? e.sigil comparison.key with
        | none => c.find offset (.malformedCall comparison.key keyword)
        | some r =>
          if e.conditions.contains r.name then c
          else c.find offset (.unregistered .condition r.name)
    if comparison.operator.isOrdering && (Value.ofLiteral comparison.value).isText then
      c.find offset (.orderedText comparison.operator comparison.value)
    else c

def openChain (c : Check) : Check := { c with stats.chains := c.stats.chains + 1 }

/-- Checks a keyword at a position, whose group ends before another. -/
def keyword (k : Keyword) (t : Text) (offset next : Nat) (c : Check) (s : Standing) :
    Check × Standing :=
  match k with
  | .ends =>
    let c := if t.isEmpty then c else c.find offset (.unusedCondition k t)
    match s with
    | .inside start => (c, .after start next)
    | .after start _ => (c.find offset .strayEnd, .after start next)
    | .outside => (c.find offset .strayEnd, .outside)
  | .opens .otherwise =>
    let c := if t.isEmpty then c else c.find offset (.unusedCondition k t)
    match s with
    | .inside start => (c, .inside start)
    | _ => ((c.find offset .strayElse).openChain, .inside offset)
  | .opens _ =>
    let c :=
      if t.isEmpty then c.find offset (.emptyCondition k)
      else (Clause.split t).foldl (condition e k offset) c
    match s with
    | .inside start => (c, .inside start)
    | .after start _ => (c, .inside start)
    | .outside => (c.openChain, .inside offset)

def block (t : Text) (offset : Nat) (c : Check) : Check :=
  let c := { c with stats.actionBlocks := c.stats.actionBlocks + 1 }
  match e.readBlock t with
  | .error problem => c.find offset (.badBlock problem)
  | .ok entries =>
    entries.foldl
      (fun c p =>
        if Gate.isClauseKey p.1 || e.actions.contains p.1 then c
        else c.find offset (.unregistered .action p.1))
      c

/-- Checks braces from left to right, and at the end whether a chain was left open. -/
def braceList (c : Check) (s : Standing) : List Brace → Check
  | [] =>
    match s with
    | .inside start => c.find start .unterminatedChain
    | _ => c
  | .strayClosing offset :: rest => braceList (c.find offset .unmatchedClosing) s rest
  | .unmatchedOpening offset :: rest => braceList (c.find offset .unmatchedOpening) s rest
  | .group offset none inner :: rest =>
    let s := match s with
      | .after .. => .outside
      | s => s
    braceList (block e ('{' :: inner ++ ['}']) offset c) s rest
  | .group offset (some k) inner :: rest =>
    let keywordAt := offset - k.word.length
    let (c, s) := keyword e k inner.trim keywordAt (offset + inner.length + 2) c (s.at keywordAt)
    braceList c s rest

def reference (current : Key) (expression : Text) (offset : Nat) (c : Check) : Check :=
  if expression.head? = some '$' then
    let c := { c with stats.templates := c.stats.templates + 1 }
    match e.loadFragment current expression with
    | .ok _ => c
    | .error failure => c.find offset (.unloadableTemplate expression failure)
  else
    let c := { c with stats.placeholders := c.stats.placeholders + 1 }
    match Reference.read? [] expression with
    | none => c.find offset (.malformedPlaceholder expression)
    | some r =>
      if e.placeholders.contains r.name then c
      else c.find offset (.unregistered .placeholder r.name)

/-- Checks the placeholders and template references among cuts that begin at a position. -/
def references (current : Key) : (offset : Nat) → Check → List Cut → Check
  | _, c, [] => c
  | offset, c, .plain t :: cuts => references current (offset + t.length) c cuts
  | offset, c, .span inner :: cuts =>
    references current (offset + (placeholderMarks.written inner).length)
      (reference e current inner offset c) cuts

def run (current : Key) (t : Text) : Check :=
  let blanked := Code.blank t
  braceList e (references e current 0 .start (placeholderMarks.cut blanked)) .outside
    (braces blanked)

end Check

/-- A finding as it is reported: where in the script it is, and the line it is on. -/
structure Issue where
  line : Nat
  column : Nat
  finding : Finding
  context : Option Text
deriving Repr

namespace Issue

def ofLocated (script : Text) (lines : List Text) (l : Located) : Issue :=
  let (line, column) := Lines.position script l.offset
  ⟨line, column, l.finding, (lines[line - 1]?).map Text.trimRight⟩

/-- Issues are ordered by their positions. -/
def le (i j : Issue) : Bool := i.line < j.line || (i.line == j.line && i.column ≤ j.column)

def severity (i : Issue) : Severity := i.finding.severity

end Issue

structure Validation where
  /-- All issues in order of position; of two at one position an error comes first. -/
  issues : List Issue
  stats : ScriptStats
  lineCount : Nat

namespace Validation

variable {σ : Type}

def ofScript (e : Engine σ) (current : Key) (script : Text) : Validation :=
  let check := Check.run e current script
  let lines := Lines.split script
  let issues := check.found.map (Issue.ofLocated script lines)
  let ofSeverity (s : Severity) : List Issue := issues.filter fun i => i.severity == s
  ⟨(ofSeverity .error ++ ofSeverity .warning).mergeSort Issue.le, check.stats, lines.length⟩

def errors (v : Validation) : List Issue := v.issues.filter fun i => i.severity == .error

def warnings (v : Validation) : List Issue := v.issues.filter fun i => i.severity == .warning

def passed (v : Validation) : Bool := v.errors.isEmpty

end Validation

end StoryScript
