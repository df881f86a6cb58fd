import StoryScript.CommandLine.Run
import StoryScript.Outer.Lenient
import StoryScript.Text.Terminal

/-! What stands around the commands: which command a command line names, with its text or file and
its options, and how what a command writes is shown. Options may stand before or after the text, a
value may be attached to its option, and after a double dash nothing is an option any more. -/

namespace StoryScript

namespace Terminal

def isArgument (c : Char) : Bool := c.isDigit || c == ';' || c == '?'

/-- The number of characters of the control sequence that begins a text, or zero. -/
def sequenceLength : Text → Nat
  | e :: '[' :: rest =>
    if e = escape then
      match (rest.dropWhile isArgument).head? with
      | some c => if c.isAlpha then (rest.takeWhile isArgument).length + 3 else 0
      | none => 0
    else 0
  | _ => 0

/-- The text without its control sequences; `skip` counts the characters of one that are still to
be passed over. -/
def stripFrom : (skip : Nat) → Text → Text
  | _, [] => []
  | skip + 1, _ :: cs => stripFrom skip cs
  | 0, c :: cs =>
    match sequenceLength (c :: cs) with
    | 0 => c :: stripFrom 0 cs
    | n + 1 => stripFrom n cs

def strip (t : Text) : Text := stripFrom 0 t

/-- A text as a stream is shown it that may have no colours. -/
def shown (colour : Bool) (t : Text) : Text := if colour then t else strip t

end Terminal

namespace Command

/-- How an option is spelled and whether a value belongs to it. -/
structure OptionSpec where
  long : Text
  short : Option Char
  takesValue : Bool

/-- What the words of a command line come to: values by the long names of their options, and plain
words, both in order. -/
structure Sorted where
  values : List (Text × Text)
  words : List Text

namespace Sorted

def empty : Sorted := ⟨[], []⟩

def addValues (values : List (Text × Text)) (s : Sorted) : Sorted :=
  { s with values := values ++ s.values }

def addWord (word : Text) (s : Sorted) : Sorted := { s with words := word :: s.words }

def value? (s : Sorted) (name : Text) : Option Text :=
  (s.values.reverse.find? fun v => v.1 == name).map Prod.snd

end Sorted

/-- What an option word says: values of options, empty for those that take none, and the option
whose value is the next word, if there is one. -/
structure OptionWord where
  values : List (Text × Text)
  waiting : Option Text

/-- Reads short options written in one word; the rest of the word is the value of one that takes
a value. -/
def readShort (specs : List OptionSpec) : Text → Option OptionWord
  | [] => some ⟨[], none⟩
  | c :: cs =>
    match specs.find? fun s => s.short == some c with
    | none => none
    | some s =>
      if s.takesValue then
        some (if cs.isEmpty then ⟨[], some s.long⟩ else ⟨[(s.long, cs)], none⟩)
      else (readShort specs cs).map fun w => { w with values := (s.long, []) :: w.values }

/-- Reads a word that begins with a dash and is longer than that. -/
def readOption (specs : List OptionSpec) (word : Text) : Option OptionWord :=
  let (name, attached) : Text × Option Text :=
    match Text.cut? '=' word with
    | some (name, value) => (name, some value)
    | none => (word, none)
  match specs.find? fun s => s.long == name with
  | some s =>
    match s.takesValue, attached with
    | true, some value => some ⟨[(s.long, value)], none⟩
    | true, none => some ⟨[], some s.long⟩
    | false, none => some ⟨[(s.long, [])], none⟩
    | false, some _ => none
  | none => if word.take 2 == ['-', '-'] then none else readShort specs (word.drop 1)

def isOption (word : Text) : Bool := word.head? == some '-' && 1 < word.length

/-- Sorts the words of a command line. Unless options may follow plain words, sorting ends at the
first of these and leaves the words from it on. A word that `waiting` names an option for is its
value. -/
def sort (specs : List OptionSpec) (interspersed : Bool) :
    (waiting : Option Text) → List Text → Option (Sorted × List Text)
  | none, [] => some (.empty, [])
  | some _, [] => none
  | some name, value :: rest =>
    (sort specs interspersed none rest).map fun r => (r.1.addValues [(name, value)], r.2)
  | none, word :: rest =>
    if word = ['-', '-'] then some (.empty, rest)
    else if isOption word then
      match readOption specs word with
      | none => none
      | some w =>
        (sort specs interspersed w.waiting rest).map fun r => (r.1.addValues w.values, r.2)
    else if interspersed then
      (sort specs interspersed none rest).map fun r => (r.1.addWord word, r.2)
    else some (.empty, word :: rest)

def levelOption : OptionSpec := ⟨"--log-level", none, true⟩
def worldOption : OptionSpec := ⟨"--world", some 'w', true⟩
def dryRunOption : OptionSpec := ⟨"--dry-run", none, false⟩
def orOption : OptionSpec := ⟨"--or", none, false⟩

def levelOf? (name : Text) : Option Level :=
  [Level.debug, .info, .warning, .error].find? fun l => l.name == name.map Char.toUpper

/-- Reads the words after a command's name, of which one is no option. -/
def readTask (name : Text) (words : List Text) : Option (Option Text × Task) :=
  let read (specs : List OptionSpec) (task : Sorted → Text → Task) : Option (Option Text × Task) :=
    (sort (worldOption :: specs) true none words).bind fun (s, rest) =>
      match s.words ++ rest with
      | [word] => some (s.value? worldOption.long, task s word)
      | _ => none
  if name = ("resolve" : Text) then
    read [dryRunOption] fun s t => .resolve t (s.value? dryRunOption.long).isSome
  else if name = ("evaluate" : Text) then
    read [orOption] fun s t => .evaluate t (s.value? orOption.long).isSome
  else if name = ("validate" : Text) then read [] fun _ t => .validate t
  else none

def parse (words : List Text) : Option Command := do
  let (options, rest) ← sort [levelOption] false none words
  let level ← levelOf? ((options.value? levelOption.long).getD "WARNING")
  match rest with
  | [] => none
  | name :: rest =>
    let (world, task) ← readTask name rest
    return ⟨level, world, task⟩

end Command

/-- Runs a command line; nothing comes of one that names no command. -/
def runCommandLine (files : Files) (words : List Text) : Outcome :=
  match Command.parse words with
  | some c => c.run Lenient.repair files
  | none => .misused

/-- What is written to the two streams when a command finished. The log is written as it is. -/
def Outcome.streams (colour : Bool) (log stdout stderr : Text) : Text × Text :=
  (Terminal.shown colour stdout, log ++ Terminal.shown colour stderr)

end StoryScript
