import StoryScript.CommandLine.Command
import StoryScript.Engine.Choices
import StoryScript.Engine.Resolve
import StoryScript.Store.Names
import StoryScript.Validation.Report
import StoryScript.World

/-! Running a command. The files it reads are given as a function, so a run is a value: what is
logged and written to the two streams and the exit code, or a failure that no command handles. -/

namespace StoryScript

/-- The bytes of the file at a path, if there is one. -/
abbrev Files := Text → Option ByteArray

inductive Outcome where
  /-- The command line or a path on it is not as it should be. -/
  | misused
  /-- What was logged goes to the stream of errors in front of what is written there. -/
  | finished (exitCode : Nat) (log stdout stderr : Text)
  | crashed (failure : Failure)

/-- A path without its empty parts and those that are a single point. -/
def normalPath (path : Text) : Text :=
  let parts := (Text.fields '/' path).filter fun p => !p.isEmpty && p != ['.']
  if path.head? = some '/' then '/' :: Text.join ['/'] parts
  else if parts.isEmpty then ['.']
  else Text.join ['/'] parts

def fileName (path : Text) : Text :=
  match normalPath path with
  | ['.'] => []
  | p => (Text.fields '/' p).getLast?.getD []

def Notice.logLine (n : Notice) : Text :=
  let package : Text :=
    match n.channel with
    | .state | .world => "narrative_forge."
    | _ => "narrative_forge.logic."
  n.level.name ++ " " ++ package ++ n.channel.name ++ ": " ++ n.message ++ "\n"

namespace Command

def log (level : Level) (ns : List Notice) : Text :=
  (ns.filter fun n => level.rank ≤ n.level.rank).flatMap Notice.logLine

def paths (c : Command) : List Text :=
  c.world.toList ++
    match c.task with
    | .validate path => [path]
    | _ => []

/-- The world of a command: an empty one if no file is named. -/
def worldOf (files : Files) : Option Text → Option (Except Failure (Table Text Value))
  | none => some (.ok [])
  | some path =>
    (files path).map (World.read (normalPath path))

def resolutionJson (r : Resolution) (s : FlagStore) : Value :=
  .map [("output", .text r.output),
    ("speaker", match r.speaker with
      | some t => .text t
      | none => .null),
    ("actions", .map r.actions.payloads), ("redirected", .bool r.redirected),
    ("flags", s.toValue)]

/-- Whether a failure is told to the user; any other ends the program. -/
def isTold : Failure → Bool
  | .badWorld .. => true
  | failure => failure.isOfStory

/-- Runs a task with an engine, from the state in which its story begins. -/
def runTask (files : Files) (level : Level) (e : Engine Unit) (start : State Unit) :
    Task → Outcome
  | .resolve t dryRun =>
    match (e.resolve e.reentry t dryRun).on start with
    | (.error failure, _) => .crashed failure
    | (.ok r, s) =>
      .finished 0 (log level s.notices)
        (Json.writeIndented 0 (resolutionJson r s.flags) ++ "\n") []
  | .evaluate t any =>
    let gate : Gate :=
      if any then ⟨none, some (.conditions t)⟩ else ⟨some (.conditions t), none⟩
    match (e.opens e.reentry gate).on start with
    | (.ok answer, s) =>
      .finished 0 (log level s.notices) (if answer then "true\n" else "false\n") []
    | (.error failure, s) =>
      if failure.isOfStory then
        .finished 1 (log level s.notices) [] ("❌ Error: " ++ failure.message ++ "\n")
      else .crashed failure
  | .validate path =>
    match files path with
    | none => .misused
    | some bytes =>
      match textOfFile bytes with
      | .error failure => .crashed failure
      | .ok script =>
        let v := Validation.ofScript e start.flags.current script
        .finished (if v.passed then 0 else 1) (log level start.notices)
          (Report.write (fileName path) v) []

/-- Runs a command. -/
def run (repair : Repair) (files : Files) (c : Command) : Outcome :=
  match worldOf files c.world with
  | none => .misused
  | some world =>
    if c.paths.all fun path => (files path).isSome then
      match world.bind (World.build repair) with
      | .error failure =>
        if isTold failure then .finished 1 [] [] ("Error: " ++ failure.message ++ "\n")
        else .crashed failure
      | .ok (e, store) =>
        let start : State Unit := World.start store ()
        runTask files c.level e { start with notices := [World.report e store] } c.task
    else .misused

end Command

end StoryScript
