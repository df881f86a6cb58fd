import StoryScript.Outer.CommandLine

/-! The program: reads the files that its command names, runs it and writes what comes of it. -/

namespace StoryScript

/-- The bytes of the file at a path, if there is one that can be read. -/
def readBytes (path : Text) : IO (Option ByteArray) := do
  try return some (← IO.FS.readBinFile (String.ofList path))
  catch _ => return none

def readFiles (paths : List Text) : IO Files := do
  let found ← paths.mapM fun path => return (path, ← readBytes path)
  return fun path => (found.find? fun f => f.1 == path).bind Prod.snd

end StoryScript

open StoryScript

def main (arguments : List String) : IO UInt32 := do
  let words := arguments.map String.toList
  let files ← readFiles (((Command.parse words).map Command.paths).getD [])
  let colour ← (← IO.getStdout).isTty
  match runCommandLine files words with
  | .misused =>
    IO.eprintln "Error: the command line is not as it should be"
    return 2
  | .crashed failure =>
    IO.eprintln (String.ofList failure.message)
    return 1
  | .finished exitCode log stdout stderr =>
    let (stdout, stderr) := Outcome.streams colour log stdout stderr
    IO.eprint (String.ofList stderr)
    IO.print (String.ofList stdout)
    return exitCode.toUInt32
