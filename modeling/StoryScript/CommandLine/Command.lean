import StoryScript.Notice

/-! Commands: what a command line asks for once it was parsed. -/

namespace StoryScript

inductive Task where
  /-- Resolve a text, with or without running its actions. -/
  | resolve (text : Text) (dryRun : Bool)
  /-- Decide a clause, of which all conditions or any one has to hold. -/
  | evaluate (clause : Text) (any : Bool)
  | validate (path : Text)
deriving DecidableEq, Repr

structure Command where
  level : Level
  world : Option Text
  task : Task
deriving DecidableEq, Repr

end StoryScript
