import StoryScript.Failure

/-! Notices: what an engine reports while it goes on. Each has a cause, from which its level, its
channel and its wording follow. -/

namespace StoryScript

inductive Level where
  | debug
  | info
  | warning
  | error
deriving DecidableEq, Repr

namespace Level

def name : Level → Text
  | debug => "DEBUG"
  | info => "INFO"
  | warning => "WARNING"
  | error => "ERROR"

def rank : Level → Nat
  | debug => 0
  | info => 1
  | warning => 2
  | error => 3

end Level

inductive Channel where
  | conditions
  | branching
  | actions
  | pipeline
  | choice
  | registry
  | state
  | world
deriving DecidableEq, Repr

def Channel.name : Channel → Text
  | .conditions => "conditions"
  | .branching => "branching"
  | .actions => "actions"
  | .pipeline => "pipeline"
  | .choice => "choice"
  | .registry => "registry"
  | .state => "state"
  | .world => "world"

inductive Notice where
  | malformedCondition (condition : Text)
  /-- An ordering of texts, which have none. -/
  | orderedText (operator condition : Text)
  | strayEnd (position : Nat)
  | unterminatedChain
  /-- A branch condition that the story is to blame for. -/
  | branchRejected (condition : Text) (failure : Failure)
  | branchFailed (condition : Text) (failure : Failure)
  | placeholderRejected (expression : Text) (failure : Failure)
  | placeholderFailed (expression : Text) (failure : Failure)
  | templateRejected (reference : Text) (failure : Failure)
  | templateTooDeep (reference : Text) (limit : Int)
  | actionRejected (failure : Failure)
  | unmatchedBrace (rest : Text)
  | actionRun (name : Text) (payload : Value)
  | choiceRejected (id : Text) (failure : Failure)
  | overwritten (kind : EntryKind) (name : Text)
  | noFlagOperator (pair : Text)
  | emptyFlagKey (pair : Text)
  | flagNotANumber (value : Value) (key : Text)
  | worldLoaded (containers placeholders conditions : Nat)
deriving Repr

namespace Notice

def level : Notice → Level
  | strayEnd _ | unterminatedChain | overwritten .. => .warning
  | actionRun .. | worldLoaded .. => .debug
  | _ => .error

def channel : Notice → Channel
  | malformedCondition _ | orderedText .. => .conditions
  | strayEnd _ | unterminatedChain | branchRejected .. | branchFailed .. => .branching
  | placeholderRejected .. | placeholderFailed .. | templateRejected .. | templateTooDeep .. =>
    .pipeline
  | actionRejected _ | unmatchedBrace _ | actionRun .. => .actions
  | choiceRejected .. => .choice
  | overwritten .. => .registry
  | noFlagOperator _ | emptyFlagKey _ | flagNotANumber .. => .state
  | worldLoaded .. => .world

def message : Notice → Text
  | malformedCondition condition =>
    "Invalid condition format: \"" ++ condition ++
      "\". Use format like key==value or key=value without quotes"
  | orderedText operator condition =>
    "Operator \"" ++ operator ++ "\" not supported for string comparison in condition \"" ++
      condition ++ "\""
  | strayEnd position => "Stray fi\x7b\x7d at position " ++ Text.ofNat position ++ " ignored"
  | unterminatedChain => "Conditional chain not terminated with fi\x7b\x7d"
  | branchRejected condition failure =>
    "Error evaluating condition \"" ++ condition ++ "\": " ++ failure.message
  | branchFailed condition failure =>
    "Condition \"" ++ condition ++ "\" failed: " ++ failure.message
  | placeholderRejected expression failure =>
    "Error resolving placeholder \"" ++ expression ++ "\": " ++ failure.message
  | placeholderFailed expression failure =>
    "Placeholder \"" ++ expression ++ "\" failed: " ++ failure.message
  | templateRejected reference failure =>
    "Error resolving template \"" ++ reference ++ "\": " ++ failure.message
  | templateTooDeep reference limit =>
    "Error resolving template \"" ++ reference ++ "\": nesting deeper than " ++ Text.ofInt limit
  | actionRejected failure => failure.message
  | unmatchedBrace rest => "Unmatched open brace in text: " ++ rest
  | actionRun name payload => "Running action " ++ name ++ "(" ++ payload.displayInside ++ ")"
  | choiceRejected id failure => "Choice " ++ id ++ ": " ++ failure.message
  | overwritten kind name => kind.title ++ " \"" ++ name ++ "\" already exists - overwriting"
  | noFlagOperator pair =>
    "Invalid flag format: \"" ++ pair ++ "\". Use \"key=value\", \"key>value\", or \"key<value\""
  | emptyFlagKey pair => "Invalid flag format: \"" ++ pair ++ "\". Flag key is empty"
  | flagNotANumber value key =>
    "Invalid flag value: \"" ++ value.display ++ "\" for key \"" ++ key ++
      "\". Flags must be numbers."
  | worldLoaded containers placeholders conditions =>
    "World loaded: " ++ Text.ofNat containers ++ " container(s), " ++ Text.ofNat placeholders ++
      " placeholder(s), " ++ Text.ofNat conditions ++ " condition(s)"

end Notice

end StoryScript
