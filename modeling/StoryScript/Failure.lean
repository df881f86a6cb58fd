import StoryScript.Json.Error
import StoryScript.Value.Display

/-! Why an operation stops. Problems of a story, that is of its text and of the names it uses, are
told apart from the failures of host functions and from values of the wrong shape: only the former
are contained wherever a story is read. -/

namespace StoryScript

inductive EntryKind where
  | condition
  | action
  | placeholder
deriving DecidableEq, Repr

def EntryKind.title : EntryKind → Text
  | .condition => "Condition"
  | .action => "Action"
  | .placeholder => "Placeholder"

inductive AuthoringProblem where
  | conditionFormat (key : Text)
  | placeholderFormat (expression : Text)
  | noFragmentSource
  | noContainer (fragment : Text)
  | unknownContainer (container : Key)
  | unknownFragment (fragment : Text) (container : Key)
  | unreadableBlock (block : Text) (error : Json.Error)
  | notAnObject (block : Text)
  /-- A problem that a host function reports in its own words. -/
  | reported (message : Text)
deriving DecidableEq, Repr

namespace AuthoringProblem

def message : AuthoringProblem → Text
  | conditionFormat key => "Invalid condition format: " ++ key
  | placeholderFormat expression => "Invalid placeholder format: " ++ expression
  | noFragmentSource => "No fragment source configured"
  | noContainer fragment => "No container given for fragment " ++ fragment
  | unknownContainer container => "Container " ++ container.toValue.display ++ " not found"
  | unknownFragment fragment container =>
    "Fragment " ++ fragment ++ " not found in container " ++ container.toValue.display
  | unreadableBlock block error =>
    "Failed to process JSON object \"" ++ block ++ "\": " ++ error.message
  | notAnObject block => "Action block \"" ++ block ++ "\" is not an object"
  | reported message => message

end AuthoringProblem

inductive Mismatch where
  /-- A list or a map cannot name a container or a flag. -/
  | name
  | sum
  | templateDepth
  | conditionSigil
  | fragment
  | entries
  | choiceName
  | params
deriving DecidableEq, Repr

def Mismatch.message : Mismatch → Text
  | .name => "a list or a map names nothing"
  | .sum => "the values have no sum"
  | .templateDepth => "the template depth must be a number"
  | .conditionSigil => "the condition sigil must be a text"
  | .fragment => "a fragment must be a text"
  | .entries => "the value holds no entries"
  | .choiceName => "the name of a choice must be a text"
  | .params => "params must be an object or a string"

inductive WorldProblem where
  | invalidJson (error : Json.Error)
  | notAnObject
deriving Repr

def WorldProblem.message : WorldProblem → Text
  | .invalidJson error => "invalid JSON (" ++ error.message ++ ")"
  | .notAnObject => "a world must be a JSON object"

inductive Failure where
  | authoring (problem : AuthoringProblem)
  | unregistered (kind : EntryKind) (name : Text)
  | misnamedCondition (sigil name : Text)
  | badWorld (path : Text) (problem : WorldProblem)
  /-- A failure that a host function reports in its own words. -/
  | host (message : Text)
  | notAMap
  | mismatch (what : Mismatch)
  | notAPair
  | noSuchAction (name : Text)
  | integerTooLarge
  /-- An integer of more digits than are read. -/
  | integerTooLong
  /-- A style tag with an escape that means nothing. -/
  | badTagEscape
  /-- A style tag that refers to a group by a name. -/
  | namedTagGroup
  | undecodable
  /-- Hosts and engine called each other too deeply. -/
  | exhausted
deriving Repr

namespace Failure

def message : Failure → Text
  | authoring problem => problem.message
  | unregistered kind name => kind.title ++ " \"" ++ name ++ "\" is not registered"
  | misnamedCondition sigil name =>
    "Error registering condition " ++ name ++ ": conditions need the " ++ sigil ++
      " prefix, e.g. " ++ sigil ++ "my_condition"
  | badWorld path problem => path ++ ": " ++ problem.message
  | host message => message
  | notAMap => "a map was expected"
  | mismatch what => what.message
  | notAPair => "an entry must be a pair of a name and a value"
  | noSuchAction name => "'" ++ name ++ "'"
  | integerTooLarge => "int too large to convert to float"
  | integerTooLong => "the integer has too many digits"
  | badTagEscape => "the style tag has a bad escape"
  | namedTagGroup => "the style tag refers to an unknown group"
  | undecodable => "the text is not valid UTF-8"
  | exhausted => "host functions call the engine too deeply"

/-- Whether the story is at fault: its text, or a name it uses that is not registered. -/
def isOfStory : Failure → Bool
  | authoring _ | unregistered .. | misnamedCondition .. => true
  | _ => false

end Failure

end StoryScript
