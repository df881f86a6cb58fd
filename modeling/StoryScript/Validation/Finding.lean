import StoryScript.Branch.Basic
import StoryScript.Condition.Comparison

/-! What a check of a script can find. An error makes resolution drop or garble text; a warning is
about a name that the engine does not know or a chain that resolution mends. -/

namespace StoryScript

inductive Severity where
  | error
  | warning
deriving DecidableEq, Repr

def Severity.name : Severity → Text
  | .error => "error"
  | .warning => "warning"

inductive Finding where
  | unmatchedClosing
  | unmatchedOpening
  | unloadableTemplate (reference : Text) (failure : Failure)
  | malformedPlaceholder (expression : Text)
  | unregistered (kind : EntryKind) (name : Text)
  | unusedCondition (keyword : Keyword) (condition : Text)
  | strayEnd
  | strayElse
  | emptyCondition (keyword : Keyword)
  | malformedCondition (condition : Text) (keyword : Keyword)
  | malformedCall (key : Text) (keyword : Keyword)
  | orderedText (operator : Operator) (value : Text)
  | badBlock (problem : AuthoringProblem)
  | unterminatedChain
deriving Repr

namespace Finding

def severity : Finding → Severity
  | unmatchedClosing | unmatchedOpening | malformedPlaceholder _ | malformedCondition ..
  | malformedCall .. | orderedText .. | badBlock _ => .error
  | _ => .warning

/-- A keyword with the braces that belong to it. -/
def braced (keyword : Keyword) : Text := keyword.word ++ ['{', '}']

def message : Finding → Text
  | unmatchedClosing => "Unmatched closing brace '\x7d'"
  | unmatchedOpening => "Unmatched opening brace '\x7b'"
  | unloadableTemplate reference failure =>
    "Template \"" ++ reference ++ "\" cannot be loaded: " ++ failure.message
  | malformedPlaceholder expression => "Malformed placeholder \"|" ++ expression ++ "|\""
  | unregistered kind name => (Failure.unregistered kind name).message
  | unusedCondition keyword condition =>
    braced keyword ++ " takes no condition; \"" ++ condition ++ "\" is ignored"
  | strayEnd => "fi\x7b\x7d without an open if\x7b\x7d chain is ignored"
  | strayElse => "else\x7b\x7d without an open if\x7b\x7d chain always shows its text"
  | emptyCondition keyword => braced keyword ++ " has an empty condition and always fires"
  | malformedCondition condition keyword =>
    "Malformed condition \"" ++ condition ++ "\" in " ++ braced keyword
  | malformedCall key keyword =>
    "Malformed condition call \"" ++ key ++ "\" in " ++ braced keyword
  | orderedText operator value =>
    "Operator \"" ++ operator.word ++ "\" cannot compare against the string \"" ++ value ++ "\""
  | badBlock problem => problem.message
  | unterminatedChain => "Conditional chain is not terminated with fi\x7b\x7d"

/-- What to do about a finding, where there is something to say. -/
def suggestion? : Finding → Option Text
  | unmatchedOpening => some "Everything from this brace onwards is dropped from the output"
  | malformedPlaceholder _ => some "Use |name| or |name(arg1, arg2)|"
  | malformedCondition .. =>
    some "Use key==value, key!=value, key>value, key<value, key>=value or key<=value"
  | orderedText .. => some "Ordering operators only work with numbers"
  | unterminatedChain => some "The chain is closed at the end of the text"
  | _ => none

end Finding

end StoryScript
