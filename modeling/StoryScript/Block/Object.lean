import StoryScript.Failure
import StoryScript.Json.Reader
import StoryScript.Text.Digit

/-! Action blocks as objects. A block is near JSON, of which a library makes strict JSON before it
is read (`Repair`). A point that is no decimal point separates the parts of a path and is hidden
from the library behind a mark. -/

namespace StoryScript

/-- A library that makes strict JSON of a text which is nearly that. What it makes of a text is its
own affair; it always answers, and with a text. -/
abbrev Repair := Text → Text

namespace Block

def pathMark : Text := "__dot__"

/-- Hides the points that no decimal digit follows. -/
def hidePoints : Text → Text
  | [] => []
  | c :: cs =>
    if c = '.' ∧ !(cs.head?.map Digit.isDigit).getD false then pathMark ++ hidePoints cs
    else c :: hidePoints cs

def showPoints (t : Text) : Text := Text.replace pathMark ['.'] t

/-- The strict JSON text that a block amounts to. -/
def fix (repair : Repair) (block : Text) : Text := showPoints (repair (hidePoints block))

def parse (repair : Repair) (block : Text) : Except AuthoringProblem (Table Text Value) :=
  match Json.parse (fix repair block) with
  | .ok (.map entries) => .ok entries
  | .ok _ => .error (.notAnObject block)
  | .error e => .error (.unreadableBlock block e)

end Block

end StoryScript
