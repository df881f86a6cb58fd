import StoryScript.Action.Map

/-! What comes of resolving a text: what is shown, who says it, and the actions it asked for. -/

namespace StoryScript

structure Resolution where
  output : Text
  actions : ActionMap
  speaker : Option Text
  /-- Whether an action block sent the reader elsewhere, which drops the output. -/
  redirected : Bool
deriving Repr

namespace Resolution

def empty : Resolution := ⟨[], .empty, none, false⟩

def redirect (actions : ActionMap) : Resolution := ⟨[], actions, none, true⟩

end Resolution

end StoryScript
