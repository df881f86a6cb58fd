import StoryScript.Text.Basic
import StoryScript.Table

/-! The callbacks that listen to each trigger, by name and in the order in which they were added.
One callback may listen more than once. -/

namespace StoryScript

abbrev TriggerBus := Table Text (List Text)

namespace TriggerBus

def listeners (bus : TriggerBus) (trigger : Text) : List Text :=
  (Table.get? bus trigger).getD []

def on (bus : TriggerBus) (trigger callback : Text) : TriggerBus :=
  Table.insert bus trigger (bus.listeners trigger ++ [callback])

/-- Takes the first entry of a callback away, if there is one. -/
def off (bus : TriggerBus) (trigger callback : Text) : TriggerBus :=
  if (bus.listeners trigger).contains callback then
    Table.insert bus trigger ((bus.listeners trigger).erase callback)
  else bus

end TriggerBus

end StoryScript
