import StoryScript.Failure

/-! Named fragments of text by container. A fragment is looked up in a given container or, where
there is one, in the current container. -/

namespace StoryScript

/-- Fragments by container and name. What a world gives for a fragment need not be a text. -/
abbrev FragmentLibrary := Table Key (Table Key Value)

namespace FragmentLibrary

def add (l : FragmentLibrary) (container : Key) (name : Text) (fragment : Value) :
    FragmentLibrary :=
  Table.insert l container (((Table.get? l container).getD []).insert (.text name) fragment)

/-- The fragment of a name, where `current` is the container to look in if none is given. -/
def find (l : FragmentLibrary) (current : Option Key) (name : Text) (container : Option Key) :
    Except Failure Value :=
  match container <|> current with
  | none => .error (.authoring (.noContainer name))
  | some container =>
    match Table.get? l container with
    | none => .error (.authoring (.unknownContainer container))
    | some fragments =>
      match Table.get? fragments (.text name) with
      | none => .error (.authoring (.unknownFragment name container))
      | some fragment => .ok fragment

/-- The fragment that a template reference names: `$name` in the current container, and
`$container.name` is the fragment `$name` of another one. -/
def load (l : FragmentLibrary) (current : Option Key) (reference : Text) : Except Failure Value :=
  match Text.cut? '.' reference with
  | some (container, name) => l.find current ('$' :: name) (some (.text (container.drop 1)))
  | none => l.find current reference none

theorem isOfStory_of_find {l : FragmentLibrary} {current container : Option Key} {name : Text}
    {failure : Failure} (h : l.find current name container = .error failure) :
    failure.isOfStory := by
  unfold find at h
  split at h
  · cases h
    rfl
  · split at h
    · cases h
      rfl
    · split at h
      · cases h
        rfl
      · cases h

/-- Loading a fragment fails only for what the story asks for. -/
theorem isOfStory_of_load {l : FragmentLibrary} {current : Option Key} {reference : Text}
    {failure : Failure} (h : l.load current reference = .error failure) : failure.isOfStory := by
  unfold load at h
  split at h <;> exact isOfStory_of_find h

theorem exists_mem_of_find {l : FragmentLibrary} {current container : Option Key} {name : Text}
    {fragment : Value} (h : l.find current name container = .ok fragment) :
    ∃ fragments ∈ l, ∃ key, (key, fragment) ∈ fragments.2 := by
  unfold find at h
  split at h
  · cases h
  · split at h
    · cases h
    · next fragments hfragments =>
      split at h
      · cases h
      · next fragment' hfragment =>
        obtain rfl := Except.ok.inj h
        exact ⟨_, Table.mem_of_get? hfragments, _, Table.mem_of_get? hfragment⟩

/-- What is loaded is a fragment of the library. -/
theorem exists_mem_of_load {l : FragmentLibrary} {current : Option Key} {reference : Text}
    {fragment : Value} (h : l.load current reference = .ok fragment) :
    ∃ fragments ∈ l, ∃ key, (key, fragment) ∈ fragments.2 := by
  unfold load at h
  split at h <;> exact exists_mem_of_find h

end FragmentLibrary

end StoryScript
