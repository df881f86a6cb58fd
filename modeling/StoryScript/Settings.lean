import StoryScript.Value.Basic

/-! The settings of an engine. A setting keeps whatever value it was given: each use of one decides
what it needs, so a limit may be any number and a tag anything that can be displayed. -/

namespace StoryScript

structure Settings where
  /-- What the name of every registered condition begins with. -/
  conditionSigil : Value
  /-- How deep templates may nest. -/
  maxTemplateDepth : Value
  /-- The style class of a code span. -/
  codeClass : Value
  boldTag : Value
  italicTag : Value
deriving Repr

/-- The tags that emphasized text is put between. -/
structure Tags where
  bold : Value
  italic : Value
deriving Repr

namespace Settings

def tags (s : Settings) : Tags := ⟨s.boldTag, s.italicTag⟩

def standard : Settings := ⟨.text "_", .int 8, .text "output_code", .text "b", .text "i"⟩

instance : Inhabited Settings := ⟨standard⟩

/-- Settings by name; a name that is missing keeps its standard value and other names count for
nothing. -/
def ofEntries (entries : Table Text Value) : Settings :=
  let setting (name : Text) (value : Value) : Value := (entries.get? name).getD value
  { conditionSigil := setting "condition_sigil" standard.conditionSigil
    maxTemplateDepth := setting "max_template_depth" standard.maxTemplateDepth
    codeClass := setting "code_css_class" standard.codeClass
    boldTag := setting "bold_tag" standard.boldTag
    italicTag := setting "italic_tag" standard.italicTag }

def toEntries (s : Settings) : Table Text Value :=
  [("condition_sigil", s.conditionSigil), ("max_template_depth", s.maxTemplateDepth),
    ("code_css_class", s.codeClass), ("bold_tag", s.boldTag), ("italic_tag", s.italicTag)]

end Settings

end StoryScript
