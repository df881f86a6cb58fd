import StoryScript.Markup.Span

/-! Code spans `[code]…[/code]`: their inside is shown as it is written, so every character that
another kind of markup could take for its own is replaced by an entity. -/

namespace StoryScript.Code

def delimiter : Delimiter := ⟨"[code]", "[/code]", fun _ => true, false⟩

def entities : List (Char × Text) :=
  [('&', "&amp;"), ('<', "&lt;"), ('>', "&gt;"), ('{', "&#123;"), ('}', "&#125;"),
    ('[', "&#91;"), (']', "&#93;"), ('|', "&#124;"), ('*', "&#42;"), ('$', "&#36;")]

def escapeChar (c : Char) : Text := ((entities.find? fun e => e.1 == c).map Prod.snd).getD [c]

def escape (t : Text) : Text := t.flatMap escapeChar

def mark (styleClass inner : Text) : Text :=
  "<span class=\"" ++ styleClass ++ "\">" ++ escape inner ++ "</span>"

def resolve (styleClass t : Text) : Text :=
  Delimiter.replaceSpans (mark styleClass) (delimiter.cut t)

/-- The text with every character of its code spans but line breaks made a space, so that positions
in it are positions in the text. -/
def blank (t : Text) : Text :=
  Delimiter.replaceSpans
    (fun inner => (delimiter.written inner).map fun c => if c = '\n' then c else ' ')
    (delimiter.cut t)

end StoryScript.Code
