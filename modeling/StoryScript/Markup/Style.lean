import StoryScript.Failure
import StoryScript.Markup.Span
import StoryScript.Text.Letter

/-! Style spans: `**…**` and then `*…*`, each within a line. A span becomes an element of the tag
set for it. A backslash in a tag begins an escape, which may also stand for the span or its inside,
so a tag is read as a template before it is used. Main statement: a tag without a backslash stands
around the inside of each span as it is (`mark_of_plain`). -/

namespace StoryScript.Style

def isInline (c : Char) : Bool := c != '\n'

def italic : Delimiter := ⟨"**", "**", isInline, false⟩

def bold : Delimiter := ⟨"*", "*", isInline, false⟩

inductive Part where
  | text (t : Text)
  | inner
  | whole
deriving DecidableEq, Repr

/-- The part that a group number stands for. -/
def group (n : Nat) : Except Failure Part :=
  if n = 0 then .ok .whole else if n = 1 then .ok .inner else .error .badTagEscape

def isOctal (c : Char) : Bool := '0' ≤ c && c ≤ '7'

def digitValue (c : Char) : Nat := c.toNat - 48

def octal (ds : Text) : Nat := ds.foldl (fun n c => n * 8 + digitValue c) 0

def letters : List (Char × Nat) :=
  [('a', 7), ('b', 8), ('f', 12), ('n', 10), ('r', 13), ('t', 9), ('v', 11), ('\\', 92)]

def angled (name : Text) : Except Failure Part :=
  match name with
  | [] => .error .badTagEscape
  | c :: _ =>
    if (c == '_' || Letter.isLetter c) && name.all Letter.isWord then .error .namedTagGroup
    else if name.all Char.isDigit then
      group (name.foldl (fun n c => n * 10 + digitValue c) 0)
    else .error .badTagEscape

/-- Reads the escape after a backslash: the part it stands for and how many characters it takes. -/
def escape (t : Text) : Except Failure (Part × Nat) :=
  match t with
  | [] => .error .badTagEscape
  | 'g' :: rest =>
    match rest with
    | '<' :: rest =>
      match Text.cut? '>' rest with
      | some (name, _) => (angled name).map fun p => (p, name.length + 3)
      | none => .error .badTagEscape
    | _ => .error .badTagEscape
  | '0' :: rest =>
    let ds := (rest.take 2).takeWhile isOctal
    .ok (.text [Char.ofNat (octal ds % 256)], ds.length + 1)
  | c :: rest =>
    if c.isDigit then
      let ds := (rest.take 2).takeWhile Char.isDigit
      match ds with
      | [] => (group (digitValue c)).map fun p => (p, 1)
      | d :: more =>
        if isOctal c && isOctal d && (more.head?.map isOctal).getD false then
          let n := octal (c :: ds)
          if n ≤ 255 then .ok (.text [Char.ofNat n], 3) else .error .badTagEscape
        else (group (digitValue c * 10 + digitValue d)).map fun p => (p, 2)
    else
      match letters.find? fun e => e.1 == c with
      | some e => .ok (.text [Char.ofNat e.2], 1)
      | none => if c.isAlpha then .error .badTagEscape else .ok (.text ['\\', c], 1)

/-- The parts of a template; `skip` counts the characters of an escape still to be passed over. -/
def templateFrom : (skip : Nat) → Text → Except Failure (List Part)
  | _, [] => .ok []
  | skip + 1, _ :: cs => templateFrom skip cs
  | 0, c :: cs =>
    if c = '\\' then do
      let (part, size) ← escape cs
      return part :: (← templateFrom size cs)
    else do return .text [c] :: (← templateFrom 0 cs)

def template (tag : Text) : Except Failure (List Part) :=
  templateFrom 0 ("<" ++ tag ++ ">\\1</" ++ tag ++ ">")

def fill (d : Delimiter) (parts : List Part) (inner : Text) : Text :=
  parts.flatMap fun
    | .text t => t
    | .inner => inner
    | .whole => d.written inner

def mark (d : Delimiter) (tag t : Text) : Except Failure Text :=
  (template tag).map fun parts => Delimiter.replaceSpans (fill d parts) (d.cut t)

def resolve (italicTag boldTag t : Text) : Except Failure Text := do
  mark bold boldTag (← mark italic italicTag t)

/-- A text that stands for itself, part by part. -/
def literal (t : Text) : List Part := t.map fun c => .text [c]

theorem fill_literal_append (d : Delimiter) (t : Text) (parts : List Part) (inner : Text) :
    fill d (literal t ++ parts) inner = t ++ fill d parts inner := by
  induction t with
  | nil => rfl
  | cons c t ih => exact congrArg (c :: ·) ih

theorem templateFrom_append {u : Text} (hu : '\\' ∉ u) (v : Text) :
    templateFrom 0 (u ++ v) = (templateFrom 0 v).map (literal u ++ ·) := by
  induction u with
  | nil =>
    rw [List.nil_append]
    cases templateFrom 0 v <;> rfl
  | cons c u ih =>
    have hc : c ≠ '\\' := fun h => hu (h ▸ List.mem_cons_self)
    rw [List.cons_append, templateFrom, if_neg hc, ih fun h => hu (List.mem_cons_of_mem c h)]
    cases templateFrom 0 v <;> rfl

theorem template_of_plain {tag : Text} (h : '\\' ∉ tag) :
    template tag = .ok (literal ("<" ++ tag ++ ">") ++ .inner :: literal ("</" ++ tag ++ ">")) := by
  have hopening : '\\' ∉ ("<" ++ tag ++ ">" : Text) := by simp [h]
  have hclosing : '\\' ∉ ("</" ++ tag ++ ">" : Text) := by simp [h]
  have hinner (v : Text) :
      templateFrom 0 ("\\1<" ++ v) = (templateFrom 0 ('<' :: v)).map (.inner :: ·) := by
    show (do return Part.inner :: (← templateFrom 0 ('<' :: v))) = _
    cases templateFrom 0 ('<' :: v) <;> rfl
  have hrest : templateFrom 0 ("</" ++ tag ++ ">") = .ok (literal ("</" ++ tag ++ ">")) := by
    have happend := templateFrom_append hclosing []
    rw [List.append_nil, templateFrom] at happend
    rw [happend]
    exact congrArg Except.ok (List.append_nil _)
  calc template tag
      = templateFrom 0 ("<" ++ tag ++ ">" ++ ("\\1<" ++ ("/" ++ tag ++ ">"))) := by simp [template]
    _ = ((templateFrom 0 ("</" ++ tag ++ ">")).map (.inner :: ·)).map
          (literal ("<" ++ tag ++ ">") ++ ·) := by
        rw [templateFrom_append hopening, hinner]
        rfl
    _ = _ := by
        rw [hrest]
        rfl

/-- What a tag without a backslash makes of the inside of a span. -/
def element (tag inner : Text) : Text := "<" ++ tag ++ ">" ++ inner ++ "</" ++ tag ++ ">"

theorem mark_of_plain (d : Delimiter) {tag : Text} (h : '\\' ∉ tag) (t : Text) :
    mark d tag t = .ok (Delimiter.replaceSpans (element tag) (d.cut t)) := by
  have hfill : fill d (literal ("<" ++ tag ++ ">") ++ .inner :: literal ("</" ++ tag ++ ">")) =
      element tag := by
    funext inner
    have hclosing := fill_literal_append d ("</" ++ tag ++ ">") [] inner
    rw [List.append_nil] at hclosing
    rw [fill_literal_append, fill, List.flatMap_cons, ← fill, hclosing]
    simp [element, fill]
  rw [mark, template_of_plain h, ← hfill]
  rfl

theorem resolve_of_plain {italicTag boldTag : Text} (hitalic : '\\' ∉ italicTag)
    (hbold : '\\' ∉ boldTag) (t : Text) :
    resolve italicTag boldTag t =
      .ok (Delimiter.replaceSpans (element boldTag) (bold.cut
        (Delimiter.replaceSpans (element italicTag) (italic.cut t)))) := by
  rw [resolve, mark_of_plain italic hitalic]
  exact mark_of_plain bold hbold _

end StoryScript.Style
