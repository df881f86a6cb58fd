import StoryScript.Proofs.Block.Objects
import StoryScript.Proofs.Block.Outline
import StoryScript.Proofs.Engine.Dispatch

/-!
# Taking the blocks out of a text

Extraction is the same however blocks are read (`Engine.extractWith`). A block that cannot be read
is reported, and of any other the actions are run unless it redirects (`Engine.runBlock`). Main
statements: extraction runs the blocks of a text's outline up to the first that redirects, and then
returns what they come to (`Engine.extractWith_eq`); and if the actions that are run return, so does
it, having made the calls of each block in turn (`Engine.extractWith_follows_outline`).
-/

namespace StoryScript

open Run

variable {σ : Type}

namespace BlockReader

variable (parse : BlockReader)

/-- The objects that blocks hold, of those that can be read. -/
def objects (blocks : List Text) : List (Table Text Value) :=
  blocks.filterMap fun block => (parse block).toOption

/-- The objects in front of the first that redirects. -/
def before (blocks : List Text) : List (Table Text Value) :=
  (parse.objects blocks).takeWhile (!redirects ·)

/-- Whether a block is read as an object that redirects. -/
def stops (block : Text) : Bool := ((parse block).toOption.map redirects).getD false

/-- What blocks and the text outside them come to: the first object that redirects and no text, or
all text with all objects merged from left to right. -/
def extraction (found : ActionMap) (outside : Text) (blocks : List Text) : Extraction :=
  match (parse.objects blocks).find? redirects with
  | some object => ⟨[], .ofEntries object, true⟩
  | none => ⟨outside, (parse.objects blocks).foldl ActionMap.insertAll found, false⟩

variable {parse}

theorem objects_cons_of_error {block : Text} {problem : AuthoringProblem}
    (h : parse block = .error problem) (blocks : List Text) :
    parse.objects (block :: blocks) = parse.objects blocks ∧ parse.stops block = false := by
  simp [objects, stops, h, Except.toOption]

theorem objects_cons_of_ok {block : Text} {object : Table Text Value}
    (h : parse block = .ok object) (blocks : List Text) :
    parse.objects (block :: blocks) = object :: parse.objects blocks ∧
      parse.stops block = redirects object := by
  simp [objects, stops, h, Except.toOption]

theorem exists_of_mem_objects {blocks : List Text} {object : Table Text Value}
    (h : object ∈ parse.objects blocks) : ∃ block ∈ blocks, parse block = .ok object := by
  obtain ⟨block, hblock, hobject⟩ := List.mem_filterMap.1 h
  cases hparse : parse block with
  | error problem =>
    rw [hparse] at hobject
    cases hobject
  | ok object' =>
    rw [hparse] at hobject
    cases hobject
    exact ⟨block, hblock, hparse⟩

end BlockReader

open BlockReader

namespace Engine

variable (e : Engine σ) (re : Reentry σ) (parse : BlockReader) (dryRun : Bool)

/-- Taking the blocks out of a text, however they are read. -/
def extractWith (t : Text) : Run σ Extraction :=
  extractPiecesWith e re parse dryRun [] .empty (Piece.split t)

/-- What is done about a block that does not redirect. -/
def runBlock (block : Text) : Run σ Unit :=
  match parse block with
  | .error problem => Run.notify (.actionRejected (.authoring problem))
  | .ok object => if dryRun then pure () else e.runParams re (.entries object) true

/-- What is reported about a text behind its blocks: the brace that nothing closes. -/
def reportTail (tail : Text) : Run σ Unit :=
  if tail.isEmpty then pure () else Run.notify (.unmatchedBrace tail)

/-- Runs blocks one after another and reports what is behind them, up to a block that redirects. -/
def runOutline (tail : Text) : List Text → Run σ Unit
  | [] => reportTail tail
  | block :: blocks =>
    if parse.stops block then pure ()
    else do
      e.runBlock re parse dryRun block
      runOutline tail blocks

variable {e re parse dryRun}

theorem extractPiecesWith_eq {pieces : List Piece} (hpieces : Piece.StopsAtUnmatched pieces)
    (output : Text) (found : ActionMap) :
    e.extractPiecesWith re parse dryRun output found pieces = do
      e.runOutline re parse dryRun (Piece.tail pieces) (Piece.blocks pieces)
      return parse.extraction found (output ++ Piece.outside pieces) (Piece.blocks pieces) := by
  induction pieces generalizing output found with
  | nil =>
    simp [extractPiecesWith, runOutline, reportTail, extraction, objects, Piece.blocks, Piece.tail,
      Piece.outside]
  | cons p pieces ih =>
    cases p with
    | plain t =>
      rw [extractPiecesWith, ih hpieces, List.append_assoc]
      rfl
    | unmatched rest =>
      obtain rfl : pieces = [] := hpieces
      simp [extractPiecesWith, runOutline, reportTail, extraction, objects, Piece.blocks,
        Piece.tail, Piece.outside, Piece.written]
    | group inner =>
      have hblocks : Piece.blocks (.group inner :: pieces) =
          (Piece.group inner).written :: Piece.blocks pieces := rfl
      have houtside : Piece.outside (.group inner :: pieces) = Piece.outside pieces := rfl
      have htail : Piece.tail (.group inner :: pieces) = Piece.tail pieces := rfl
      rw [extractPiecesWith, hblocks, houtside, htail, runOutline, runBlock, extraction]
      cases hparse : parse (Piece.group inner).written with
      | error problem =>
        obtain ⟨hobjects, hstops⟩ := objects_cons_of_error hparse (Piece.blocks pieces)
        rw [hobjects, hstops, if_neg Bool.false_ne_true, bind_assoc]
        exact bind_congr fun _ => ih hpieces output found
      | ok object =>
        obtain ⟨hobjects, hstops⟩ := objects_cons_of_ok hparse (Piece.blocks pieces)
        rw [hobjects, hstops]
        cases hredirects : redirects object with
        | true => simp [hredirects]
        | false =>
          have hrest := ih hpieces output (found.insertAll object)
          rw [List.find?_cons_of_neg (by simp [hredirects]), if_neg Bool.false_ne_true, bind_assoc]
          simp only [hredirects, Bool.false_eq_true, if_false]
          cases dryRun with
          | true => exact hrest
          | false => exact bind_congr fun _ => hrest

/-- Extraction is what the outline of a text says: its blocks are run up to the first that
redirects, and what they come to is returned with the text outside of them. -/
theorem extractWith_eq {t outside tail : Text} {blocks : List Text}
    (h : t.Outlined outside blocks tail) :
    e.extractWith re parse dryRun t = do
      e.runOutline re parse dryRun tail blocks
      return parse.extraction .empty outside blocks := by
  obtain ⟨rfl, rfl, rfl⟩ := Text.outlined_iff.1 h
  exact extractPiecesWith_eq (Piece.stopsAtUnmatched_split t) [] .empty

/-! ## The calls of an extraction -/

variable {ready : State σ → Prop}

theorem HostsReturn.calls_runParams {object : Table Text Value}
    (h : e.HostsReturn re (.ofEntries object) ready) :
    e.Calls re ready (e.runParams re (.entries object) true) (e.calledAtOnce object) :=
  h.calls_runNamed true fun _ _ => rfl

section

variable (hready : ∀ {s : State σ}, ready s → ∀ ns, ready { s with notices := s.notices ++ ns })

include hready

theorem calls_notify {n : Notice} (hn : n.invocation? = none) :
    e.Calls re ready (Run.notify n) [] := by
  intro s hs
  have hreports := State.Reports.append s (List.forall_mem_singleton.2 hn)
  exact ⟨_, rfl, .single hreports, hready hs [n]⟩

theorem calls_reportTail (tail : Text) : e.Calls re ready (reportTail tail) [] := by
  unfold reportTail
  split
  · exact Calls.pure
  · exact calls_notify hready rfl

/-- The calls are those of each object in turn, up to one that redirects; a dry run makes none. -/
theorem calls_runOutline (tail : Text) {blocks : List Text}
    (hhosts : ∀ object ∈ parse.before blocks,
      e.HostsReturn re (.ofEntries object) ready) :
    e.Calls re ready (e.runOutline re parse dryRun tail blocks)
      (if dryRun then []
        else (parse.before blocks).flatMap e.calledAtOnce) := by
  have hnone : (if dryRun then [] else [].flatMap e.calledAtOnce) = [] := by cases dryRun <;> rfl
  induction blocks with
  | nil =>
    show e.Calls re ready (reportTail tail) (if dryRun then [] else [].flatMap e.calledAtOnce)
    rw [hnone]
    exact calls_reportTail hready tail
  | cons block blocks ih =>
    rw [runOutline, runBlock]
    cases hparse : parse block with
    | error problem =>
      obtain ⟨hobjects, hstops⟩ := objects_cons_of_error hparse blocks
      rw [before, hobjects] at hhosts ⊢
      rw [hstops, if_neg Bool.false_ne_true]
      exact (calls_notify hready rfl).bind (ih hhosts)
    | ok object =>
      obtain ⟨hobjects, hstops⟩ := objects_cons_of_ok hparse blocks
      rw [before, hobjects] at hhosts ⊢
      rw [hstops]
      cases hredirects : redirects object with
      | true =>
        rw [List.takeWhile_cons_of_neg (by simp [hredirects]), hnone]
        exact Calls.pure
      | false =>
        rw [List.takeWhile_cons_of_pos (by simp [hredirects])] at hhosts ⊢
        obtain ⟨hobject, hrest⟩ := List.forall_mem_cons.1 hhosts
        have hblocks := ih hrest
        rw [if_neg Bool.false_ne_true]
        cases dryRun with
        | true => exact Calls.pure.bind hblocks
        | false => exact hobject.calls_runParams.bind hblocks

end

/-- Extraction follows the outline of a text, which is the only one, however blocks are read. It
runs the blocks in order up to the first that redirects, and returns that object with no text, or
all objects merged with the text outside the blocks. If the actions return that are run in front of
such a block, so does extraction, and has made for each object the calls that running the object
makes, in order, or none in a dry run. -/
theorem extractWith_follows_outline (e : Engine σ) (re : Reentry σ) {parse : BlockReader}
    (hparse : ∀ {block object}, parse block = .ok object → object.keys.Nodup) (t : Text)
    (dryRun : Bool) {ready : State σ → Prop}
    (hready : ∀ {s : State σ}, ready s → ∀ ns, ready { s with notices := s.notices ++ ns }) :
    e.extract re t dryRun = e.extractWith re e.readBlock dryRun t ∧
    ∃ outside blocks tail,
      (∀ o bs r, t.Outlined o bs r ↔ o = outside ∧ bs = blocks ∧ r = tail) ∧
      (e.extractWith re parse dryRun t = do
        e.runOutline re parse dryRun tail blocks
        return parse.extraction .empty outside blocks) ∧
      (∀ object, (parse.objects blocks).find? redirects = some object →
        (parse.extraction .empty outside blocks).actions.payloads = object) ∧
      ((∀ object ∈ parse.before blocks, e.HostsReturn re (.ofEntries object) ready) →
        (∀ s, ready s → ∃ s', ready s' ∧
          (e.extractWith re parse dryRun t).on s =
            (.ok (parse.extraction .empty outside blocks), s') ∧
          e.Makes re s
            (if dryRun then [] else (parse.before blocks).flatMap e.calledAtOnce) s') ∧
        ∀ object ∈ parse.before blocks,
          e.Calls re ready (e.runParams re (.entries object) true) (e.calledAtOnce object)) := by
  have houtline {o r : Text} {bs : List Text} := @Text.outlined_iff t o r bs
  have hrun := @extractWith_eq σ e re parse dryRun t _ _ _ (houtline.2 ⟨rfl, rfl, rfl⟩)
  refine ⟨rfl, _, _, _, fun o bs r => houtline, hrun,
    fun object hobject => ?_, fun hhosts => ⟨?_, ?_⟩⟩
  · obtain ⟨block, -, hblock⟩ := exists_of_mem_objects (List.mem_of_find?_eq_some hobject)
    rw [extraction, hobject]
    exact ActionMap.payloads_ofEntries (hparse hblock)
  · intro s hs
    obtain ⟨s', hon, hmakes, hs'⟩ := calls_runOutline hready _ hhosts s hs
    refine ⟨s', hs', ?_, hmakes⟩
    rw [hrun, on_bind, hon]
    rfl
  · exact fun object hobject => (hhosts object hobject).calls_runParams

/-- An engine with an action that counts how often it is run, and one that waits. -/
def quay : Engine Nat where
  settings := .standard
  sigil := "_"
  repair := id
  fragments := none
  conditions := []
  placeholders := []
  actions := [
    ("pay", .plain fun _ => .updating (· + 1) (.done ())),
    ("sail", { ActionEntry.plain fun _ => .updating (· * 10) (.done ()) with
      eventDelayed := true })]
  callbacks := []

def quayText : Text := 
  "Pay\x7b\"pay\": 5\x7d or\x7b\"sail\": 1, \"pay\": [1, 2]\x7d go.\x7b"

def quayState : State Nat := ⟨default, [], none, 0, [], 0⟩

theorem extractWith_quayText :
    ∃ blocks calls s',
      (quay.extract (.none Nat) quayText false).on quayState =
        (.ok (BlockReader.extraction quay.readBlock .empty "Pay or go." blocks), s') ∧
      quay.Makes (.none Nat) quayState calls s' ∧
      calls.map Prod.fst = (["pay", "pay", "pay"] : List Text) := by
  have hhosts (m : ActionMap) : quay.HostsReturn (.none Nat) m fun _ => True := by
    refine ⟨fun _ _ => trivial, fun {name action} haction payload _ s _ => ?_⟩
    have hmem := Table.mem_of_get? haction
    simp only [quay, List.mem_cons, Prod.mk.injEq, List.not_mem_nil, or_false] at hmem
    rcases hmem with ⟨-, rfl⟩ | ⟨-, rfl⟩ <;> exact ⟨_, rfl, trivial⟩
  have hreader {block : Text} {object : Table Text Value} (h : quay.readBlock block = .ok object) :
      object.keys.Nodup := Block.nodup_keys_of_parse h
  obtain ⟨hextract, outside, blocks, tail, houtline, -, -, hreturns⟩ :=
    extractWith_follows_outline quay (.none Nat) hreader quayText false
      fun {s : State Nat} (_ : True) _ => trivial
  obtain ⟨rfl, rfl, -⟩ := (houtline "Pay or go."
    ["\x7b\"pay\": 5\x7d", "\x7b\"sail\": 1, \"pay\": [1, 2]\x7d"] "\x7b").1
      (Text.outlined_iff.2 (by decide +kernel))
  obtain ⟨s', -, hrun, hmakes⟩ := (hreturns fun object _ => hhosts _).1 quayState trivial
  rw [hextract]
  exact ⟨_, _, s', hrun, hmakes, by decide +kernel⟩

end Engine

end StoryScript
