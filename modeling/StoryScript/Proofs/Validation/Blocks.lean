import StoryScript.Proofs.Engine.Extraction
import StoryScript.Proofs.Markup.Absent
import StoryScript.Proofs.Validation.Braces
import StoryScript.Proofs.Validation.Findings

/-!
# Checking a block and running it

A check lists the names of a block that an engine does not know (`Engine.unknown`), and a run of the
block rejects the same names one after another, unless the block redirects: then no name is looked
up. Main statement: a check of a single block has the issues that taking it out of the text reports
as errors, and of a block that redirects it has the names that are not known
(`Validation.block_issue_iff_error`).
-/

namespace StoryScript

open Run

variable {σ α β : Type}

/-! ## Runs that report some errors -/

/-- A state whose reports are those of another and then some, of which the errors are given. -/
def State.LogsErrors (errors : List Notice) (s s' : State σ) : Prop :=
  ∃ logged, s'.notices = s.notices ++ logged ∧ logged.filter (·.level == .error) = errors

/-- A run that, from whatever state of a kind, returns and reports some errors, and is left in such
a state. -/
def Run.ReturnsWith (ready : State σ → Prop) (errors : List Notice) (x : Run σ α) : Prop :=
  ∀ s, ready s → ∃ a s', x.on s = (.ok a, s') ∧ ready s' ∧ s.LogsErrors errors s'

namespace Run.ReturnsWith

variable {ready : State σ → Prop} {errors errors' : List Notice}

theorem pure (a : α) : ReturnsWith ready [] (Pure.pure a : Run σ α) :=
  fun s hs => ⟨a, s, rfl, hs, [], (List.append_nil _).symm, rfl⟩

theorem bind {x : Run σ α} {f : α → Run σ β} (hx : ReturnsWith ready errors x)
    (hf : ∀ a, ReturnsWith ready errors' (f a)) :
    ReturnsWith ready (errors ++ errors') (x >>= f) := by
  intro s hs
  obtain ⟨a, s₁, hrun, hs₁, logged, hnotices, rfl⟩ := hx s hs
  obtain ⟨b, s', hrun', hs', logged', hnotices', rfl⟩ := hf a s₁ hs₁
  refine ⟨b, s', ?_, hs', logged ++ logged', ?_, List.filter_append ..⟩
  · rw [on_bind, hrun]
    exact hrun'
  · rw [hnotices', hnotices, List.append_assoc]

theorem notify
    (hready : ∀ {s : State σ}, ready s → ∀ ns, ready { s with notices := s.notices ++ ns })
    (n : Notice) : ReturnsWith ready ([n].filter (·.level == .error)) (Run.notify n) :=
  fun _ hs => ⟨(), _, rfl, hready hs [n], [n], rfl, rfl⟩

end Run.ReturnsWith

namespace Engine

/-- Whether a name is neither that of a clause nor that of a registered action. -/
def isUnknown (e : Engine σ) (name : Text) : Bool :=
  !(Gate.isClauseKey name || e.actions.contains name)

def unknown (e : Engine σ) (object : Table Text Value) : List Text :=
  object.keys.filter e.isUnknown

/-- Whatever actions are run from a state of a kind, they return, report nothing and leave such a
state. -/
structure SilentHosts (e : Engine σ) (re : Reentry σ) (ready : State σ → Prop) : Prop where
  notices : ∀ {s : State σ}, ready s → ∀ ns, ready { s with notices := s.notices ++ ns }
  action : ∀ {name action}, e.actions.get? name = some action → ∀ payload s, ready s →
    ∃ s', ((action.action payload).run re).on s = (.ok (), s') ∧ ready s' ∧
      s'.notices = s.notices

variable {e : Engine σ} {re : Reentry σ} {ready : State σ → Prop}

namespace SilentHosts

theorem runInvocations (h : e.SilentHosts re ready) {name : Text} {action : ActionEntry σ}
    (haction : e.actions.get? name = some action) (payloads : List Value) :
    ReturnsWith ready [] (Engine.runInvocations re name action payloads) := by
  induction payloads with
  | nil => exact .pure ()
  | cons payload payloads ih =>
    have hcall : ReturnsWith ready [] ((action.action payload).run re) := by
      intro s hs
      obtain ⟨s', hrun, hs', hnotices⟩ := h.action haction payload s hs
      exact ⟨(), s', hrun, hs', [], by rw [hnotices, List.append_nil], rfl⟩
    exact (ReturnsWith.notify h.notices (.actionRun name payload)).bind fun _ =>
      hcall.bind fun _ => ih

/-- Of the names that are run, the unknown ones are rejected. -/
theorem runNamed (h : e.SilentHosts re ready) (m : ActionMap) (skipDelayed : Bool)
    (names : List Text) :
    ReturnsWith ready
      ((names.filter e.isUnknown).map fun name => .actionRejected (.unregistered .action name))
      (e.runNamed re m skipDelayed names) := by
  induction names with
  | nil => exact .pure ()
  | cons name names ih =>
    rw [Engine.runNamed]
    cases hclause : Gate.isClauseKey name with
    | true =>
      have hknown : ¬ e.isUnknown name := by simp [isUnknown, hclause]
      rw [List.filter_cons_of_neg hknown]
      exact ih
    | false =>
      cases haction : e.actions.get? name with
      | none =>
        have hunknown : e.isUnknown name := by simp [isUnknown, Table.contains, hclause, haction]
        rw [List.filter_cons_of_pos hunknown, entry, haction]
        exact (ReturnsWith.notify h.notices (.actionRejected (.unregistered .action name))).bind
          fun _ => ih
      | some action =>
        have hknown : ¬ e.isUnknown name := by simp [isUnknown, Table.contains, haction]
        rw [List.filter_cons_of_neg hknown, entry, haction]
        cases hskips : skipDelayed && action.eventDelayed with
        | true => simpa [hskips] using ih
        | false =>
          simpa [hskips] using (h.runInvocations haction (m.invocations name)).bind fun _ => ih

end SilentHosts

/-! ## Taking out a block -/

variable (e) in
/-- The errors of a block that does not redirect. -/
def blockErrors (b : Text) : List Notice :=
  match e.readBlock b with
  | .error problem => [.actionRejected (.authoring problem)]
  | .ok object => (e.unknown object).map fun name => .actionRejected (.unregistered .action name)

theorem SilentHosts.extract (h : e.SilentHosts re ready) {b : Text} (hgroup : b.IsGroup)
    (hstays : ∀ object, e.readBlock b = .ok object → redirects object = false) :
    ReturnsWith ready (e.blockErrors b) (e.extract re b false) := by
  obtain ⟨inner, rfl, hsplit⟩ := hgroup.split
  rw [Engine.extract, hsplit, extractPieces_group, blockErrors]
  cases hparse : e.readBlock (Piece.group inner).written with
  | error problem =>
    exact (ReturnsWith.notify h.notices (.actionRejected (.authoring problem))).bind
      fun _ => .pure _
  | ok object =>
    have hrun := h.runNamed (.ofEntries object) true (ActionMap.ofEntries object).names
    have hblock := hrun.bind fun _ => ReturnsWith.pure
      (⟨[], ActionMap.empty.insertAll object, false⟩ : Extraction)
    have hnames : (ActionMap.ofEntries object).names = object.keys :=
      congrArg Table.keys (ActionMap.payloads_ofEntries (Block.nodup_keys_of_parse hparse))
    rw [List.append_nil, hnames, ← unknown, ← hnames] at hblock
    simp only [hstays object hparse]
    exact hblock

/-- A block that redirects is taken out without a report, and none of its actions is run. -/
theorem extract_of_redirects {b : Text} (hgroup : b.IsGroup) {object : Table Text Value}
    (hparse : e.readBlock b = .ok object) (hredirects : redirects object)
    (s : State σ) :
    (e.extract re b false).on s = (.ok ⟨[], .ofEntries object, true⟩, s) := by
  obtain ⟨inner, rfl, hsplit⟩ := hgroup.split
  rw [Engine.extract, hsplit, extractPieces_group, hparse]
  simp only [hredirects]
  rfl

end Engine

/-! ## Checking a block -/

namespace Check

variable {e : Engine σ} {b : Text}

theorem blockFindings_of_ok {object : Table Text Value} (h : e.readBlock b = .ok object) :
    blockFindings e b = (e.unknown object).map (.unregistered .action) := by
  unfold blockFindings Engine.unknown Table.keys
  rw [h]
  clear h
  dsimp only
  induction object with
  | nil => rfl
  | cons p object ih =>
    rw [List.flatMap_cons, ih, List.map_cons, List.filter_cons, Engine.isUnknown]
    cases Gate.isClauseKey p.1 || e.actions.contains p.1 <;> rfl

/-- The findings of a block say what its errors say. -/
theorem map_message_blockFindings (e : Engine σ) (b : Text) :
    (blockFindings e b).map Finding.message = (e.blockErrors b).map Notice.message := by
  unfold Engine.blockErrors
  cases h : e.readBlock b with
  | error problem =>
    rw [blockFindings, h]
    rfl
  | ok object =>
    rw [blockFindings_of_ok h, List.map_map, List.map_map]
    rfl

theorem map_finding_place (offset : Nat) (findings : List Finding) :
    (place offset findings).map (·.finding) = findings := by
  rw [place, List.map_map]
  exact List.map_id findings

/-- Of a single block, nothing is found but what there is to find about the block. -/
theorem found_of_isGroup (e : Engine σ) (current : Key) (hgroup : b.IsGroup) (hbar : '|' ∉ b)
    (hcode : ¬ ("[code]" : Text) <:+: b) :
    ((run e current b).found.map (·.finding)).Perm (blockFindings e b) := by
  obtain ⟨inner, rfl, hsplit⟩ := hgroup.split
  have hcuts :
      ofReferences e current 0 (placeholderMarks.cut (Piece.group inner).written) = [] := by
    rw [Delimiter.cut_of_absent (Delimiter.absent_of_not_mem (c := '|') (by decide) hbar)]
    rfl
  have hbraces : braces (Piece.group inner).written = [.group 0 none inner] := by
    rw [braces_eq_bracesOf, hsplit]
    rfl
  have hblock : [Brace.group 0 none inner].flatMap (ofBrace e) =
      place 0 (blockFindings e (Piece.group inner).written) := List.append_nil _
  have hchains : chainFindings .outside [.group 0 none inner] = [] := rfl
  have hfound := (found_run e current (Piece.group inner).written).map (·.finding)
  rwa [Code.blank_of_absent hcode, hcuts, hbraces, hblock, hchains, List.nil_append,
    List.append_nil, map_finding_place] at hfound

end Check

namespace Validation

theorem findings_of_isGroup (e : Engine σ) (current : Key) {b : Text} (hgroup : b.IsGroup)
    (hbar : '|' ∉ b) (hcode : ¬ ("[code]" : Text) <:+: b) :
    ((ofScript e current b).issues.map (·.finding)).Perm (Check.blockFindings e b) := by
  have hissues := (issues_perm e current b).map (·.finding)
  rw [List.map_map] at hissues
  exact hissues.trans (Check.found_of_isGroup e current hgroup hbar hcode)

/-- Checking a block agrees with running it. Of a text that is a single block, without bars and code
spans, a check has an issue just where taking the block out reports an error, and the issues say
what the errors say, unless the block redirects. Taking out a block that redirects reports nothing,
while a check has an issue for each other name of the block that is not known, and issues about
names only. Whether it has one about the name of the redirection is left open, since a redirection
needs no action. -/
theorem block_issue_iff_error (e : Engine σ) (re : Reentry σ) (current : Key) {b : Text}
    (hgroup : b.IsGroup) (hbar : '|' ∉ b) (hcode : ¬ ("[code]" : Text) <:+: b)
    {ready : State σ → Prop} (hhosts : e.SilentHosts re ready) {s : State σ} (hs : ready s) :
    ((∀ object, e.readBlock b = .ok object → redirects object = false) →
      ∃ x s' logged, (e.extract re b false).on s = (.ok x, s') ∧
        s'.notices = s.notices ++ logged ∧
        ((ofScript e current b).issues ≠ [] ↔ ∃ n ∈ logged, n.level = .error) ∧
        ((ofScript e current b).issues.map (·.finding.message)).Perm
          ((logged.filter (·.level == .error)).map Notice.message)) ∧
    ∀ object, e.readBlock b = .ok object → redirects object →
      (e.extract re b false).on s = (.ok ⟨[], .ofEntries object, true⟩, s) ∧
      (∀ name, name ≠ redirectKey →
        ((∃ i ∈ (ofScript e current b).issues, i.finding = .unregistered .action name) ↔
          name ∈ e.unknown object)) ∧
      ∀ i ∈ (ofScript e current b).issues, ∃ name ∈ e.unknown object,
        i.finding = .unregistered .action name := by
  have hfindings := findings_of_isGroup e current hgroup hbar hcode
  constructor
  · intro hstays
    obtain ⟨x, s', hrun, -, logged, hnotices, hlogged⟩ := hhosts.extract hgroup hstays s hs
    have hmessages : ((ofScript e current b).issues.map (·.finding.message)).Perm
        ((logged.filter (·.level == .error)).map Notice.message) := by
      have h := hfindings.map Finding.message
      rw [List.map_map, Check.map_message_blockFindings] at h
      rw [hlogged]
      exact h
    refine ⟨x, s', logged, hrun, hnotices, ?_, hmessages⟩
    have hlength := hmessages.length_eq
    rw [List.length_map, List.length_map] at hlength
    rw [← List.length_pos_iff, hlength, List.length_pos_iff, ne_eq, List.filter_eq_nil_iff]
    simp
  · intro object hparse hredirects
    rw [Check.blockFindings_of_ok hparse] at hfindings
    have hissue {f : Finding} : (∃ i ∈ (ofScript e current b).issues, i.finding = f) ↔
        ∃ name ∈ e.unknown object, .unregistered .action name = f := by
      rw [← List.mem_map, ← List.mem_map]
      exact hfindings.mem_iff
    refine ⟨Engine.extract_of_redirects hgroup hparse hredirects s, fun name _ => ?_,
      fun i hi => ?_⟩
    · rw [hissue]
      simp
    · obtain ⟨name, hname, hfinding⟩ := hissue.1 ⟨i, hi, rfl⟩
      exact ⟨name, hname, hfinding.symm⟩

/-- An engine that has an action for a redirection too. -/
def hideout : Engine Unit where
  settings := .standard
  sigil := "_"
  repair := id
  fragments := none
  conditions := []
  placeholders := []
  actions := [("redirect", .plain ActionEntry.nothing), ("whisper", .plain ActionEntry.nothing)]
  callbacks := []

def hideoutState : State Unit := ⟨default, [], none, 0, [], ()⟩

theorem silentHosts_hideout : hideout.SilentHosts (.none Unit) fun _ => True where
  notices := fun _ _ => trivial
  action := by
    intro name action haction payload s _
    have hmem := Table.mem_of_get? haction
    simp only [hideout, List.mem_cons, Prod.mk.injEq, List.not_mem_nil, or_false] at hmem
    rcases hmem with ⟨-, rfl⟩ | ⟨-, rfl⟩ <;> exact ⟨s, rfl, trivial, rfl⟩

def shoutText : Text := 
  "\x7b\"whisper\": \"low\", \"shout\": \"loud\", \"if\": \"late\"\x7d"

/-- The shout is reported as an error and is an issue. -/
theorem block_issue_shoutText :
    ∃ x s' logged, (hideout.extract (.none Unit) shoutText false).on hideoutState = (.ok x, s') ∧
      s'.notices = hideoutState.notices ++ logged ∧
      (ofScript hideout (.text "main") shoutText).issues ≠ [] ∧ ∃ n ∈ logged, n.level = .error := by
  have hgroup : Text.IsGroup shoutText :=
    @Text.IsGroup.of_split "\"whisper\": \"low\", \"shout\": \"loud\", \"if\": \"late\""
      (by decide +kernel)
  have hstays : ∀ object, hideout.readBlock shoutText = .ok object →
      redirects object = false := by
    intro object hobject
    have hparse : ((hideout.readBlock shoutText).toOption.map redirects) = some false := by
      decide +kernel
    rw [hobject] at hparse
    exact Option.some.inj hparse
  obtain ⟨x, s', logged, hrun, hnotices, hiff, -⟩ :=
    (block_issue_iff_error hideout (.none Unit) (.text "main") hgroup (by decide +kernel)
      (by decide +kernel) silentHosts_hideout (s := hideoutState) trivial).1 hstays
  obtain ⟨i, hi, -⟩ : ∃ i ∈ (ofScript hideout (.text "main") shoutText).issues, true :=
    exists_issue (p := fun _ => true) (by decide +kernel)
  have hissues := List.ne_nil_of_mem hi
  exact ⟨x, s', logged, hrun, hnotices, hissues, hiff.1 hissues⟩

def caveText : Text := "\x7b\"redirect\": \"cave\", \"hurt\": 5\x7d"

/-- A block that redirects has an issue, for the name beside the redirection, and no error. -/
theorem block_issue_without_error :
    Text.IsGroup caveText ∧ '|' ∉ caveText ∧ ¬ ("[code]" : Text) <:+: caveText ∧
    hideout.SilentHosts (.none Unit) (fun _ => True) ∧
    ∃ x s', (hideout.extract (.none Unit) caveText false).on hideoutState = (.ok x, s') ∧
      ¬ ((ofScript hideout (.text "main") caveText).issues ≠ [] ↔
        ∃ logged, s'.notices = hideoutState.notices ++ logged ∧
          ∃ n ∈ logged, n.level = .error) := by
  have hgroup : Text.IsGroup caveText :=
    @Text.IsGroup.of_split "\"redirect\": \"cave\", \"hurt\": 5" (by decide +kernel)
  refine ⟨hgroup, by decide +kernel, by decide +kernel, silentHosts_hideout, ?_⟩
  have hredirects : ((hideout.readBlock caveText).toOption.map redirects) = some true := by
    decide +kernel
  cases hparse : hideout.readBlock caveText with
  | error problem =>
    rw [hparse] at hredirects
    cases hredirects
  | ok object =>
    rw [hparse] at hredirects
    refine ⟨_, _, Engine.extract_of_redirects hgroup hparse (Option.some.inj hredirects) _,
      fun hiff => ?_⟩
    obtain ⟨i, hi, -⟩ : ∃ i ∈ (ofScript hideout (.text "main") caveText).issues, true :=
      exists_issue (p := fun _ => true) (by decide +kernel)
    obtain ⟨logged, hlogged, n, hn, -⟩ := hiff.1 (List.ne_nil_of_mem hi)
    obtain rfl : logged = [] := List.self_eq_append_right.1 hlogged
    cases hn

end Validation

end StoryScript
