import StoryScript.Proofs.Block.Objects
import StoryScript.Proofs.Engine.Delivery
import StoryScript.Proofs.Engine.Making
import StoryScript.World

/-!
# The blocks that a resolution reads

A resolution reads the blocks of a fragment after those of its templates, each up to a block that
redirects (`Engine.blocksRead`). Blocks that were read come to what all of them say together, or to
what the last one says if it redirects (`ReadBlock.ComeTo`). Main statements: the actions of a
resolution are what the blocks come to that it read (`Engine.comesOf_resolveWithin`), so a call
redirects if and only if the actions that it reports do (`Engine.resolve_redirected_iff`).
-/

namespace StoryScript

open Run

variable {σ α β : Type}

/-- A block that could be read: how many templates deep it was met, how it is written and what it
says once it was repaired. -/
structure ReadBlock (repair : Repair) where
  nesting : Nat
  written : Text
  entries : Table Text Value
  reads : Block.parse repair written = .ok entries

namespace ReadBlock

variable {repair : Repair}

def read? (repair : Repair) (written : Text) : Option (ReadBlock repair) :=
  match hreads : Block.parse repair written with
  | .error _ => none
  | .ok entries => some ⟨0, written, entries, hreads⟩

def redirects (b : ReadBlock repair) : Bool := StoryScript.redirects b.entries

def inTemplate (b : ReadBlock repair) : ReadBlock repair := { b with nesting := b.nesting + 1 }

/-- The blocks that are read among the pieces of a text, up to one that redirects. -/
def ofPieces (repair : Repair) : List Piece → List (ReadBlock repair)
  | [] => []
  | .plain _ :: pieces => ofPieces repair pieces
  | .unmatched _ :: _ => []
  | .group inner :: pieces =>
    match read? repair (Piece.group inner).written with
    | none => ofPieces repair pieces
    | some b => if b.redirects then [b] else b :: ofPieces repair pieces

def ofText (repair : Repair) (t : Text) : List (ReadBlock repair) := ofPieces repair (Piece.split t)

/-- All that blocks say, one after another. -/
def said (bs : List (ReadBlock repair)) : Table Text Value := bs.flatMap (·.entries)

/-- What blocks come to that are read one after another, beside the actions that were found before
them: what all of them say together, or a redirection, which is what the last of them says alone. -/
inductive ComeTo (found : ActionMap) :
    List (ReadBlock repair) → ActionMap → (redirected : Bool) → Prop
  | together {bs : List (ReadBlock repair)} (hbs : ∀ b ∈ bs, b.redirects = false) :
    ComeTo found bs (found.insertAll (said bs)) false
  | alone {bs : List (ReadBlock repair)} {b : ReadBlock repair}
    (hbs : ∀ b ∈ bs, b.redirects = false) (hb : b.redirects) : ComeTo found (bs ++ [b]) (.ofEntries b.entries) true

theorem read?_of_parse_eq_error {written : Text} {problem : AuthoringProblem}
    (h : Block.parse repair written = .error problem) : read? repair written = none := by
  unfold read?
  split
  · rfl
  · next hreads => cases h.symm.trans hreads

theorem read?_of_parse_eq_ok {written : Text} {entries : Table Text Value}
    (h : Block.parse repair written = .ok entries) :
    read? repair written = some ⟨0, written, entries, h⟩ := by
  unfold read?
  split
  · next hreads => cases h.symm.trans hreads
  · next hreads =>
    cases h.symm.trans hreads
    rfl

theorem said_append (bs cs : List (ReadBlock repair)) : said (bs ++ cs) = said bs ++ said cs :=
  List.flatMap_append

@[simp] theorem said_map_inTemplate (bs : List (ReadBlock repair)) :
    said (bs.map inTemplate) = said bs := by
  rw [said, List.flatMap_map]
  rfl

namespace ComeTo

variable {found found' actions : ActionMap} {bs cs : List (ReadBlock repair)} {b : ReadBlock repair}
  {redirected : Bool}

theorem nil : ComeTo found ([] : List (ReadBlock repair)) found false :=
  .together (List.forall_mem_nil _)

theorem single (hb : b.redirects) : ComeTo found [b] (.ofEntries b.entries) true :=
  .alone (List.forall_mem_nil _) hb

/-- Blocks in front that do not redirect are found before. -/
theorem trans (h : ComeTo found bs found' false) (h' : ComeTo found' cs actions redirected) :
    ComeTo found (bs ++ cs) actions redirected := by
  cases h with
  | together hbs =>
    cases h' with
    | together hcs =>
      rw [← ActionMap.insertAll_append, ← said_append]
      exact .together (List.forall_mem_append.2 ⟨hbs, hcs⟩)
    | alone hcs hb =>
      rw [← List.append_assoc]
      exact .alone (List.forall_mem_append.2 ⟨hbs, hcs⟩) hb

theorem cons (hb : b.redirects = false)
    (h : ComeTo (found.insertAll b.entries) cs actions redirected) :
    ComeTo found (b :: cs) actions redirected := by
  have hfront : ComeTo found [b] _ false := .together (List.forall_mem_singleton.2 hb)
  rw [said, List.flatMap_singleton] at hfront
  exact hfront.trans h

theorem map_inTemplate (h : ComeTo found bs actions redirected) :
    ComeTo found (bs.map inTemplate) actions redirected := by
  cases h with
  | together hbs =>
    rw [← said_map_inTemplate]
    exact .together (List.forall_mem_map.2 hbs)
  | @alone bs b hbs hb =>
    rw [List.map_append]
    exact .alone (b := b.inTemplate) (List.forall_mem_map.2 hbs) hb

/-- What blocks come to on their own is merged into what was found before them, unless they
redirect. -/
theorem merge (hfound : found.Consistent) (h : ComeTo .empty bs actions redirected) :
    ComeTo found bs (if redirected then actions else found.insertAll actions.payloads)
      redirected := by
  cases h with
  | together hbs =>
    have hmerged := ActionMap.insertAll_payloads hfound (said bs)
    rw [if_neg Bool.false_ne_true, ← ActionMap.ofEntries, hmerged]
    exact .together hbs
  | alone hbs hb => exact .alone hbs hb

theorem consistent (hfound : found.Consistent) (h : ComeTo found bs actions redirected) :
    actions.Consistent := by
  cases h with
  | together => exact ActionMap.consistent_insertAll hfound _
  | alone => exact ActionMap.consistent_ofEntries _

theorem eq_of_not_redirected (h : ComeTo .empty bs actions false) :
    (∀ b ∈ bs, b.redirects = false) ∧ actions = .ofEntries (said bs) := by
  cases h with
  | together hbs => exact ⟨hbs, rfl⟩

theorem redirected_of_mem (h : ComeTo found bs actions redirected) (hmem : b ∈ bs)
    (hb : b.redirects) : redirected := by
  cases h with
  | together hbs => exact (hbs b hmem).symm.trans hb
  | alone => rfl

theorem exists_last (h : ComeTo found bs actions true) :
    ∃ before b, bs = before ++ [b] ∧ (∀ b' ∈ before, b'.redirects = false) ∧ b.redirects ∧
      actions = .ofEntries b.entries := by
  cases h with
  | alone hbs hb => exact ⟨_, _, rfl, hbs, hb, rfl⟩

end ComeTo

end ReadBlock

open ReadBlock

/-- What a text whose templates were substituted, or the redirection in its place, owes to the
blocks of the templates. -/
def Substitution.ComesOf (found : ActionMap) (bs : List (ReadBlock repair)) : Substitution → Prop
  | .text _ found' => ComeTo found bs found' false
  | .redirected r =>
    ComeTo found bs r.actions true ∧ r.redirected ∧ r.output = [] ∧ r.speaker = none

theorem Substitution.ComesOf.after {found found' : ActionMap} {bs cs : List (ReadBlock repair)}
    {substitution : Substitution} (hbs : ComeTo found bs found' false)
    (h : substitution.ComesOf found' cs) : substitution.ComesOf found (bs ++ cs) := by
  cases substitution with
  | text output found'' => exact hbs.trans h
  | redirected r => exact ⟨hbs.trans h.1, h.2⟩

/-- A resolution owes its actions to blocks, and shows nothing if it is a redirection. -/
structure Resolution.ComesOf (bs : List (ReadBlock repair)) (r : Resolution) : Prop where
  actions : ComeTo .empty bs r.actions r.redirected
  shows : r.redirected → r.output = [] ∧ r.speaker = none

namespace Engine

variable (e : Engine σ) (re : Reentry σ) (dryRun : Bool)

/-! ## The blocks of a resolution -/

/-- The fragment that is resolved in the place of a template reference, if one is loaded. -/
def template? (s : State σ) (reference : Text) : Option Text :=
  match reaches s.depth e.settings.maxTemplateDepth,
    e.loadFragment s.flags.current reference with
  | .ok false, .ok (.text t) => some t
  | _, _ => none

/-- The blocks that are read in the templates of cuts, up to the first template that redirects. -/
def templateBlocks (nested : Text → Run σ Resolution)
    (blocksOf : Text → State σ → List (ReadBlock e.repair)) :
    List Cut → State σ → List (ReadBlock e.repair)
  | [], _ => []
  | .plain _ :: cuts, s => templateBlocks nested blocksOf cuts s
  | .span inner :: cuts, s =>
    let here :=
      match e.template? s ('$' :: inner) with
      | some t => (blocksOf t { s with depth := s.depth + 1 }).map inTemplate
      | none => []
    match (e.substituteTemplate nested ('$' :: inner)).on s with
    | (.ok none, s') => here ++ templateBlocks nested blocksOf cuts s'
    | (.ok (some r), s') =>
      if r.redirected then here else here ++ templateBlocks nested blocksOf cuts s'
    | (.error _, _) => here

/-- The blocks that are read where a text is resolved a number of levels deep: those of its
templates, and then those of the text that the templates were substituted in. -/
def blocksWithin : (levels : Nat) → Text → State σ → List (ReadBlock e.repair)
  | 0, _, _ => []
  | levels + 1, t, s =>
    match (e.rendered re t).on s with
    | (.error _, _) => []
    | (.ok u, s₁) =>
      let nested := e.resolveWithin re dryRun levels
      let before := e.templateBlocks nested (blocksWithin levels) (templateMarks.cut u) s₁
      match (e.templatePass nested [] .empty (templateMarks.cut u)).on s₁ with
      | (.ok (.text v _), _) => before ++ ofText e.repair v
      | _ => before

/-- The blocks that a call reads. -/
def blocksRead (t : Text) (s : State σ) : List (ReadBlock e.repair) :=
  match (e.trigger re resolveBefore [.text t]).on s with
  | (.ok true, s₁) => e.blocksWithin re dryRun (levels e.settings + 1) t s₁
  | _ => []

/-! ## What the passes come to -/

variable {e re dryRun} {s s' : State σ}

theorem on_substituteTemplate_of_some {reference t : Text}
    (h : e.template? s reference = some t) (nested : Text → Run σ Resolution) :
    (e.substituteTemplate nested reference).on s = (some <$> deeper (nested t)).on s := by
  unfold template? at h
  split at h
  · next hreaches hload =>
    obtain rfl := Option.some.inj h
    show Run.on (do
      if ← Run.ofExcept (reaches s.depth e.settings.maxTemplateDepth) then _ else _) s = _
    rw [hreaches, hload]
    rfl
  · cases h

/-- Where no fragment is loaded, the reference is left as it is or the run fails. -/
theorem on_substituteTemplate_of_none {reference : Text} (h : e.template? s reference = none) :
    ∃ answer logged, (∀ r, answer ≠ .ok (some r)) ∧ (∀ n ∈ logged, n.invocation? = none) ∧
      ∀ nested, (e.substituteTemplate nested reference).on s =
        (answer, { s with notices := s.notices ++ logged }) := by
  have hrun (nested : Text → Run σ Resolution) : (e.substituteTemplate nested reference).on s =
      (Run.on (do
        if ← Run.ofExcept (reaches s.depth e.settings.maxTemplateDepth) then _ else _) s) := rfl
  unfold template? at h
  cases hreaches : reaches s.depth e.settings.maxTemplateDepth with
  | error failure =>
    refine ⟨.error failure, [], fun _ => nofun, by simp, fun nested => ?_⟩
    rw [hrun, hreaches, List.append_nil]
    rfl
  | ok tooDeep =>
    cases tooDeep with
    | true =>
      refine ⟨.ok none, [.templateTooDeep reference (limitOf e.settings.maxTemplateDepth)],
        fun _ => nofun, List.forall_mem_singleton.2 rfl, fun nested => ?_⟩
      rw [hrun, hreaches]
      rfl
    | false =>
      cases hload : e.loadFragment s.flags.current reference with
      | error failure =>
        refine ⟨.ok none, [.templateRejected reference failure], fun _ => nofun,
          List.forall_mem_singleton.2 rfl, fun nested => ?_⟩
        rw [hrun, hreaches, hload]
        simp only [isOfStory_of_loadFragment hload]
        rfl
      | ok fragment =>
        cases fragment with
        | text t =>
          rw [hreaches, hload] at h
          cases h
        | _ =>
          refine ⟨.error (.mismatch .fragment), [], fun _ => nofun, by simp, fun nested => ?_⟩
          rw [hrun, hreaches, hload, List.append_nil]
          rfl

/-- A reference is left as it is with nothing but reports, or resolved one level deeper. -/
theorem substituteTemplate_cases {nested : Text → Run σ Resolution} {reference : Text}
    {answer : Option Resolution}
    (h : (e.substituteTemplate nested reference).on s = (.ok answer, s')) :
    (answer = none ∧ e.template? s reference = none ∧ ∃ logged,
      (∀ n ∈ logged, n.invocation? = none) ∧ s' = { s with notices := s.notices ++ logged }) ∨
    ∃ t r s₁, answer = some r ∧ e.template? s reference = some t ∧
      (nested t).on { s with depth := s.depth + 1 } = (.ok r, s₁) ∧
        s' = { s₁ with depth := s₁.depth - 1 } := by
  cases hload : e.template? s reference with
  | none =>
    obtain ⟨answer', logged, hanswer, hlogged, hrun⟩ := on_substituteTemplate_of_none hload
    rw [hrun] at h
    obtain ⟨rfl, rfl⟩ := Prod.mk.inj h
    cases answer with
    | none => exact .inl ⟨rfl, rfl, logged, hlogged, rfl⟩
    | some r => exact absurd rfl (hanswer r)
  | some t =>
    rw [on_substituteTemplate_of_some hload] at h
    obtain ⟨r, s₂, hdeeper, h⟩ := exists_of_on_bind_eq_ok h
    cases h
    rw [on_deeper] at hdeeper
    obtain ⟨hanswer, hstate⟩ := Prod.mk.inj hdeeper
    exact .inr ⟨t, r, _, rfl, rfl, Prod.ext hanswer rfl, hstate.symm⟩

/-- A group is passed over if it cannot be read, ends the pieces if it redirects, and is run in its
place otherwise. -/
theorem extractPieces_group_cases (e : Engine σ) (re : Reentry σ) (dryRun : Bool) (output : Text)
    (found : ActionMap) (inner : Text) (pieces : List Piece) (s : State σ) :
    (∃ n, read? e.repair (Piece.group inner).written = none ∧ n.invocation? = none ∧
      (e.extractPieces re dryRun output found (.group inner :: pieces)).on s =
        (e.extractPieces re dryRun output found pieces).on
          { s with notices := s.notices ++ [n] }) ∨
    ∃ b, read? e.repair (Piece.group inner).written = some b ∧
      ((b.redirects ∧ (e.extractPieces re dryRun output found (.group inner :: pieces)).on s =
        (.ok ⟨[], .ofEntries b.entries, true⟩, s)) ∨
      (b.redirects = false ∧
        (e.extractPieces re dryRun output found (.group inner :: pieces)).on s =
          Run.on (do
            if !dryRun then e.runActions re (.ofEntries b.entries) true
            e.extractPieces re dryRun output (found.insertAll b.entries) pieces) s)) := by
  rw [extractPieces_group]
  cases hparse : e.readBlock (Piece.group inner).written with
  | error problem =>
    exact .inl ⟨.actionRejected (.authoring problem), read?_of_parse_eq_error hparse, rfl, rfl⟩
  | ok entries =>
    refine .inr ⟨_, read?_of_parse_eq_ok hparse, ?_⟩
    unfold ReadBlock.redirects
    dsimp only
    cases redirects entries with
    | true => exact .inl ⟨rfl, rfl⟩
    | false => exact .inr ⟨rfl, rfl⟩

theorem comeTo_extractPieces {output : Text} {found : ActionMap} {pieces : List Piece}
    {x : Extraction} (h : (e.extractPieces re dryRun output found pieces).on s = (.ok x, s')) :
    ComeTo found (ofPieces e.repair pieces) x.actions x.redirected := by
  induction pieces generalizing output found s with
  | nil =>
    cases h
    exact .nil
  | cons piece pieces ih =>
    cases piece with
    | plain t => exact ih h
    | unmatched rest =>
      cases h
      exact .nil
    | group inner =>
      rw [ofPieces]
      rcases e.extractPieces_group_cases re dryRun output found inner pieces s with
        ⟨n, hread, -, hrun⟩ | ⟨b, hread, ⟨hredirects, hrun⟩ | ⟨hredirects, hrun⟩⟩
      · rw [hread]
        exact ih (hrun.symm.trans h)
      · cases hrun.symm.trans h
        rw [hread]
        dsimp only
        rw [if_pos hredirects]
        exact .single hredirects
      · rw [hrun] at h
        rw [hread]
        dsimp only
        rw [if_neg (by simp [hredirects])]
        refine .cons hredirects ?_
        cases dryRun with
        | true => exact ih h
        | false =>
          obtain ⟨_, s₁, -, h⟩ := exists_of_on_bind_eq_ok h
          exact ih h

/-- Templates come to what their blocks come to, if each of them does. -/
theorem comesOf_templatePass {nested : Text → Run σ Resolution}
    {blocksOf : Text → State σ → List (ReadBlock e.repair)}
    (hnested : ∀ {t s r s'}, (nested t).on s = (.ok r, s') → r.ComesOf (blocksOf t s))
    {output : Text} {found : ActionMap} (hfound : found.Consistent) {cuts : List Cut}
    {substitution : Substitution}
    (h : (e.templatePass nested output found cuts).on s = (.ok substitution, s')) :
    substitution.ComesOf found (e.templateBlocks nested blocksOf cuts s) := by
  induction cuts generalizing output found s with
  | nil =>
    cases h
    exact ComeTo.nil
  | cons cut cuts ih =>
    cases cut with
    | plain t => exact ih hfound h
    | span inner =>
      obtain ⟨answer, s₁, hsubstitute, h⟩ := exists_of_on_bind_eq_ok h
      unfold templateBlocks
      rw [hsubstitute]
      rcases substituteTemplate_cases hsubstitute with
        ⟨rfl, htemplate, -⟩ | ⟨t, r, s₂, rfl, htemplate, hrun, rfl⟩
      · rw [htemplate]
        exact ih hfound h
      · rw [htemplate]
        obtain ⟨hcome, hshows⟩ := hnested hrun
        have hhere := hcome.map_inTemplate.merge hfound
        dsimp only at h ⊢
        cases hr : r.redirected with
        | true =>
          rw [hr, if_pos rfl] at h hhere
          cases h
          exact ⟨hhere, hr, hshows hr⟩
        | false =>
          rw [hr, if_neg Bool.false_ne_true] at h hhere
          exact .after hhere (ih (ActionMap.consistent_insertAll hfound _) h)

theorem comesOf_finish {t : Text} {found : ActionMap} {bs : List (ReadBlock e.repair)} {r : Resolution}
    (hfound : ComeTo .empty bs found false)
    (h : (e.finish re dryRun t found).on s = (.ok r, s')) : r.ComesOf (bs ++ ofText e.repair t) := by
  obtain ⟨x, s₁, hextract, h⟩ := exists_of_on_bind_eq_ok h
  have hmerged := hfound.trans
    ((comeTo_extractPieces hextract).merge (hfound.consistent ActionMap.consistent_empty))
  cases hx : x.redirected with
  | true =>
    simp only [hx, if_true] at h hmerged
    cases h
    exact ⟨hmerged, fun _ => ⟨rfl, rfl⟩⟩
  | false =>
    simp only [hx, Bool.false_eq_true, if_false] at h hmerged
    obtain ⟨s₂, s₃, -, h⟩ := exists_of_on_bind_eq_ok h
    obtain ⟨output, s₄, -, h⟩ := exists_of_on_bind_eq_ok h
    cases h
    exact ⟨hmerged, nofun⟩

/-- A resolution comes to what the blocks come to that it read. -/
theorem comesOf_resolveWithin {levels : Nat} {t : Text} {r : Resolution}
    (h : (e.resolveWithin re dryRun levels t).on s = (.ok r, s')) :
    r.ComesOf (e.blocksWithin re dryRun levels t s) := by
  induction levels generalizing t s r s' with
  | zero => cases h
  | succ levels ih =>
    rw [resolveWithin_succ] at h
    obtain ⟨u, s₁, hrendered, h⟩ := exists_of_on_bind_eq_ok h
    obtain ⟨substitution, s₂, hpass, h⟩ := exists_of_on_bind_eq_ok h
    have hcomes := comesOf_templatePass ih ActionMap.consistent_empty hpass
    rw [blocksWithin, hrendered]
    dsimp only
    rw [hpass]
    cases substitution with
    | redirected r' =>
      cases h
      obtain ⟨hcome, hredirected, hshows⟩ := hcomes
      exact ⟨hredirected ▸ hcome, fun _ => hshows⟩
    | text v found => exact comesOf_finish hcomes h

/-- A call that returns was stopped by a callback, or delivers the resolution of the text and notes
who is talking. -/
theorem resolve_cases {t : Text} {r : Resolution}
    (h : (e.resolve re t dryRun).on s = (.ok r, s')) :
    ((e.trigger re resolveBefore [.text t]).on s = (.ok false, s') ∧ r = .empty) ∨
    ∃ found s₁ s₂, (e.trigger re resolveBefore [.text t]).on s = (.ok true, s₁) ∧
      (e.resolveWithin re dryRun (levels e.settings + 1) t).on s₁ = (.ok found, s₂) ∧
        r = e.delivered dryRun s₂.memory found ∧
          s' = if found.redirected then s₂ else { s₂ with talking := found.speaker } := by
  obtain ⟨goesOn, s₁, htrigger, h⟩ := exists_of_on_bind_eq_ok h
  cases goesOn with
  | false =>
    cases h
    exact .inl ⟨htrigger, rfl⟩
  | true =>
    obtain ⟨found, s₂, hwithin, h⟩ := exists_of_on_bind_eq_ok h
    refine .inr ⟨found, s₁, s₂, htrigger, hwithin, ?_⟩
    cases hfound : found.redirected with
    | true =>
      simp only [hfound] at h
      cases h
      exact ⟨rfl, rfl⟩
    | false =>
      simp only [hfound] at h
      cases h
      exact ⟨rfl, rfl⟩

/-- What a call returns was delivered of a resolution that owes its actions to the blocks read. -/
theorem comesOf_resolve {t : Text} {r : Resolution}
    (h : (e.resolve re t dryRun).on s = (.ok r, s')) :
    ∃ found, r = e.delivered dryRun s'.memory found ∧
      found.ComesOf (e.blocksRead re dryRun t s) := by
  rw [blocksRead]
  rcases resolve_cases h with ⟨htrigger, rfl⟩ | ⟨found, s₁, s₂, htrigger, hwithin, rfl, rfl⟩
  · rw [htrigger]
    exact ⟨.empty, delivered_empty.symm, .nil, nofun⟩
  · rw [htrigger, apply_ite State.memory, ite_self]
    exact ⟨found, rfl, comesOf_resolveWithin hwithin⟩

end Engine

end StoryScript
