import StoryScript.Proofs.Branch.Tokens
import StoryScript.Proofs.Engine.Calls
import StoryScript.Proofs.Engine.Containment
import StoryScript.Proofs.Engine.DryRun
import StoryScript.Proofs.Markup.Absent

/-!
# Texts that redirect before anything else

A text may begin with a block that redirects, behind text that no pass can change
(`LeadingRedirect`). Every pass before the blocks leaves this front in its place
(`LeadingRedirect.prefix_of_rendered`, `LeadingRedirect.prefix_of_templatePass`), and the block is
the only one of the text that is read (`LeadingRedirect.ofText_eq`). Main statement: such a text
redirects, and nothing behind the block runs but the templates that are substituted before blocks
are taken out (`Engine.resolve_of_leadingRedirect`).
-/

namespace StoryScript

open Run ReadBlock

variable {σ : Type}

/-- A block that redirects, with text in front of it, so that no span of markup and no branch begins
in either. -/
structure LeadingRedirect (repair : Repair) (front block : Text) (entries : Table Text Value) :
    Prop where
  bar : '|' ∉ front ++ block
  bracket : '[' ∉ front ++ block
  brace : '{' ∉ front
  keyword : ∀ k : Keyword, ¬ k.word <:+ front
  isGroup : ∃ inner, Piece.split block = [.group inner]
  reads : Block.parse repair block = .ok entries
  redirects : ∃ target, entries.get? redirectKey = some target ∧ target.isTrue

namespace LeadingRedirect

variable {repair : Repair} {front block : Text} {entries : Table Text Value}

theorem before?_eq_none (h : LeadingRedirect repair front block entries) :
    Keyword.before? front = none := by
  refine List.find?_eq_none.2 fun k _ hk => h.keyword k ?_
  rw [eq_of_beq hk]
  exact List.drop_suffix _ _

theorem exists_block_eq (h : LeadingRedirect repair front block entries) :
    ∃ inner, Piece.split block = [.group inner] ∧ block = (Piece.group inner).written := by
  obtain ⟨inner, hinner⟩ := h.isGroup
  refine ⟨inner, hinner, ?_⟩
  have hwritten := Piece.written_split block
  rw [hinner] at hwritten
  simpa using hwritten.symm

theorem ne_nil (h : LeadingRedirect repair front block entries) : front ++ block ≠ [] := by
  obtain ⟨inner, -, rfl⟩ := h.exists_block_eq
  simp [Piece.written]

/-! ## The passes before the blocks -/

/-- The front is the beginning of the first literal. -/
theorem exists_ofText_eq (h : LeadingRedirect repair front block entries) (t : Text) :
    ∃ u tokens, Token.ofText (front ++ block ++ t) = .literal u :: tokens ∧
      front ++ block <+: u := by
  obtain ⟨inner, hinner, hblock⟩ := h.exists_block_eq
  have hclosed : front ++ '{' :: inner ++ ['}'] = front ++ block := by
    rw [hblock]
    simp [Piece.written]
  have hpieces (position : Nat) : ∃ u tokens, front ++ block <+: u ∧
      Token.ofPieces position front (.group inner :: Piece.split t) = .literal u :: tokens := by
    rw [Token.ofPieces_block h.before?_eq_none, ← hblock, ← hclosed]
    exact Token.exists_ofPieces_of_closing _ List.prefix_rfl _
  rw [Token.ofText, Piece.split_append_of_group h.brace hinner]
  cases front with
  | nil =>
    obtain ⟨u, tokens, hu, htokens⟩ := hpieces 0
    exact ⟨u, tokens, htokens, hu⟩
  | cons c cs =>
    obtain ⟨u, tokens, hu, htokens⟩ := hpieces (0 + (c :: cs).length)
    exact ⟨u, tokens, htokens, hu⟩

variable {e : Engine σ} {re : Reentry σ} {s s' : State σ}

theorem prefix_of_rendered (h : LeadingRedirect repair front block entries) {t u : Text}
    (hrun : (e.rendered re (front ++ block ++ t)).on s = (.ok u, s')) : front ++ block <+: u := by
  obtain ⟨v, s₁, hplaceholders, hbranches⟩ := exists_of_on_bind_eq_ok hrun
  have hcode : front ++ block <+: e.resolveCode (front ++ block ++ t) := by
    obtain ⟨u, cuts, hcut, hu⟩ :=
      Delimiter.exists_cut_append (d := Code.delimiter) rfl h.bracket h.ne_nil t
    rw [Engine.resolveCode, Code.resolve, hcut]
    exact hu.trans (List.prefix_append _ _)
  obtain ⟨t', ht'⟩ := hcode
  have hplaced : front ++ block <+: v := by
    obtain ⟨u, cuts, hcut, hu⟩ :=
      Delimiter.exists_cut_append (d := placeholderMarks) rfl h.bar h.ne_nil t'
    rw [← ht', Engine.resolvePlaceholders, hcut] at hplaceholders
    obtain ⟨rest, s₂, -, hrest⟩ := exists_of_on_bind_eq_ok hplaceholders
    cases hrest
    exact hu.trans (List.prefix_append _ _)
  obtain ⟨v', rfl⟩ := hplaced
  obtain ⟨_, s₂, -, hrender⟩ := exists_of_on_bind_eq_ok hbranches
  obtain ⟨u', tokens, htokens, hu'⟩ := h.exists_ofText_eq v'
  rw [Node.ofText, htokens] at hrender
  obtain ⟨rest, s₃, -, hrest⟩ := exists_of_on_bind_eq_ok hrender
  cases hrest
  exact hu'.trans (List.prefix_append _ _)

end LeadingRedirect

/-- What templates are substituted in begins with what was put out before. -/
theorem Engine.prefix_of_templatePass {e : Engine σ} {nested : Text → Run σ Resolution}
    {output v : Text} {found found' : ActionMap} {cuts : List Cut} {s s' : State σ}
    (h : (e.templatePass nested output found cuts).on s = (.ok (.text v found'), s')) :
    output <+: v := by
  induction cuts generalizing output found s with
  | nil =>
    cases h
    exact List.prefix_rfl
  | cons cut cuts ih =>
    cases cut with
    | plain t => exact (List.prefix_append _ _).trans (ih h)
    | span inner =>
      obtain ⟨answer, s₁, -, h⟩ := exists_of_on_bind_eq_ok h
      cases answer with
      | none => exact (List.prefix_append output _).trans (ih h)
      | some r =>
        dsimp only at h
        split at h
        · cases h
        · exact (List.prefix_append output _).trans (ih h)

namespace LeadingRedirect

variable {front block : Text} {entries : Table Text Value} {e : Engine σ} {re : Reentry σ}
  {s s' : State σ}

theorem prefix_of_templatePass {repair : Repair} (h : LeadingRedirect repair front block entries)
    {nested : Text → Run σ Resolution} {u v : Text} {found : ActionMap}
    (hu : front ++ block <+: u)
    (hrun : (e.templatePass nested [] .empty (templateMarks.cut u)).on s =
      (.ok (.text v found), s')) :
    front ++ block <+: v := by
  obtain ⟨t, rfl⟩ := hu
  obtain ⟨w, cuts, hcut, hw⟩ :=
    Delimiter.exists_cut_append (d := templateMarks) rfl h.bar h.ne_nil t
  rw [hcut, Engine.templatePass, List.nil_append] at hrun
  exact hw.trans (Engine.prefix_of_templatePass hrun)

/-! ## The block -/

/-- The block that the text redirects with, as it is read. -/
def toReadBlock {repair : Repair} (h : LeadingRedirect repair front block entries) :
    ReadBlock repair :=
  ⟨0, block, entries, h.reads⟩

theorem redirects_toReadBlock {repair : Repair} (h : LeadingRedirect repair front block entries) :
    h.toReadBlock.redirects := by
  obtain ⟨target, hget, htrue⟩ := h.redirects
  rw [ReadBlock.redirects, StoryScript.redirects, toReadBlock, hget]
  exact htrue

/-- What is behind the block is cut off behind it. -/
theorem exists_split_eq {repair : Repair} (h : LeadingRedirect repair front block entries)
    {v : Text}
    (hv : front ++ block <+: v) : ∃ inner pieces, block = (Piece.group inner).written ∧
      Piece.split v = Piece.ofPlain front ++ .group inner :: pieces := by
  obtain ⟨t, rfl⟩ := hv
  obtain ⟨inner, hinner, hblock⟩ := h.exists_block_eq
  exact ⟨inner, _, hblock, Piece.split_append_of_group h.brace hinner t⟩

/-- No block behind the first is read. -/
theorem ofText_eq {repair : Repair} (h : LeadingRedirect repair front block entries) {v : Text}
    (hv : front ++ block <+: v) : ofText repair v = [h.toReadBlock] := by
  obtain ⟨inner, pieces, rfl, hsplit⟩ := h.exists_split_eq hv
  have hgroup : ofPieces repair (.group inner :: pieces) = [h.toReadBlock] := by
    rw [ofPieces, read?_of_parse_eq_ok h.reads]
    exact if_pos h.redirects_toReadBlock
  rw [ofText, hsplit]
  cases front <;> exact hgroup

/-- Nothing is run, neither by the block nor by what is behind it, and what templates asked for is
dropped. -/
theorem finish_eq (h : LeadingRedirect e.repair front block entries) {v : Text}
    (hv : front ++ block <+: v)
    (dryRun : Bool) (found : ActionMap) :
    e.finish re dryRun v found = pure (.redirect (.ofEntries entries)) := by
  obtain ⟨inner, pieces, rfl, hsplit⟩ := h.exists_split_eq hv
  have hgroup (output : Text) :
      e.extractPieces re dryRun output .empty (.group inner :: pieces) =
        pure ⟨[], .ofEntries entries, true⟩ := by
    rw [Engine.extractPieces_group, Engine.readBlock, h.reads]
    exact if_pos h.redirects_toReadBlock
  have hextract : e.extract re v dryRun = pure ⟨[], .ofEntries entries, true⟩ := by
    rw [Engine.extract, hsplit]
    cases front <;> exact hgroup _
  rw [Engine.finish, hextract]
  rfl

end LeadingRedirect

namespace Engine

variable {e : Engine σ} {re : Reentry σ} {s s' : State σ}

/-! ## The templates -/

theorem nesting_pos_of_mem_templateBlocks (nested : Text → Run σ Resolution)
    (blocksOf : Text → State σ → List (ReadBlock e.repair)) (cuts : List Cut) (s : State σ) :
    ∀ b ∈ e.templateBlocks nested blocksOf cuts s, 0 < b.nesting := by
  have hin (bs : List (ReadBlock e.repair)) : ∀ b ∈ bs.map inTemplate, 0 < b.nesting :=
    List.forall_mem_map.2 fun b _ => b.nesting.succ_pos
  induction cuts generalizing s with
  | nil => exact List.forall_mem_nil _
  | cons cut cuts ih =>
    cases cut with
    | plain t => exact ih s
    | span inner =>
      unfold templateBlocks
      extract_lets here
      have hhere : ∀ b ∈ here, 0 < b.nesting := by
        simp only [here]
        split
        · exact hin _
        · exact List.forall_mem_nil _
      split
      · exact List.forall_mem_append.2 ⟨hhere, ih _⟩
      · split
        · exact hhere
        · exact List.forall_mem_append.2 ⟨hhere, ih _⟩
      · exact hhere

theorem LoadsNone.templateBlocks_eq_nil {cuts : List Cut}
    (h : e.LoadsNone s.flags.current s.depth cuts) (nested : Text → Run σ Resolution)
    (blocksOf : Text → State σ → List (ReadBlock e.repair)) :
    e.templateBlocks nested blocksOf cuts s = [] := by
  induction cuts generalizing s with
  | nil => rfl
  | cons cut cuts ih =>
    have hrest : e.LoadsNone s.flags.current s.depth cuts :=
      fun inner hinner => h inner (List.mem_cons_of_mem _ hinner)
    cases cut with
    | plain t => exact ih hrest
    | span inner =>
      have htemplate := h.template?_eq_none List.mem_cons_self
      obtain ⟨answer, logged, hanswer, -, hrun⟩ := on_substituteTemplate_of_none htemplate
      rw [templateBlocks, hrun nested, htemplate]
      cases answer with
      | error failure => rfl
      | ok substitute =>
        cases substitute with
        | none => exact ih (s := { s with notices := s.notices ++ logged }) hrest
        | some r => exact absurd rfl (hanswer r)

/-! ## Calls -/

variable {front block : Text} {entries : Table Text Value}

/-- Of the blocks of the text itself, at most the one that redirects is read, after those of
templates. -/
theorem blocksWithin_of_leadingRedirect (h : LeadingRedirect e.repair front block entries)
    {levels : Nat} {t : Text} {r : Resolution}
    (hrun : (e.resolveWithin re false (levels + 1) (front ++ block ++ t)).on s = (.ok r, s')) :
    ∃ templates own, e.blocksWithin re false (levels + 1) (front ++ block ++ t) s =
        templates ++ own ∧
      (∀ b ∈ templates, 0 < b.nesting) ∧ (own = [] ∧ r.redirected ∨ own = [h.toReadBlock]) ∧
      (e.LoadsNoTemplate re (front ++ block ++ t) s → templates = [] ∧ own = [h.toReadBlock]) := by
  rw [resolveWithin_succ] at hrun
  obtain ⟨u, s₁, hrendered, hrun⟩ := exists_of_on_bind_eq_ok hrun
  obtain ⟨substitution, s₂, hpass, hrun⟩ := exists_of_on_bind_eq_ok hrun
  have hcomes := comesOf_templatePass comesOf_resolveWithin ActionMap.consistent_empty hpass
  have hnone (hloads : e.LoadsNoTemplate re (front ++ block ++ t) s) :=
    (hloads u s₁ hrendered).templateBlocks_eq_nil (e.resolveWithin re false levels)
      (e.blocksWithin re false levels)
  refine ⟨e.templateBlocks (e.resolveWithin re false levels) (e.blocksWithin re false levels)
    (templateMarks.cut u) s₁, ?_⟩
  rw [blocksWithin, hrendered]
  dsimp only
  rw [hpass]
  cases substitution with
  | redirected r' =>
    cases hrun
    obtain ⟨hcome, hredirected, -⟩ := hcomes
    refine ⟨[], (List.append_nil _).symm, nesting_pos_of_mem_templateBlocks _ _ _ _,
      .inl ⟨rfl, hredirected⟩, fun hloads => ?_⟩
    obtain ⟨before, b, hread, -⟩ := hcome.exists_last
    rw [hnone hloads] at hread
    simp at hread
  | text v found =>
    have hv := h.prefix_of_templatePass (h.prefix_of_rendered hrendered) hpass
    refine ⟨[h.toReadBlock], ?_, nesting_pos_of_mem_templateBlocks _ _ _ _, .inr rfl,
      fun hloads => ⟨hnone hloads, rfl⟩⟩
    dsimp only
    rw [h.ofText_eq hv]

/-- Whether the blocks of the text run their actions makes no difference to it. -/
theorem resolveOver_of_leadingRedirect (h : LeadingRedirect e.repair front block entries)
    (nested : Text → Run σ Resolution) (t : Text) (s : State σ) :
    (e.resolveOver re false nested (front ++ block ++ t)).on s =
      (e.resolveOver re true nested (front ++ block ++ t)).on s := by
  rw [resolveOver, resolveOver, on_bind, on_bind]
  cases hrendered : (e.rendered re (front ++ block ++ t)).on s with
  | mk answer s₁ =>
    cases answer with
    | error failure => rfl
    | ok u =>
      dsimp only
      rw [on_bind, on_bind]
      cases hpass : (e.templatePass nested [] .empty (templateMarks.cut u)).on s₁ with
      | mk answer s₂ =>
        cases answer with
        | error failure => rfl
        | ok substitution =>
          cases substitution with
          | redirected r => rfl
          | text v found =>
            have hv := h.prefix_of_templatePass (h.prefix_of_rendered hrendered) hpass
            dsimp only
            rw [h.finish_eq hv, h.finish_eq hv]

/-- A text that begins with a block that redirects does so, whatever follows the block, unless a
callback stops it or an action of a template fails. It makes no difference whether the blocks of
the text itself run their actions, as the first is the only one that is read. The templates of what
follows are still substituted before it, up to the first that redirects, whose redirection then
takes the place of this one; these templates call what their blocks call, and nothing else is called
where actions are called by blocks alone. -/
theorem resolve_of_leadingRedirect (e : Engine σ) (re : Reentry σ)
    (h : LeadingRedirect e.repair front block entries) (rest : Text) {s s₁ : State σ}
    (hgoesOn : (e.trigger re resolveBefore [.text (front ++ block ++ rest)]).on s =
      (.ok true, s₁)) :
    (e.Plain → re.KeepsDepth →
      (∃ r, ((e.resolve re (front ++ block ++ rest) false).on s).1 = .ok r) ∨
        e.EndsInAction re ((e.resolve re (front ++ block ++ rest) false).on s)) ∧
    (∀ nested s, (e.resolveOver re false nested (front ++ block ++ rest)).on s =
      (e.resolveOver re true nested (front ++ block ++ rest)).on s) ∧
    ∀ r s', (e.resolve re (front ++ block ++ rest) false).on s = (.ok r, s') →
      r.redirected ∧ ∃ templates own,
        e.blocksRead re false (front ++ block ++ rest) s = templates ++ own ∧
        (∀ b ∈ templates, 0 < b.nesting) ∧ (own = [] ∨ own = [h.toReadBlock]) ∧
        (∃ before last, templates ++ own = before ++ [last] ∧ last.redirects ∧
          r.actions = .ofEntries last.entries) ∧
        (e.LoadsNoTemplate re (front ++ block ++ rest) s₁ →
          templates = [] ∧ own = [h.toReadBlock]) ∧
        e.Ran re s (templates.flatMap e.calls) s' ∧
        (e.HostsRunNothing re →
          ∀ calls, e.Ran re s calls s' → calls = templates.flatMap e.calls) := by
  refine ⟨fun hplain hre => ?_, fun nested s => resolveOver_of_leadingRedirect h nested rest s,
    fun r s' hrun => ?_⟩
  · exact (resolve_returns_or_ends_of_trigger hplain hre hgoesOn).imp_right And.right
  · have hran := ran_of_resolve hrun
    rcases resolve_cases hrun with ⟨hstopped, -⟩ | ⟨found, s₁', s₂, hgoesOn', hwithin, rfl, -⟩
    · cases hstopped.symm.trans hgoesOn
    · obtain ⟨-, rfl⟩ := Prod.mk.inj (hgoesOn'.symm.trans hgoesOn)
      obtain ⟨templates, own, hblocks, hnesting, hown, hloads⟩ :=
        blocksWithin_of_leadingRedirect h hwithin
      have hread : e.blocksRead re false (front ++ block ++ rest) s = templates ++ own := by
        rw [blocksRead, hgoesOn]
        exact hblocks
      have hcome := (comesOf_resolveWithin hwithin).actions
      rw [hblocks] at hcome
      have hredirected : found.redirected := by
        rcases hown with ⟨-, hredirected⟩ | rfl
        · exact hredirected
        · exact hcome.redirected_of_mem (by simp) h.redirects_toReadBlock
      rw [hredirected] at hcome
      obtain ⟨before, last, hlast, -, hredirects, hactions⟩ := hcome.exists_last
      have hcalls : own.flatMap e.calls = [] := by
        rcases hown with ⟨rfl, -⟩ | rfl
        · rfl
        · rw [List.flatMap_singleton, calls_of_redirects h.redirects_toReadBlock]
      rw [hread, List.flatMap_append, hcalls, List.append_nil] at hran
      rw [delivered_of_redirected hredirected]
      exact ⟨hredirected, templates, own, hread, hnesting, hown.imp_left And.left,
        ⟨before, last, hlast, hredirects, hactions⟩, hloads, hran,
        fun hhosts calls hcalls => hhosts.eq_of_ran hcalls hran⟩

/-- An engine with a trap that hurts whoever reads it. -/
def trapped : Engine Nat where
  settings := .standard
  sigil := "_"
  repair := id
  fragments := some [(.text "main", [(.text "$trap", .text "\x7b\"hurt\": 5\x7dSnap!")])]
  conditions := []
  placeholders := []
  actions := [("hurt", .plain fun _ => .updating (· + 1) (.done ()))]
  callbacks := []

def caveBlock : Text := "\x7b\"redirect\": \"cave\"\x7d"

def trapText : Text := "|$trap|\x7b\"hurt\": 9\x7d"

def trappedStart : State Nat := World.start default 0

theorem exists_leadingRedirect_caveBlock :
    ∃ entries, LeadingRedirect trapped.repair "Away! " caveBlock entries := by
  have hread : (Block.parse trapped.repair caveBlock).toOption.bind
      (fun entries => (entries.get? redirectKey).map Value.isTrue) = some true := by decide +kernel
  cases hparse : Block.parse trapped.repair caveBlock with
  | error problem =>
    rw [hparse] at hread
    cases hread
  | ok entries =>
    rw [hparse] at hread
    obtain ⟨target, hget, htrue⟩ := Option.map_eq_some_iff.1 hread
    exact ⟨entries,
      { bar := by decide
        bracket := by decide
        brace := by decide
        keyword := fun k => by
          cases k with
          | ends => decide
          | opens kind => cases kind <;> decide
        isGroup := ⟨_, rfl⟩
        reads := hparse
        redirects := ⟨target, hget, htrue⟩ }⟩

theorem isolated_trapped : trapped.Isolated where
  condition := nofun
  placeholder := nofun
  action := by
    intro name action haction payload
    have hmem := Table.mem_of_get? haction
    simp only [trapped, List.mem_cons, Prod.mk.injEq, List.not_mem_nil, or_false] at hmem
    obtain ⟨-, rfl⟩ := hmem
    exact fun memory => trivial
  callback := nofun

/-- The trap that follows the redirection hurts, although it is never shown. -/
theorem template_behind_redirect_runs :
    (∃ entries, LeadingRedirect trapped.repair "Away! " caveBlock entries) ∧
      ((trapped.resolve (trapped.reentryWithin 1) ("Away! " ++ caveBlock ++ trapText) false).on
        trappedStart).1.toOption.map Resolution.redirected = some true ∧
      ((trapped.resolve (trapped.reentryWithin 1) ("Away! " ++ caveBlock ++ trapText) false).on
        trappedStart).2.memory = 1 :=
  ⟨exists_leadingRedirect_caveBlock, by decide +kernel, by decide +kernel⟩

/-- Of the text behind the redirection, the trap is read and the block is not. -/
theorem resolve_trapText :
    ∃ entries, ∃ h : LeadingRedirect trapped.repair "Away! " caveBlock entries,
      (trapped.trigger (trapped.reentryWithin 1) resolveBefore
        [.text ("Away! " ++ caveBlock ++ trapText)]).on trappedStart = (.ok true, trappedStart) ∧
      ∃ r s', (trapped.resolve (trapped.reentryWithin 1) ("Away! " ++ caveBlock ++ trapText)
          false).on trappedStart = (.ok r, s') ∧
        r.redirected ∧ s'.memory = 1 ∧ ∃ templates own,
          trapped.blocksRead (trapped.reentryWithin 1) false ("Away! " ++ caveBlock ++ trapText)
            trappedStart = templates ++ own ∧
          (own = [] ∨ own = [h.toReadBlock]) ∧
          (templates ++ own).map ReadBlock.nesting = [1, 0] ∧
          ∀ calls, trapped.Ran (trapped.reentryWithin 1) trappedStart calls s' ↔
            calls = templates.flatMap trapped.calls := by
  obtain ⟨entries, h⟩ := exists_leadingRedirect_caveBlock
  have htrigger : (trapped.trigger (trapped.reentryWithin 1) resolveBefore
      [.text ("Away! " ++ caveBlock ++ trapText)]).on trappedStart = (.ok true, trappedStart) := rfl
  obtain ⟨-, -, hreturns⟩ :=
    resolve_of_leadingRedirect trapped (trapped.reentryWithin 1) h trapText htrigger
  have hredirects : ((trapped.resolve (trapped.reentryWithin 1)
      ("Away! " ++ caveBlock ++ trapText) false).on trappedStart).1.toOption.map
        Resolution.redirected = some true := by decide +kernel
  have hmemory : ((trapped.resolve (trapped.reentryWithin 1) ("Away! " ++ caveBlock ++ trapText)
      false).on trappedStart).2.memory = 1 := by decide +kernel
  obtain ⟨r, s', hrun, -⟩ := exists_eq_ok_of_map hredirects
  rw [hrun] at hmemory
  obtain ⟨hredirected, templates, own, hread, -, hown, -, -, hran, honly⟩ := hreturns r s' hrun
  refine ⟨entries, h, htrigger, r, s', hrun, hredirected, hmemory, templates, own, hread, hown,
    ?_, fun calls => ⟨honly (isolated_trapped.hostsRunNothing 1) calls, fun heq => heq ▸ hran⟩⟩
  rw [← hread]
  decide +kernel

end Engine

end StoryScript
