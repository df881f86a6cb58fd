import StoryScript.Proofs.Engine.Calm
import StoryScript.Proofs.Markup.Absent
import StoryScript.Proofs.Validation.Chains

/-!
# A check without issues is sound for resolution

A check that finds nothing tells of a text that its groups and chains are closed, its conditions
well written and its blocks readable, all with registered names (`Check.Clean`). The blocks of what
is shown are among those that were checked, whichever branches fired, so resolving such a text
reports nothing of note (`Validation.resolve_of_issues_eq_nil`).
-/

namespace StoryScript

variable {σ : Type}

def Token.comparisons (sigil : Text) : Token → List Comparison
  | .keyword (.opens .ifAll) condition _ | .keyword (.opens .ifAny) condition _ =>
    (Clause.split condition).filterMap (Comparison.read? sigil)
  | _ => []

namespace Check

/-! ## What a check without findings says -/

/-- A text in which a check finds nothing, but for its references. -/
structure Clean (e : Engine σ) (t : Text) : Prop where
  closed : t.isClosed
  reports : Node.reportsOfText t = []
  clauses : ∀ {k condition position}, .keyword k condition position ∈ Token.ofText t →
    clauseFindings e condition k = []
  blocks : ∀ inner ∈ (Token.ofText t).flatMap Token.groups,
    blockFindings e (Piece.group inner).written = []

theorem allClosed_of_unmatchedFrom? {offset : Nat} {pieces : List Piece}
    (h : Piece.unmatchedFrom? offset pieces = none) : Piece.allClosed pieces := by
  induction pieces generalizing offset with
  | nil => rfl
  | cons p pieces ih =>
    cases p with
    | unmatched rest => cases h
    | plain t => exact ih h
    | group inner => exact ih h

theorem reports_eq_nil {isOpen : Bool} {tokens : List Token}
    (hstrays : (Node.reports isOpen tokens).countP Notice.isStrayEnd = 0)
    (hopen : (Node.reports isOpen tokens).any Notice.isUnterminated = false) :
    Node.reports isOpen tokens = [] := by
  have hkinds : ∀ n ∈ Node.reports isOpen tokens, n.isStrayEnd ∨ n.isUnterminated := by
    fun_induction Node.reports isOpen tokens <;> simp_all
  apply List.eq_nil_iff_forall_not_mem.2
  intro n hn
  rcases hkinds n hn with h | h
  · exact List.countP_eq_zero.1 hstrays n hn h
  · have := List.any_eq_false.1 hopen n hn
    contradiction

theorem clean_of_found_eq_nil {e : Engine σ} {current : Key} {t : Text}
    (h : (run e current t).found = []) : Clean e (Code.blank t) := by
  have hperm := found_run e current t
  rw [h] at hperm
  obtain ⟨-, hrest⟩ := List.append_eq_nil_iff.1 hperm.nil_eq.symm
  obtain ⟨hbraces, hchains⟩ := List.append_eq_nil_iff.1 hrest
  have hbrace := List.flatMap_eq_nil_iff.1 hbraces
  have hclosed : Text.isClosed (Code.blank t) := by
    have hunmatched := unmatched_found e current t
    rw [h] at hunmatched
    exact allClosed_of_unmatchedFrom? (Option.toList_eq_nil_iff.1 hunmatched.nil_eq.symm)
  refine ⟨hclosed, ?_, ?_, ?_⟩
  · -- Nothing was found about chains, so the tally of the tokens has neither ends nor an open one.
    have htally := tally_braces (Code.blank t)
    rw [tally, hchains] at htally
    obtain ⟨hstrays, hopen⟩ := Node.tally_reports .outside (Token.ofText (Code.blank t))
    exact reports_eq_nil (hstrays.trans (congrArg Tally.strayEnds htally).symm)
      (hopen.trans (congrArg Tally.isOpen htally).symm)
  · intro k condition position hk
    obtain ⟨inner, hb, rfl⟩ := keyword_mem_ofText_iff.1 hk
    exact List.map_eq_nil_iff.1 (hbrace _ hb)
  · intro inner hinner
    rw [← blocks_braces hclosed] at hinner
    obtain ⟨b, hb, hblock⟩ := List.mem_filterMap.1 hinner
    have hfindings := hbrace b hb
    cases b with
    | strayClosing | unmatchedOpening => cases hblock
    | group offset keyword inner' =>
      cases keyword with
      | some k => cases hblock
      | none =>
        cases hblock
        exact List.map_eq_nil_iff.1 hfindings

end Check

/-! ## What is relied on -/

namespace Engine

/-- What the hosts behind the conditions and the actions of a text are relied on for. While
conditions are asked about, flags and memory are of one kind, from which the text's conditions
neither fail nor report anything and leave them of that kind, and every value that is compared
counts as a number. While actions are run they are of another kind, from which the same holds of the
text's actions. -/
structure Relies (e : Engine σ) (re : Reentry σ) (t : Text)
    (reading acting : FlagStore → σ → Prop) : Prop where
  flags : ∀ c ∈ (Token.ofText t).flatMap (Token.comparisons e.sigil),
    Text.after? e.sigil c.key = none →
      ∀ flags memory, reading flags memory → (flags.get c.key).isNumeric
  conditions : ∀ c ∈ (Token.ofText t).flatMap (Token.comparisons e.sigil), ∀ r getter,
    Reference.read? e.sigil c.key = some r → e.conditions.get? r.name = some getter →
      (getter r.arguments).Quiet re reading fun v => v.isNumeric
  acts : ∀ {flags memory}, reading flags memory → acting flags memory
  actions : ∀ inner ∈ (Token.ofText t).flatMap Token.groups, ∀ entries,
    e.readBlock (Piece.group inner).written = .ok entries →
      ∀ name action, e.actions.get? name = some action → action.eventDelayed = false →
        ∀ payload ∈ (ActionMap.ofEntries entries).invocations name,
          (action.action payload).Quiet re acting fun _ => True

variable {e : Engine σ} {re : Reentry σ} {t : Text} {reading acting : FlagStore → σ → Prop}

theorem Relies.evaluates (h : e.Relies re t reading acting) {k : Keyword} {part : Text}
    (hfindings : Check.conditionFindings e k part = [])
    (hpart : ∀ c, Comparison.read? e.sigil part = some c →
      c ∈ (Token.ofText t).flatMap (Token.comparisons e.sigil)) :
    e.Evaluates re reading part := by
  unfold Check.conditionFindings at hfindings
  cases hc : Comparison.read? e.sigil part with
  | none => simp [hc] at hfindings
  | some c =>
    simp only [hc, List.append_eq_nil_iff] at hfindings
    obtain ⟨hcall, horders⟩ := hfindings
    have hmem := hpart c hc
    refine ⟨c, hc, ?_, calm_conditionValue (h.flags c hmem) fun hkey => ?_⟩
    · simpa [Comparison.ordersText] using horders
    · unfold Check.callFindings at hcall
      cases hafter : Text.after? e.sigil c.key with
      | none => exact absurd hafter hkey
      | some called =>
        cases hr : Reference.read? e.sigil c.key with
        | none => simp [hafter, hr] at hcall
        | some r =>
          have hregistered : e.conditions.contains r.name := by simpa [hafter, hr] using hcall
          obtain ⟨getter, hgetter⟩ := Option.isSome_iff_exists.1 hregistered
          exact ⟨r, getter, rfl, hgetter, h.conditions c hmem r getter hr hgetter⟩

/-- The conditions of the branches of a clean text. -/
theorem Relies.evaluates_branch (h : e.Relies re t reading acting) (hclean : Check.Clean e t)
    {kind : BranchKind} {condition : Text} {position : Nat}
    (htoken : .keyword (.opens kind) condition position ∈ Token.ofText t) {part : Text}
    (hpart : part ∈ Clause.split (Node.branchOf kind condition).condition) :
    e.Evaluates re reading part := by
  have hfindings := hclean.clauses htoken
  have hcompared {c : Comparison} (hkind : kind ≠ .otherwise)
      (hc : Comparison.read? e.sigil part = some c) :
      c ∈ (Token.ofText t).flatMap (Token.comparisons e.sigil) := by
    refine List.mem_flatMap.2 ⟨_, htoken, ?_⟩
    cases kind with
    | otherwise => contradiction
    | ifAll | ifAny => exact List.mem_filterMap.2 ⟨part, hpart, hc⟩
  cases kind with
  | otherwise => cases hpart
  | ifAll | ifAny =>
    simp only [Check.clauseFindings] at hfindings
    split at hfindings
    · cases hfindings
    · apply h.evaluates (List.flatMap_eq_nil_iff.1 hfindings part hpart)
      intro c hc
      exact hcompared (by decide) hc

theorem Relies.runs (h : e.Relies re t reading acting) {inner : Text}
    (hinner : inner ∈ (Token.ofText t).flatMap Token.groups)
    (hfindings : Check.blockFindings e (Piece.group inner).written = []) :
    e.Runs re acting inner := by
  unfold Check.blockFindings at hfindings
  cases hparse : e.readBlock (Piece.group inner).written with
  | error problem => simp [hparse] at hfindings
  | ok entries =>
    simp only [hparse] at hfindings
    refine ⟨entries, hparse, fun name hname hclause => ?_⟩
    obtain ⟨p, hp, rfl⟩ := ActionMap.mem_names_ofEntries.1 hname
    have hentry := List.flatMap_eq_nil_iff.1 hfindings p hp
    have hregistered : e.actions.contains p.1 := by simpa [hclause] using hentry
    obtain ⟨action, haction⟩ := Option.isSome_iff_exists.1 hregistered
    exact ⟨action, haction, h.actions inner hinner entries hparse p.1 action haction⟩

/-! ## Resolving a clean text -/

/-- A text as it is after its branches were resolved: without templates, closed, and with blocks
that all run. -/
def Resolved (e : Engine σ) (re : Reentry σ) (acting : FlagStore → σ → Prop) (u : Text) : Prop :=
  '|' ∉ u ∧ u.isClosed ∧ ∀ inner ∈ u.groups, e.Runs re acting inner

theorem resolved_append {u v : Text} (hu : e.Resolved re acting u) (hv : e.Resolved re acting v) :
    e.Resolved re acting (u ++ v) := by
  obtain ⟨hbar, hclosed, hruns⟩ := hu
  obtain ⟨hbar', hclosed', hruns'⟩ := hv
  refine ⟨?_, Text.isClosed_append_self hclosed hclosed', fun inner hinner => ?_⟩
  · rw [List.mem_append]
    exact not_or.2 ⟨hbar, hbar'⟩
  · rw [Text.groups_append hclosed] at hinner
    exact (List.mem_append.1 hinner).elim (hruns inner) (hruns' inner)

theorem calm_resolveBranches {fails : Failure → Prop} (h : e.Relies re t reading acting)
    (hclean : Check.Clean e t) (hbar : '|' ∉ t) :
    Run.Calm reading fails (e.Resolved re acting) (e.resolveBranches re t) := by
  have hnil : e.Resolved re acting [] := ⟨by simp, rfl, by simp⟩
  have htree : ∀ n ∈ Node.ofText t, n.All (e.Resolved re acting) fun b =>
      e.Resolved re acting b.body ∧ Run.Calm reading fails (fun _ => True) (e.passes re b) := by
    refine Node.all_ofTokensFrom (fun b u hb hu => ⟨resolved_append hb.1 hu, hb.2⟩) (by simp)
      fun token htoken => ?_
    match token with
    | .literal u =>
      refine ⟨fun hu => hbar (Token.mem_of_mem_ofText htoken hu),
        Token.isClosed_of_mem_ofText hclean.closed htoken, fun inner hinner => ?_⟩
      have hmem : inner ∈ (Token.ofText t).flatMap Token.groups :=
        List.mem_flatMap.2 ⟨.literal u, htoken, hinner⟩
      exact h.runs hmem (hclean.blocks inner hmem)
    | .keyword .ends condition position => trivial
    | .keyword (.opens kind) condition position =>
      exact ⟨hnil, calm_passes fun part hpart => h.evaluates_branch hclean htoken hpart⟩
  rw [resolveBranches, hclean.reports]
  exact Run.calm_notifyAll_nil.bind fun _ _ => Node.calm_render hnil resolved_append htree

theorem calm_delivers {fails : Failure → Prop} (dryRun : Bool) (r : Resolution) :
    Run.Calm acting fails (fun _ => True)
      (do
        if !r.redirected then Run.change fun s => { s with talking := r.speaker }
        return e.delivered dryRun (← Run.getState).memory r : Run σ Resolution) := by
  intro s hs
  cases h : r.redirected with
  | true => exact ⟨.ok trivial hs, .of_eq rfl⟩
  | false => exact ⟨.ok trivial hs, .of_eq rfl⟩

end Engine

namespace Validation

/-- Checking is sound for resolving: of a text without bars and code spans in which a check has no
issue, nothing of note is reported once the callbacks let the call go on, whatever the flags are and
whichever branches fire. If resolving it fails, then for a style tag that is no template. -/
theorem resolve_of_issues_eq_nil (e : Engine σ) (re : Reentry σ) (current : Key) {t : Text}
    (hbar : '|' ∉ t) (hcode : ¬ ("[code]" : Text) <:+: t)
    (hissues : (ofScript e current t).issues = [])
    {reading acting : FlagStore → σ → Prop} (hrelies : e.Relies re t reading acting)
    {s s₁ : State σ} (hbefore : (e.trigger re Engine.resolveBefore [.text t]).on s = (.ok true, s₁))
    (hreading : reading s₁.flags s₁.memory) (dryRun : Bool) :
    (∃ logged, ((e.resolve re t dryRun).on s).2.notices = s₁.notices ++ logged ∧
        ∀ n ∈ logged, n.level = .debug) ∧
      ∀ failure, ((e.resolve re t dryRun).on s).1 = .error failure →
        ∃ memory u, e.resolveStyles memory u = .error failure := by
  have hclean : Check.Clean e t := by
    have hfound := issues_perm e current t
    rw [hissues] at hfound
    have h := Check.clean_of_found_eq_nil (List.map_eq_nil_iff.1 hfound.nil_eq.symm)
    rwa [Code.blank_of_absent hcode] at h
  have hends : Run.Ends acting
        (fun failure => ∃ memory u, e.resolveStyles memory u = .error failure)
        (fun _ => True) ((e.resolve re t dryRun).on s) ∧
      s₁.LogsDebug ((e.resolve re t dryRun).on s).2 := by
    rw [Engine.resolve, Run.on_bind, hbefore]
    simp only [if_true]
    -- Without spans, a resolution is left with the branches, the blocks and the styles.
    rw [Engine.resolveWithin, e.resolveCode_of_absent hcode,
      e.resolvePlaceholders_of_not_mem re hbar, pure_bind, bind_assoc]
    refine (Engine.calm_resolveBranches hrelies hclean hbar).bind_on hrelies.acts
      (fun u hu => ?_) hreading
    obtain ⟨hbar', hclosed, hruns⟩ := hu
    rw [e.templatePass_of_not_mem _ hbar', pure_bind]
    refine Run.Calm.bind (?_ : Run.Calm acting _ (fun _ => True) _)
      fun r _ => Engine.calm_delivers dryRun r
    apply (Engine.calm_extractPieces dryRun [] .empty hclosed hruns).bind
    intro x _
    split
    · exact Run.calm_pure trivial
    · refine Run.calm_getState.bind fun s _ => ?_
      exact (Run.calm_ofExcept fun failure hfailure => ⟨s.memory, _, hfailure⟩).bind
        fun output _ => Run.calm_pure trivial
  obtain ⟨hends, hlogs⟩ := hends
  refine ⟨hlogs, fun failure hfailure => ?_⟩
  generalize (e.resolve re t dryRun).on s = out at hends hfailure
  cases hends with
  | ok => cases hfailure
  | error hfails =>
    cases hfailure
    exact hfails

/-- An engine with a condition and an action that counts how often it is run. -/
def dock : Engine Nat where
  settings := .standard
  sigil := "_"
  repair := id
  fragments := none
  conditions := [("_night", fun _ => .done (.bool true))]
  placeholders := []
  actions := [("toll", .plain fun _ => .updating (· + 1) (.done ()))]
  callbacks := []

def dockText : Text :=
  "if\x7b_night = true, gold >= 3\x7dA bell.\x7b\"toll\": 2\x7delse\x7b\x7dSilence.fi\x7b\x7d"

def dockState : State Nat where
  flags := ⟨.text "main", [(.text "main", [(.text "gold", .int 7)])]⟩
  bus := []
  talking := none
  depth := 0
  notices := []
  memory := 0

/-- The bell is tolled, and nothing of note is reported. -/
theorem resolve_dockText :
    ((dock.resolve (.none Nat) dockText false).on dockState).2.memory = 1 ∧
      (∃ logged, ((dock.resolve (.none Nat) dockText false).on dockState).2.notices = [] ++ logged ∧
        ∀ n ∈ logged, n.level = .debug) ∧
      ∀ failure, ((dock.resolve (.none Nat) dockText false).on dockState).1 = .error failure →
        ∃ memory u, dock.resolveStyles memory u = .error failure := by
  have hissues : (ofScript dock (.text "main") dockText).issues = [] := by
    have hempty : (Check.run dock (.text "main") dockText).found.isEmpty := by decide +kernel
    have hperm := issues_perm dock (.text "main") dockText
    rw [List.isEmpty_iff.1 hempty] at hperm
    exact hperm.eq_nil
  have hcomparisons : (Token.ofText dockText).flatMap (Token.comparisons dock.sigil) =
      [⟨"_night", .equal, "true"⟩, ⟨"gold", .atLeast, "3"⟩] := by decide +kernel
  have hrelies : dock.Relies (.none Nat) dockText (fun flags _ => flags.get "gold" = .int 7)
      fun _ _ => True := by
    refine ⟨?_, ?_, fun _ => trivial, ?_⟩
    · intro c hc hkey flags memory hgold
      rw [hcomparisons] at hc
      rcases List.mem_cons.1 hc with rfl | hc
      · exact absurd hkey (by decide +kernel)
      · obtain rfl := List.mem_singleton.1 hc
        rw [hgold]
        decide +kernel
    · intro c hc r getter hr hgetter s hs
      rw [hcomparisons] at hc
      rcases List.mem_cons.1 hc with rfl | hc
      · have hnight : Reference.read? dock.sigil "_night" = some ⟨"_night", []⟩ := by decide +kernel
        obtain rfl := Option.some.inj (hr.symm.trans hnight)
        obtain rfl := Option.some.inj hgetter
        exact ⟨.bool true, s, rfl, rfl, hs, rfl⟩
      · obtain rfl := List.mem_singleton.1 hc
        exact absurd (hr.symm.trans (by decide +kernel)) (Option.some_ne_none r)
    · intro inner _ entries _ name action haction _ payload _ s _
      by_cases htoll : ("toll" : Text) = name
      · subst htoll
        obtain rfl := Option.some.inj haction
        exact ⟨(), { s with memory := s.memory + 1 }, rfl, trivial, trivial, rfl⟩
      · have hnone : dock.actions.get? name = none := if_neg htoll
        exact absurd (haction.symm.trans hnone) (Option.some_ne_none action)
  have hbefore : (dock.trigger (.none Nat) Engine.resolveBefore [.text dockText]).on dockState =
      (.ok true, dockState) := rfl
  have hgold : dockState.flags.get "gold" = .int 7 := rfl
  exact ⟨by decide +kernel, resolve_of_issues_eq_nil dock (.none Nat) (.text "main")
    (by decide +kernel) (by decide +kernel) hissues hrelies hbefore hgold false⟩

end Validation

end StoryScript
