import StoryScript.Validation.Check

/-!
# What a check adds

Each part of a check adds findings behind those it was given and counts the chains it begins. What
is found about chains depends on the standing of the check and everything else on one brace alone.
Main statements: a check has the findings of its references, of its braces and of its chains
(`Check.found_run`), in some order, and the issues of a script are its findings, in some order
(`Validation.issues_perm`).
-/

namespace StoryScript

namespace Finding

def isStrayEnd : Finding → Bool
  | strayEnd => true
  | _ => false

def isUnterminated : Finding → Bool
  | unterminatedChain => true
  | _ => false

def isUnmatchedOpening : Finding → Bool
  | unmatchedOpening => true
  | _ => false

/-- Whether a finding is about what is written between braces or marks, not about the braces or
chains themselves. -/
def isOfContent : Finding → Bool
  | unmatchedClosing | unmatchedOpening | strayEnd | strayElse | unterminatedChain => false
  | _ => true

/-- Whether a finding is about chains. -/
def isOfChain : Finding → Bool
  | strayEnd | strayElse | unterminatedChain => true
  | _ => false

theorem isUnterminated_iff {f : Finding} : f.isUnterminated ↔ f = unterminatedChain := by
  cases f <;> simp [isUnterminated]

theorem isOfChain_of_isStrayEnd {f : Finding} (h : f.isStrayEnd) : f.isOfChain := by
  cases f <;> first | rfl | simp [isStrayEnd] at h

theorem isOfChain_of_isUnterminated {f : Finding} (h : f.isUnterminated) : f.isOfChain := by
  cases f <;> first | rfl | simp [isUnterminated] at h

theorem isOfChain_eq_false {f : Finding} (h : f.isOfContent) : f.isOfChain = false := by
  cases f <;> first | rfl | simp [isOfContent] at h

end Finding

/-- Where a finding is, if it is a brace that nothing closes. -/
def Located.unmatched? (l : Located) : Option Nat :=
  if l.finding.isUnmatchedOpening then some l.offset else none

/-- Where an issue is, if it is a brace that nothing closes. -/
def Issue.unmatched? (i : Issue) : Option (Nat × Nat) :=
  if i.finding.isUnmatchedOpening then some (i.line, i.column) else none

namespace Check

/-- A check that has some findings and some chains more than another. -/
structure Grows (c c' : Check) (more : List Located) (chains : Nat) : Prop where
  found : c'.found = c.found ++ more
  chains : c'.stats.chains = c.stats.chains + chains

theorem Grows.refl (c : Check) : Grows c c [] 0 := ⟨by simp, rfl⟩

theorem Grows.trans {c c' c'' : Check} {more more' : List Located} {n n' : Nat}
    (h : Grows c c' more n) (h' : Grows c' c'' more' n') :
    Grows c c'' (more ++ more') (n + n') :=
  ⟨by rw [h'.found, h.found, List.append_assoc], by rw [h'.chains, h.chains, Nat.add_assoc]⟩

theorem Grows.find (c : Check) (offset : Nat) (finding : Finding) :
    Grows c (c.find offset finding) [⟨offset, finding⟩] 0 := ⟨rfl, rfl⟩

theorem Grows.openChain (c : Check) : Grows c c.openChain [] 1 := ⟨by simp [Check.openChain], rfl⟩

/-- Statistics other than the number of chains do not matter. -/
theorem Grows.of_eq {c c₁ c' : Check} {more : List Located} {n : Nat}
    (h : Grows c₁ c' more n) (hfound : c₁.found = c.found)
    (hchains : c₁.stats.chains = c.stats.chains) : Grows c c' more n :=
  ⟨by rw [h.found, hfound], by rw [h.chains, hchains]⟩

theorem Grows.foldl {α : Type} {f : Check → α → Check} {g : α → List Located}
    (h : ∀ c a, Grows c (f c a) (g a) 0) (c : Check) (as : List α) :
    Grows c (as.foldl f c) (as.flatMap g) 0 := by
  induction as generalizing c with
  | nil => exact .refl c
  | cons a as ih => exact (h c a).trans (ih (f c a))

/-- Findings that are all about one position. -/
def place (offset : Nat) (findings : List Finding) : List Located :=
  findings.map (Located.mk offset)

variable {σ : Type} (e : Engine σ)

/-! ## What is found about one brace -/

def callFindings (k : Keyword) (key : Text) : List Finding :=
  match Text.after? e.sigil key with
  | none => []
  | some _ =>
    match Reference.read? e.sigil key with
    | none => [.malformedCall key k]
    | some r => if e.conditions.contains r.name then [] else [.unregistered .condition r.name]

def conditionFindings (k : Keyword) (t : Text) : List Finding :=
  match Comparison.read? e.sigil t with
  | none => [.malformedCondition t k]
  | some comparison =>
    callFindings e k comparison.key ++
      if comparison.operator.isOrdering && (Value.ofLiteral comparison.value).isText then
        [.orderedText comparison.operator comparison.value]
      else []

/-- What there is to find about a keyword and its condition, wherever it stands. -/
def clauseFindings (t : Text) : Keyword → List Finding
  | .opens .ifAll => if t.isEmpty then [.emptyCondition (.opens .ifAll)]
    else (Clause.split t).flatMap (conditionFindings e (.opens .ifAll))
  | .opens .ifAny => if t.isEmpty then [.emptyCondition (.opens .ifAny)]
    else (Clause.split t).flatMap (conditionFindings e (.opens .ifAny))
  | k => if t.isEmpty then [] else [.unusedCondition k t]

def blockFindings (t : Text) : List Finding :=
  match e.readBlock t with
  | .error problem => [.badBlock problem]
  | .ok entries =>
    entries.flatMap fun p =>
      if Gate.isClauseKey p.1 || e.actions.contains p.1 then [] else [.unregistered .action p.1]

/-- What there is to find about a brace, wherever it stands. -/
def ofBrace : Brace → List Located
  | .strayClosing offset => [⟨offset, .unmatchedClosing⟩]
  | .unmatchedOpening offset => [⟨offset, .unmatchedOpening⟩]
  | .group offset none inner => place offset (blockFindings e ('{' :: inner ++ ['}']))
  | .group offset (some k) inner =>
    place (offset - k.word.length) (clauseFindings e inner.trim k)

def referenceFindings (current : Key) (expression : Text) : List Finding :=
  if expression.head? = some '$' then
    match e.loadFragment current expression with
    | .ok _ => []
    | .error failure => [.unloadableTemplate expression failure]
  else
    match Reference.read? [] expression with
    | none => [.malformedPlaceholder expression]
    | some r =>
      if e.placeholders.contains r.name then [] else [.unregistered .placeholder r.name]

/-- What there is to find about the references among cuts that begin at a position. -/
def ofReferences (current : Key) : (offset : Nat) → List Cut → List Located
  | _, [] => []
  | offset, .plain t :: cuts => ofReferences current (offset + t.length) cuts
  | offset, .span inner :: cuts =>
    place offset (referenceFindings e current inner) ++
      ofReferences current (offset + (placeholderMarks.written inner).length) cuts

/-! ## What is found about chains -/

def Standing.begins : Standing → Keyword → Bool
  | .outside, .opens _ => true
  | .after .., .opens kind => kind == .otherwise
  | _, _ => false

def Standing.findings : Standing → Keyword → List Finding
  | .inside _, _ => []
  | _, .ends => [.strayEnd]
  | _, .opens .otherwise => [.strayElse]
  | _, .opens _ => []

/-- Where a check stands behind a keyword at a position, whose group ends before another. -/
def Standing.behind (offset next : Nat) : Standing → Keyword → Standing
  | .inside start, .ends => .after start next
  | .after start _, .ends => .after start next
  | .outside, .ends => .outside
  | .inside start, .opens _ => .inside start
  | .after _ _, .opens .otherwise => .inside offset
  | .after start _, .opens _ => .inside start
  | .outside, .opens _ => .inside offset

/-- Where a check stands behind a brace. -/
def Standing.past (s : Standing) : Brace → Standing
  | .group _ none _ =>
    match s with
    | .after .. => .outside
    | s => s
  | .group offset (some k) inner =>
    (s.at (offset - k.word.length)).behind (offset - k.word.length) (offset + inner.length + 2) k
  | _ => s

def Standing.beginsAt (s : Standing) : Brace → Bool
  | .group offset (some k) _ => (s.at (offset - k.word.length)).begins k
  | _ => false

def Standing.findingsAt (s : Standing) : Brace → List Located
  | .group offset (some k) _ =>
    place (offset - k.word.length) ((s.at (offset - k.word.length)).findings k)
  | _ => []

/-- How many chains begin at braces that follow a standing. -/
def begun : Standing → List Brace → Nat
  | _, [] => 0
  | s, b :: bs => (s.beginsAt b).toNat + begun (s.past b) bs

/-- What there is to find about chains at braces that follow a standing, and at the end. -/
def chainFindings : Standing → List Brace → List Located
  | .inside start, [] => [⟨start, .unterminatedChain⟩]
  | _, [] => []
  | s, b :: bs => s.findingsAt b ++ chainFindings (s.past b) bs

/-- All there is to find at braces that follow a standing, from left to right. -/
def braceFindings : Standing → List Brace → List Located
  | s, [] => chainFindings s []
  | s, b :: bs => ofBrace e b ++ s.findingsAt b ++ braceFindings (s.past b) bs

theorem braceFindings_perm (s : Standing) (bs : List Brace) :
    (braceFindings e s bs).Perm (bs.flatMap (ofBrace e) ++ chainFindings s bs) := by
  induction bs generalizing s with
  | nil => exact .refl _
  | cons b bs ih =>
    have hrest := ((ih (s.past b)).append_left (s.findingsAt b)).append_left (ofBrace e b)
    simp only [braceFindings, List.flatMap_cons, chainFindings, List.append_assoc]
    refine hrest.trans (List.Perm.append_left _ ?_)
    rw [← List.append_assoc, ← List.append_assoc]
    exact List.perm_append_comm.append_right _

/-! ## Kinds of findings -/

theorem isOfContent_of_mem_conditionFindings {k : Keyword} {t : Text} {f : Finding}
    (h : f ∈ conditionFindings e k t) : f.isOfContent := by
  unfold conditionFindings callFindings at h
  repeat' split at h
  all_goals simp at h
  all_goals first | (subst h; rfl) | (rcases h with rfl | rfl <;> rfl)

/-- What there is to find about a keyword and its condition is about the whole of it, or about one
condition of a branch. -/
theorem clauseFindings_cases {k : Keyword} {t : Text} {f : Finding}
    (h : f ∈ clauseFindings e t k) :
    f = .emptyCondition k ∨ f = .unusedCondition k t ∨
      ∃ kind, kind ≠ .otherwise ∧ k = .opens kind ∧
        ∃ part ∈ Clause.split t, f ∈ conditionFindings e k part := by
  unfold clauseFindings at h
  split at h <;> split at h
  · exact .inl (List.mem_singleton.1 h)
  · exact .inr (.inr ⟨.ifAll, by decide, rfl, List.mem_flatMap.1 h⟩)
  · exact .inl (List.mem_singleton.1 h)
  · exact .inr (.inr ⟨.ifAny, by decide, rfl, List.mem_flatMap.1 h⟩)
  · cases h
  · exact .inr (.inl (List.mem_singleton.1 h))

theorem blockFindings_cases {t : Text} {f : Finding} (h : f ∈ blockFindings e t) :
    (∃ problem, f = .badBlock problem) ∨ ∃ name, f = .unregistered .action name := by
  unfold blockFindings at h
  split at h
  · exact .inl ⟨_, List.mem_singleton.1 h⟩
  · obtain ⟨p, -, h⟩ := List.mem_flatMap.1 h
    split at h
    · cases h
    · exact .inr ⟨_, List.mem_singleton.1 h⟩

theorem referenceFindings_cases {current : Key} {expression : Text} {f : Finding}
    (h : f ∈ referenceFindings e current expression) :
    (∃ failure, f = .unloadableTemplate expression failure) ∨ f = .malformedPlaceholder expression ∨
      ∃ name, f = .unregistered .placeholder name := by
  unfold referenceFindings at h
  repeat' split at h
  all_goals simp at h
  all_goals simp [h]

theorem isOfContent_of_mem_clauseFindings {k : Keyword} {t : Text} {f : Finding}
    (h : f ∈ clauseFindings e t k) : f.isOfContent := by
  rcases clauseFindings_cases e h with rfl | rfl | ⟨kind, -, -, part, -, h⟩
  · rfl
  · rfl
  · exact isOfContent_of_mem_conditionFindings e h

theorem isOfContent_of_mem_blockFindings {t : Text} {f : Finding} (h : f ∈ blockFindings e t) :
    f.isOfContent := by
  rcases blockFindings_cases e h with ⟨problem, rfl⟩ | ⟨name, rfl⟩ <;> rfl

theorem isOfContent_of_mem_referenceFindings {current : Key} {expression : Text} {f : Finding}
    (h : f ∈ referenceFindings e current expression) : f.isOfContent := by
  rcases referenceFindings_cases e h with ⟨failure, rfl⟩ | rfl | ⟨name, rfl⟩ <;> rfl

theorem exists_of_mem_ofReferences {current : Key} {offset : Nat} {cuts : List Cut} {l : Located}
    (h : l ∈ ofReferences e current offset cuts) :
    ∃ expression, l.finding ∈ referenceFindings e current expression := by
  induction cuts generalizing offset with
  | nil => simp [ofReferences] at h
  | cons cut cuts ih =>
    cases cut with
    | plain t => exact ih h
    | span inner =>
      rcases List.mem_append.1 h with h | h
      · obtain ⟨f, hf, rfl⟩ := List.mem_map.1 h
        exact ⟨inner, hf⟩
      · exact ih h

theorem isOfContent_of_mem_ofReferences {current : Key} {offset : Nat} {cuts : List Cut}
    {l : Located} (h : l ∈ ofReferences e current offset cuts) : l.finding.isOfContent := by
  obtain ⟨expression, h⟩ := exists_of_mem_ofReferences e h
  exact isOfContent_of_mem_referenceFindings e h

theorem isOfChain_of_mem_chainFindings {s : Standing} {bs : List Brace} {l : Located}
    (h : l ∈ chainFindings s bs) : l.finding.isOfChain := by
  induction bs generalizing s with
  | nil =>
    cases s with
    | inside start =>
      obtain rfl := List.mem_singleton.1 h
      rfl
    | outside | after => simp [chainFindings] at h
  | cons b bs ih =>
    rw [chainFindings] at h
    rcases List.mem_append.1 h with h | h
    · match b with
      | .strayClosing _ | .unmatchedOpening _ | .group _ none _ => simp [Standing.findingsAt] at h
      | .group offset (some k) inner =>
        obtain ⟨f, hf, rfl⟩ := List.mem_map.1 h
        generalize s.at (offset - k.word.length) = s' at hf
        unfold Standing.findings at hf
        split at hf <;> simp at hf
        all_goals
          subst hf
          rfl
    · exact ih h

theorem isOfContent_of_mem_place {offset : Nat} {fs : List Finding} {l : Located}
    (h : l ∈ place offset fs) (hfs : ∀ f ∈ fs, f.isOfContent) : l.finding.isOfContent := by
  obtain ⟨f, hf, rfl⟩ := List.mem_map.1 h
  exact hfs f hf

theorem isOfChain_of_mem_ofBrace {b : Brace} {l : Located} (h : l ∈ ofBrace e b) :
    l.finding.isOfChain = false := by
  match b with
  | .strayClosing _ | .unmatchedOpening _ =>
    obtain rfl := List.mem_singleton.1 h
    rfl
  | .group _ none _ =>
    have h := isOfContent_of_mem_place h fun f => isOfContent_of_mem_blockFindings e
    exact Finding.isOfChain_eq_false h
  | .group _ (some _) _ =>
    have h := isOfContent_of_mem_place h fun f => isOfContent_of_mem_clauseFindings e
    exact Finding.isOfChain_eq_false h

/-! ## The parts of a check -/

theorem grows_condition (k : Keyword) (offset : Nat) (c : Check) (t : Text) :
    Grows c (condition e k offset c t) (place offset (conditionFindings e k t)) 0 := by
  unfold condition conditionFindings callFindings
  cases Comparison.read? e.sigil t with
  | none => exact ⟨rfl, rfl⟩
  | some comparison =>
    dsimp only
    cases comparison.operator.isOrdering && (Value.ofLiteral comparison.value).isText <;>
      cases Text.after? e.sigil comparison.key with
      | none => exact ⟨by simp [find, place], rfl⟩
      | some called =>
        dsimp only
        cases Reference.read? e.sigil comparison.key with
        | none => exact ⟨by simp [find, place], rfl⟩
        | some r =>
          cases h : e.conditions.contains r.name <;>
            exact ⟨by simp [find, place, h], by simp [find, h]⟩

theorem grows_block (t : Text) (offset : Nat) (c : Check) :
    Grows c (block e t offset c) (place offset (blockFindings e t)) 0 := by
  unfold block blockFindings
  cases e.readBlock t with
  | error problem => exact ⟨rfl, rfl⟩
  | ok entries =>
    have hentry (c : Check) (p : Text × Value) :
        Grows c
          (if Gate.isClauseKey p.1 || e.actions.contains p.1 then c
            else c.find offset (.unregistered .action p.1))
          (place offset
            (if Gate.isClauseKey p.1 || e.actions.contains p.1 then []
              else [.unregistered .action p.1])) 0 := by
      split
      · exact .refl c
      · exact .find c offset _
    dsimp only
    rw [place, List.map_flatMap]
    exact (Grows.foldl hentry _ entries).of_eq rfl rfl

theorem grows_reference (current : Key) (expression : Text) (offset : Nat) (c : Check) :
    Grows c (reference e current expression offset c)
      (place offset (referenceFindings e current expression)) 0 := by
  unfold reference referenceFindings
  by_cases htemplate : expression.head? = some '$'
  · rw [if_pos htemplate, if_pos htemplate]
    cases e.loadFragment current expression with
    | ok _ => exact ⟨by simp [place], rfl⟩
    | error failure => exact ⟨by simp [find, place], rfl⟩
  · rw [if_neg htemplate, if_neg htemplate]
    cases Reference.read? [] expression with
    | none => exact ⟨by simp [find, place], rfl⟩
    | some r =>
      cases h : e.placeholders.contains r.name <;>
        exact ⟨by simp [find, place, h], by simp [find, h]⟩

theorem grows_references (current : Key) (offset : Nat) (c : Check) (cuts : List Cut) :
    Grows c (references e current offset c cuts) (ofReferences e current offset cuts) 0 := by
  induction cuts generalizing offset c with
  | nil => exact .refl c
  | cons cut cuts ih =>
    cases cut with
    | plain t => exact ih (offset + t.length) c
    | span inner => exact (grows_reference e current inner offset c).trans (ih _ _)

theorem keyword_snd (k : Keyword) (t : Text) (offset next : Nat) (c : Check) (s : Standing) :
    (keyword e k t offset next c s).2 = s.behind offset next k := by
  match k, s with
  | .ends, .inside _ | .ends, .after .. | .ends, .outside => rfl
  | .opens .otherwise, .inside _ | .opens .otherwise, .after .. | .opens .otherwise, .outside => rfl
  | .opens .ifAll, .inside _ | .opens .ifAll, .after .. | .opens .ifAll, .outside => rfl
  | .opens .ifAny, .inside _ | .opens .ifAny, .after .. | .opens .ifAny, .outside => rfl

theorem grows_keyword (k : Keyword) (t : Text) (offset next : Nat) (c : Check) (s : Standing) :
    Grows c (keyword e k t offset next c s).1
      (place offset (clauseFindings e t k ++ s.findings k)) (s.begins k).toNat := by
  have hunused (h : k = .ends ∨ k = .opens .otherwise) :
      Grows c (if t.isEmpty then c else c.find offset (.unusedCondition k t))
        (place offset (clauseFindings e t k)) 0 := by
    rcases h with rfl | rfl <;> simp only [clauseFindings] <;> split <;>
      first | exact .refl c | exact .find ..
  have hclause (h : k = .opens .ifAll ∨ k = .opens .ifAny) :
      Grows c (if t.isEmpty then c.find offset (.emptyCondition k)
        else (Clause.split t).foldl (condition e k offset) c)
        (place offset (clauseFindings e t k)) 0 := by
    have hconditions (k : Keyword) : Grows c ((Clause.split t).foldl (condition e k offset) c)
        (place offset ((Clause.split t).flatMap (conditionFindings e k))) 0 := by
      rw [place, List.map_flatMap]
      exact .foldl (grows_condition e k offset) c _
    rcases h with rfl | rfl <;> simp only [clauseFindings] <;> split <;>
      first | exact .find .. | exact hconditions _
  rw [place, List.map_append]
  match k, s with
  | .ends, .inside _ => exact (hunused (.inl rfl)).trans (.refl _)
  | .ends, .after .. => exact (hunused (.inl rfl)).trans (.find ..)
  | .ends, .outside => exact (hunused (.inl rfl)).trans (.find ..)
  | .opens .otherwise, .inside _ => exact (hunused (.inr rfl)).trans (.refl _)
  | .opens .otherwise, .after .. | .opens .otherwise, .outside =>
    exact (hunused (.inr rfl)).trans ((Grows.find ..).trans (.openChain _))
  | .opens .ifAll, .inside _ | .opens .ifAll, .after .. =>
    exact (hclause (.inl rfl)).trans (.refl _)
  | .opens .ifAny, .inside _ | .opens .ifAny, .after .. =>
    exact (hclause (.inr rfl)).trans (.refl _)
  | .opens .ifAll, .outside => exact (hclause (.inl rfl)).trans (.openChain _)
  | .opens .ifAny, .outside => exact (hclause (.inr rfl)).trans (.openChain _)

theorem grows_braceList (c : Check) (s : Standing) (bs : List Brace) :
    Grows c (braceList e c s bs) (braceFindings e s bs) (begun s bs) := by
  induction bs generalizing c s with
  | nil =>
    match s with
    | .inside start => exact .find ..
    | .outside | .after .. => exact .refl c
  | cons b bs ih =>
    have hstep {c' : Check} {more : List Located} {n : Nat} (h : Grows c c' more n)
        (hmore : more = ofBrace e b ++ s.findingsAt b) (hn : n = (s.beginsAt b).toNat) :
        Grows c (braceList e c' (s.past b) bs) (braceFindings e s (b :: bs))
          (begun s (b :: bs)) := by
      subst hmore hn
      exact h.trans (ih c' (s.past b))
    match b with
    | .strayClosing offset => exact hstep (.find c offset .unmatchedClosing) rfl rfl
    | .unmatchedOpening offset => exact hstep (.find c offset .unmatchedOpening) rfl rfl
    | .group offset none inner =>
      exact hstep (grows_block e ('{' :: inner ++ ['}']) offset c) (List.append_nil _).symm rfl
    | .group offset (some k) inner =>
      have h := grows_keyword e k inner.trim (offset - k.word.length) (offset + inner.length + 2) c
        (s.at (offset - k.word.length))
      rw [place, List.map_append] at h
      have h := hstep h rfl rfl
      rw [Standing.past, ← keyword_snd e] at h
      exact h

/-- A check finds what there is to find about its references, its braces and its chains. -/
theorem found_run (current : Key) (t : Text) :
    (run e current t).found.Perm
      (ofReferences e current 0 (placeholderMarks.cut (Code.blank t)) ++
        ((braces (Code.blank t)).flatMap (ofBrace e) ++
          chainFindings .outside (braces (Code.blank t)))) := by
  have h := (grows_references e current 0 .start (placeholderMarks.cut (Code.blank t))).trans
    (grows_braceList e _ .outside (braces (Code.blank t)))
  rw [run, h.found]
  exact (braceFindings_perm e .outside _).append_left _

theorem chains_run (current : Key) (t : Text) :
    (run e current t).stats.chains = begun .outside (braces (Code.blank t)) := by
  have h := (grows_references e current 0 .start (placeholderMarks.cut (Code.blank t))).trans
    (grows_braceList e _ .outside (braces (Code.blank t)))
  rw [run, h.chains]
  simp [start, ScriptStats.zero]

/-- What a check finds about chains is found nowhere else. -/
theorem countP_found {f : Finding → Bool} (hf : ∀ {x}, f x → x.isOfChain) (current : Key)
    (t : Text) :
    (run e current t).found.countP (f ·.finding) =
      (chainFindings .outside (braces (Code.blank t))).countP (f ·.finding) := by
  have hnone {ls : List Located} (h : ∀ l ∈ ls, l.finding.isOfChain = false) :
      ls.countP (f ·.finding) = 0 := by
    apply List.countP_eq_zero.2
    intro l hl hfl
    have hchain := hf hfl
    rw [h l hl] at hchain
    cases hchain
  rw [(found_run e current t).countP_eq, List.countP_append, List.countP_append, hnone, hnone,
    Nat.zero_add, Nat.zero_add]
  · intro l hl
    obtain ⟨b, -, hl⟩ := List.mem_flatMap.1 hl
    exact isOfChain_of_mem_ofBrace e hl
  · intro l hl
    exact Finding.isOfChain_eq_false (isOfContent_of_mem_ofReferences e hl)

end Check

namespace Validation

variable {σ : Type} (e : Engine σ) (current : Key) (script : Text)

/-- The issues of a script are what its check finds. -/
theorem issues_perm :
    (ofScript e current script).issues.Perm
      ((Check.run e current script).found.map (Issue.ofLocated script (Lines.split script))) := by
  refine (List.mergeSort_perm _ _).trans ?_
  have herror (i : Issue) : (i.severity == .warning) = !(i.severity == .error) := by
    cases i.severity <;> rfl
  simp only [herror]
  exact List.filter_append_perm _ _

variable {e current script}

theorem mem_issues_iff {i : Issue} :
    i ∈ (ofScript e current script).issues ↔
      ∃ l ∈ (Check.run e current script).found,
        Issue.ofLocated script (Lines.split script) l = i := by
  rw [(issues_perm e current script).mem_iff, List.mem_map]

theorem exists_issue {p : Finding → Bool}
    (h : (Check.run e current script).found.any (p ·.finding)) :
    ∃ i ∈ (ofScript e current script).issues, p i.finding := by
  obtain ⟨l, hl, hp⟩ := List.any_eq_true.1 h
  exact ⟨_, mem_issues_iff.2 ⟨l, hl, rfl⟩, hp⟩

end Validation

end StoryScript
