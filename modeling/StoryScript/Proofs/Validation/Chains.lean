import StoryScript.Branch.Tree
import StoryScript.Proofs.Validation.Braces
import StoryScript.Proofs.Validation.Findings

/-!
# Chains as a check and as a tree have them

A check keeps the position at which a chain ended and compares it with that of the next keyword; a
reader of tokens goes on with a chain only where no literal came between. Both are the same three
phases: `Tally.ofTokens` counts over the tokens what a tree of them has (`Node.tally_ofTokensFrom`)
and what a check finds (`Check.tally_bracesOf`), where `Check.Follows` relates where the check
stands to the phase of the tokens. Main statement: `Validation.chains_ofScript`.
-/

namespace StoryScript

inductive Phase where
  | outside
  | inside
  /-- Directly behind the end of a chain. -/
  | after
deriving DecidableEq, Repr

namespace Phase

/-- The phase behind a literal, with which no chain goes on. -/
@[simp] def broken : Phase → Phase
  | .after => .outside
  | p => p

/-- The phase behind the literal of a text, if it has one. -/
@[simp] def past (p : Phase) : Text → Phase
  | [] => p
  | _ :: _ => p.broken

@[simp] def behind : Phase → Keyword → Phase
  | .outside, .ends => .outside
  | _, .ends => .after
  | _, .opens _ => .inside

@[simp] def begins : Phase → Keyword → Bool
  | .outside, .opens _ => true
  | .after, .opens kind => kind == .otherwise
  | _, _ => false

/-- Whether a keyword ends a chain where none is open. -/
@[simp] def strays : Phase → Keyword → Bool
  | .outside, .ends | .after, .ends => true
  | _, _ => false

@[simp] def isInside : Phase → Bool
  | .inside => true
  | _ => false

@[simp] theorem isInside_broken (p : Phase) : p.broken.isInside = p.isInside := by
  cases p <;> rfl

end Phase

/-- How many chains a text begins, how many ends close none, and whether a chain is left open. -/
structure Tally where
  chains : Nat
  strayEnds : Nat
  isOpen : Bool
deriving DecidableEq, Repr

namespace Tally

@[simp] def count (t : Tally) (begins strays : Bool) : Tally :=
  { t with chains := begins.toNat + t.chains, strayEnds := strays.toNat + t.strayEnds }

/-- The tally of tokens that follow a phase. -/
def ofTokens : Phase → List Token → Tally
  | p, [] => ⟨0, 0, p.isInside⟩
  | p, .literal _ :: rest => ofTokens p.broken rest
  | p, .keyword k _ _ :: rest => (ofTokens (p.behind k) rest).count (p.begins k) (p.strays k)

theorem ofTokens_ofLiteral_append (p : Phase) (t : Text) (rest : List Token) :
    ofTokens p (Token.ofLiteral t ++ rest) = ofTokens (p.past t) rest := by
  cases t <;> rfl

end Tally

namespace Notice

@[simp] def isStrayEnd : Notice → Bool
  | strayEnd _ => true
  | _ => false

@[simp] def isUnterminated : Notice → Bool
  | unterminatedChain => true
  | _ => false

theorem isUnterminated_iff {n : Notice} : n.isUnterminated ↔ n = unterminatedChain := by
  cases n <;> simp

end Notice

namespace Node

@[simp] def isChain : Node → Bool
  | literal _ => false
  | chain _ => true

/-- Whether a node is a chain that was not closed. -/
@[simp] def isOpen : Node → Bool
  | literal _ => false
  | chain c => !c.terminated

@[simp] def Cursor.phase : Cursor → Phase
  | .outside => .outside
  | .inside .. => .inside
  | .after _ => .after

@[simp] def Cursor.chains : Cursor → Nat
  | .outside => 0
  | _ => 1

/-- A tree has the chain that a cursor holds and those that its tokens begin; one is left open if
the tokens leave one open. -/
theorem tally_ofTokensFrom (cursor : Cursor) (tokens : List Token) :
    (ofTokensFrom cursor tokens).countP isChain =
        cursor.chains + (Tally.ofTokens cursor.phase tokens).chains ∧
      (ofTokensFrom cursor tokens).any isOpen = (Tally.ofTokens cursor.phase tokens).isOpen := by
  fun_induction ofTokensFrom cursor tokens with
  | case1 => exact ⟨rfl, rfl⟩
  | case2 earlier last => exact ⟨rfl, rfl⟩
  | case3 branches => exact ⟨rfl, rfl⟩
  | case4 _ rest ih | case5 _ _ _ rest ih | case7 _ _ rest ih | case8 _ _ _ _ rest ih
  | case9 _ _ _ rest ih | case11 _ _ _ _ _ rest ih =>
    obtain ⟨hchains, hopen⟩ := ih
    exact ⟨by simpa [Tally.ofTokens] using hchains, by simpa [Tally.ofTokens] using hopen⟩
  | case6 _ _ rest ih | case10 _ _ _ rest ih | case12 _ _ _ rest ih =>
    obtain ⟨hchains, hopen⟩ := ih
    refine ⟨?_, by simpa [Tally.ofTokens] using hopen⟩
    simp [Tally.ofTokens, List.countP_cons, hchains, Nat.add_comm]
  | case13 _ _ _ _ rest hkind ih =>
    obtain ⟨hchains, hopen⟩ := ih
    have hkind := beq_false_of_ne hkind
    exact ⟨by simpa [Tally.ofTokens, hkind] using hchains, by simpa [Tally.ofTokens] using hopen⟩

/-- What there is to report about tokens are the ends that close no chain and the one left open. -/
theorem tally_reports (p : Phase) (tokens : List Token) :
    (reports p.isInside tokens).countP Notice.isStrayEnd = (Tally.ofTokens p tokens).strayEnds ∧
      (reports p.isInside tokens).any Notice.isUnterminated =
        (Tally.ofTokens p tokens).isOpen := by
  induction tokens generalizing p with
  | nil => cases p <;> exact ⟨rfl, rfl⟩
  | cons token rest ih =>
    match token, p with
    | .literal _, p =>
      -- A literal moves the phase, but opens and closes nothing.
      have h := ih p.broken
      rw [Phase.isInside_broken] at h
      exact h
    | .keyword .ends _ _, .inside =>
      have h := ih .after
      simpa [reports, Tally.ofTokens] using h
    | .keyword .ends _ _, .outside =>
      obtain ⟨hstrays, hopen⟩ := ih .outside
      refine ⟨?_, hopen⟩
      simpa [reports, Tally.ofTokens, List.countP_cons, Nat.add_comm] using hstrays
    | .keyword .ends _ _, .after =>
      obtain ⟨hstrays, hopen⟩ := ih .after
      refine ⟨?_, hopen⟩
      simpa [reports, Tally.ofTokens, List.countP_cons, Nat.add_comm] using hstrays
    | .keyword (.opens _) _ _, p =>
      have h := ih .inside
      cases p <;> simpa [reports, Tally.ofTokens] using h

end Node

namespace Check

@[simp] def Standing.phase : Standing → Phase
  | .outside => .outside
  | .inside _ => .inside
  | .after .. => .after

def tally (s : Standing) (bs : List Brace) : Tally :=
  ⟨begun s bs, (chainFindings s bs).countP (·.finding.isStrayEnd),
    (chainFindings s bs).any (·.finding.isUnterminated)⟩

/-- A check at a position, behind a text that no keyword has ended yet, stands where the tokens
are: in the same phase, and if that is behind a chain, directly behind it; unless the check left
the chain already, at a group that the text still holds. -/
inductive Follows (position : Nat) (pending : Text) : Standing → Phase → Prop where
  | outside : Follows position pending .outside .outside
  | inside (start : Nat) : Follows position pending (.inside start) .inside
  | after (start gapStart : Nat) (hgap : gapStart + pending.length = position) :
    Follows position pending (.after start gapStart) .after
  | left (hgroup : '}' ∈ pending) : Follows position pending .outside .after

/-- A text that is read on does not move a check. -/
theorem Follows.append {position : Nat} {pending : Text} {s : Standing} {p : Phase}
    (h : Follows position pending s p) (t : Text) :
    Follows (t.length + position) (pending ++ t) s p := by
  cases h with
  | outside => exact .outside
  | inside start => exact .inside start
  | after start gapStart hgap => exact .after start gapStart (by simp; omega)
  | left hgroup => exact .left (List.mem_append_left _ hgroup)

/-- At a keyword a check stands in the phase behind the literal in front of the keyword. -/
theorem Follows.at {position : Nat} {pending : Text} {s : Standing} {p : Phase} {k : Keyword}
    (h : Follows position pending s p) (hk : Keyword.before? pending = some k) :
    (s.at (position - k.word.length)).phase = p.past (pending.dropEnd k.word.length) := by
  have heq := Keyword.eq_append_of_before? hk
  generalize pending.dropEnd k.word.length = front at heq ⊢
  cases h with
  | outside => cases front <;> rfl
  | inside start => cases front <;> rfl
  | after start gapStart hgap =>
    have hat : position - k.word.length = gapStart + front.length := by
      rw [heq, List.length_append] at hgap
      omega
    rw [hat, Standing.at]
    cases front <;> simp
  | left hgroup =>
    -- The keyword has no brace, so the group is in front of it.
    have hfront : '}' ∈ front := by
      rw [heq] at hgroup
      exact (List.mem_append.1 hgroup).resolve_right k.brace_not_mem_word.2
    cases front with
    | nil => simp at hfront
    | cons c cs => rfl

/-- Behind a keyword a check is where the tokens are. -/
theorem Follows.behind {s : Standing} {p : Phase} (h : s.phase = p) (k : Keyword)
    (offset next : Nat) : Follows next [] (s.behind offset next k) (p.behind k) := by
  subst h
  match s, k with
  | .outside, .ends => exact .outside
  | .inside start, .ends => exact .after start next rfl
  | .after start _, .ends => exact .after start next rfl
  | .outside, .opens _ => exact .inside offset
  | .inside start, .opens _ => exact .inside start
  | .after _ _, .opens .otherwise => exact .inside offset
  | .after start _, .opens .ifAll | .after start _, .opens .ifAny => exact .inside start

/-- A group that is no keyword's ends the place behind a chain, for a check at once. -/
theorem Follows.past_block {position : Nat} {pending : Text} {s : Standing} {p : Phase}
    (h : Follows position pending s p) (offset : Nat) (inner : Text) :
    Follows ((Piece.group inner).written.length + position) (pending ++ (Piece.group inner).written)
      (s.past (.group offset none inner)) p := by
  cases h with
  | outside => exact .outside
  | inside start => exact .inside start
  | after start gapStart hgap => exact .left (by simp [Piece.written])
  | left hgroup => exact .left (List.mem_append_left _ hgroup)

theorem tally_straysFrom_append (s : Standing) (offset : Nat) (t : Text) (bs : List Brace) :
    tally s (straysFrom offset t ++ bs) = tally s bs := by
  induction t generalizing offset with
  | nil => rfl
  | cons c cs ih =>
    by_cases hc : c = '}'
    · simpa [straysFrom, hc, tally, begun, chainFindings, Standing.beginsAt, Standing.findingsAt,
        Standing.past] using ih (offset + 1)
    · simpa [straysFrom, hc] using ih (offset + 1)

theorem begins_phase (s : Standing) (k : Keyword) : s.begins k = s.phase.begins k := by
  cases s <;> cases k <;> rfl

theorem strays_phase (s : Standing) (k : Keyword) :
    (s.findings k).countP Finding.isStrayEnd = (s.phase.strays k).toNat ∧
      (s.findings k).any Finding.isUnterminated = false := by
  match s, k with
  | .outside, .ends | .inside _, .ends | .after _ _, .ends => exact ⟨rfl, rfl⟩
  | .outside, .opens kind | .inside _, .opens kind | .after _ _, .opens kind =>
    cases kind <;> exact ⟨rfl, rfl⟩

theorem tally_block (s : Standing) (offset : Nat) (inner : Text) (bs : List Brace) :
    tally s (.group offset none inner :: bs) = tally (s.past (.group offset none inner)) bs := by
  simp [tally, begun, chainFindings, Standing.beginsAt, Standing.findingsAt]

theorem tally_keyword (s : Standing) (offset : Nat) (k : Keyword) (inner : Text)
    (bs : List Brace) :
    tally s (.group offset (some k) inner :: bs) =
      (tally (s.past (.group offset (some k) inner)) bs).count
        ((s.at (offset - k.word.length)).phase.begins k)
        ((s.at (offset - k.word.length)).phase.strays k) := by
  obtain ⟨hstrays, hopen⟩ := strays_phase (s.at (offset - k.word.length)) k
  have hplace (f : Finding → Bool) :
      (fun l : Located => f l.finding) ∘ Located.mk (offset - k.word.length) = f := rfl
  simp only [tally, begun, chainFindings, Standing.beginsAt, Standing.findingsAt, place,
    List.countP_append, List.any_append, List.countP_map, List.any_map, hplace, hstrays, hopen,
    begins_phase, Tally.count, Bool.false_or]

theorem Follows.tally_nil {position : Nat} {pending : Text} {s : Standing} {p : Phase}
    (h : Follows position pending s p) (t : Text) :
    tally s [] = Tally.ofTokens p (Token.ofLiteral t) := by
  have htokens := Tally.ofTokens_ofLiteral_append p t []
  rw [List.append_nil] at htokens
  rw [htokens]
  cases h <;> cases t <;> rfl

/-- Where a check follows the tokens of pieces, it finds their tally. -/
theorem tally_bracesOf {pending rest : Text} {pieces : List Piece} {s : Standing} {p : Phase}
    (hrest : ∀ c ∈ rest.head?, c = '}') (hpieces : Piece.StopsAtUnmatched pieces)
    (h : Follows (pending.reverse ++ rest).length pending s p) :
    tally s (bracesOf (pending.reverse ++ rest) pieces) =
      Tally.ofTokens p (Token.ofPieces (pending.reverse ++ rest).length pending pieces) := by
  induction pieces generalizing pending rest s p with
  | nil => exact h.tally_nil pending
  | cons piece pieces ih =>
    cases piece with
    | plain t =>
      obtain ⟨hread, hlength⟩ := read_written pending rest (.plain t)
      simp only [Piece.written] at hread hlength
      have h := h.append t
      rw [Nat.add_comm, ← hlength, hread] at h
      have ih := ih hrest hpieces h
      rw [bracesOf, tally_straysFrom_append, Token.ofPieces_plain]
      rw [← hread, hlength] at ih
      exact ih
    | unmatched t =>
      obtain rfl : pieces = [] := hpieces
      have hs : tally s [.unmatchedOpening (pending.reverse ++ rest).length] = tally s [] := by
        cases s <;> rfl
      exact hs.trans (h.tally_nil _)
    | group inner =>
      obtain ⟨hread, hlength⟩ := read_written pending rest (.group inner)
      rw [bracesOf, before?_take_four hrest]
      cases hk : Keyword.before? pending with
      | none =>
        -- The group stays pending, so that a check which leaves a chain here is still followed.
        have h := h.past_block (pending.reverse ++ rest).length inner
        rw [Nat.add_comm, ← hlength, hread] at h
        have ih := ih hrest hpieces h
        rw [← hread, hlength] at ih
        rw [tally_block, Token.ofPieces_block hk]
        exact ih
      | some k =>
        -- The tokens have the literal in front of the keyword first, and then meet the keyword in
        -- the phase in which the check does.
        have hat := h.at hk
        have hnext : (pending.reverse ++ rest).length + inner.length + 2 =
            ((Piece.group inner).written.reverse ++ (pending.reverse ++ rest)).length := by
          rw [hlength]
          simp [Piece.written, Nat.add_assoc]
        have h := Follows.behind hat k ((pending.reverse ++ rest).length - k.word.length)
          ((pending.reverse ++ rest).length + inner.length + 2)
        rw [hnext] at h
        have ih := @ih [] ((Piece.group inner).written.reverse ++ (pending.reverse ++ rest)) _ _
          (by simp [Piece.written]) hpieces h
        rw [tally_keyword, Token.ofPieces_keyword hk, Tally.ofTokens_ofLiteral_append, hat,
          Tally.ofTokens, ← hlength, Standing.past, hnext]
        rw [List.reverse_nil, List.nil_append] at ih
        rw [ih]

/-- A check finds of a text the tally of its tokens. -/
theorem tally_braces (t : Text) :
    tally .outside (braces t) = Tally.ofTokens .outside (Token.ofText t) := by
  have h := @tally_bracesOf [] [] _ _ _ (by simp) (Piece.stopsAtUnmatched_split t) .outside
  rw [braces_eq_bracesOf]
  exact h

/-! ## The brace that a check stops at -/

variable {σ : Type} (e : Engine σ)

theorem unmatched?_of_isOfContent {l : Located} (h : l.finding.isOfContent) :
    l.unmatched? = none := by
  obtain ⟨offset, f⟩ := l
  cases f <;> first | rfl | simp [Finding.isOfContent] at h

theorem unmatched?_of_isOfChain {l : Located} (h : l.finding.isOfChain) :
    l.unmatched? = none := by
  obtain ⟨offset, f⟩ := l
  cases f <;> first | rfl | simp [Finding.isOfChain] at h

theorem filterMap_ofBrace (b : Brace) :
    (ofBrace e b).filterMap Located.unmatched? = b.unmatched?.toList := by
  match b with
  | .strayClosing _ | .unmatchedOpening _ => rfl
  | .group _ none _ =>
    refine List.filterMap_eq_nil_iff.2 fun l hl => unmatched?_of_isOfContent ?_
    exact isOfContent_of_mem_place hl fun f => isOfContent_of_mem_blockFindings e
  | .group _ (some _) _ =>
    refine List.filterMap_eq_nil_iff.2 fun l hl => unmatched?_of_isOfContent ?_
    exact isOfContent_of_mem_place hl fun f => isOfContent_of_mem_clauseFindings e

theorem filterMap_flatMap_ofBrace (bs : List Brace) :
    (bs.flatMap (ofBrace e)).filterMap Located.unmatched? = bs.filterMap Brace.unmatched? := by
  induction bs with
  | nil => rfl
  | cons b bs ih =>
    rw [List.flatMap_cons, List.filterMap_append, filterMap_ofBrace, ih, List.filterMap_cons]
    cases b.unmatched? <;> rfl

/-- A check of a script reports the brace at which the tokens stop, and no other. -/
theorem unmatched_found (current : Key) (t : Text) :
    ((run e current t).found.filterMap Located.unmatched?).Perm
      (Piece.unmatchedFrom? 0 (Piece.split (Code.blank t))).toList := by
  have hreferences : (ofReferences e current 0 (placeholderMarks.cut (Code.blank t))).filterMap
      Located.unmatched? = [] :=
    List.filterMap_eq_nil_iff.2 fun l hl =>
      unmatched?_of_isOfContent (isOfContent_of_mem_ofReferences e hl)
  have hchains : (chainFindings .outside (braces (Code.blank t))).filterMap
      Located.unmatched? = [] :=
    List.filterMap_eq_nil_iff.2 fun l hl =>
      unmatched?_of_isOfChain (isOfChain_of_mem_chainFindings hl)
  have h := (found_run e current t).filterMap Located.unmatched?
  rw [List.filterMap_append, List.filterMap_append, hreferences, hchains,
    filterMap_flatMap_ofBrace, unmatched_braces, List.append_nil, List.nil_append] at h
  exact h

end Check

namespace Validation

variable {σ : Type} (e : Engine σ) (current : Key) (t : Text)

/-- The issues about chains are what the check finds about chains. -/
theorem countP_issues {f : Finding → Bool} (hf : ∀ {x}, f x → x.isOfChain) :
    (ofScript e current t).issues.countP (f ·.finding) =
      (Check.chainFindings .outside (Check.braces (Code.blank t))).countP (f ·.finding) := by
  rw [← Check.countP_found e hf current t, (issues_perm e current t).countP_eq, List.countP_map]
  rfl

theorem unmatched_issues :
    (ofScript e current t).issues.filterMap Issue.unmatched? =
      ((Piece.unmatchedFrom? 0 (Piece.split (Code.blank t))).map (Lines.position t)).toList := by
  have hlocated (l : Located) : (Issue.ofLocated t (Lines.split t) l).unmatched? =
      l.unmatched?.map (Lines.position t) := by
    cases h : l.finding.isUnmatchedOpening <;>
      simp [Located.unmatched?, Issue.unmatched?, Issue.ofLocated, h]
  have hissues := (issues_perm e current t).filterMap Issue.unmatched?
  have hfound := (Check.unmatched_found e current t).map (Lines.position t)
  rw [List.map_filterMap] at hfound
  rw [List.filterMap_map, show Issue.unmatched? ∘ Issue.ofLocated t (Lines.split t) = _ from
    funext hlocated] at hissues
  have h := hissues.trans hfound
  cases hoffset : Piece.unmatchedFrom? 0 (Piece.split (Code.blank t)) with
  | none =>
    rw [hoffset] at h
    exact h.eq_nil
  | some offset =>
    rw [hoffset] at h
    exact List.perm_singleton.1 h

/-- A check tracks chains as the reader of the tree does. In a script whose code spans were blanked
it sees the keywords that the tokens are, counts the chains of the tree, reports as many ends that
close nothing as the reader does, and a chain that is left open where the reader does, which is
where the tree has one. It stops at the brace at which the tokens stop. -/
theorem chains_ofScript :
    (Check.braces (Code.blank t)).filterMap Check.Brace.token? =
        (Token.ofText (Code.blank t)).filter Token.isKeyword ∧
      (ofScript e current t).stats.chains = (Node.ofText (Code.blank t)).countP Node.isChain ∧
      (ofScript e current t).issues.countP (·.finding.isStrayEnd) =
        (Node.reportsOfText (Code.blank t)).countP Notice.isStrayEnd ∧
      ((∃ i ∈ (ofScript e current t).issues, i.finding = .unterminatedChain) ↔
        .unterminatedChain ∈ Node.reportsOfText (Code.blank t)) ∧
      (.unterminatedChain ∈ Node.reportsOfText (Code.blank t) ↔
        ∃ c, .chain c ∈ Node.ofText (Code.blank t) ∧ c.terminated = false) ∧
      (ofScript e current t).issues.filterMap Issue.unmatched? =
        ((Piece.unmatchedFrom? 0 (Piece.split (Code.blank t))).map (Lines.position t)).toList := by
  obtain ⟨hchains, htree⟩ := Node.tally_ofTokensFrom .outside (Token.ofText (Code.blank t))
  obtain ⟨hstrays, hreports⟩ := Node.tally_reports .outside (Token.ofText (Code.blank t))
  have htally := Check.tally_braces (Code.blank t)
  have hissues : (∃ i ∈ (ofScript e current t).issues, i.finding = .unterminatedChain) ↔
      (Tally.ofTokens .outside (Token.ofText (Code.blank t))).isOpen := by
    simp only [← Finding.isUnterminated_iff]
    rw [← htally, ← List.countP_pos_iff (p := fun i : Issue => i.finding.isUnterminated),
      countP_issues e current t Finding.isOfChain_of_isUnterminated, List.countP_pos_iff]
    simp [Check.tally]
  have hnotices : .unterminatedChain ∈ Node.reportsOfText (Code.blank t) ↔
      (Tally.ofTokens .outside (Token.ofText (Code.blank t))).isOpen := by
    rw [← hreports, List.any_eq_true]
    simp only [Notice.isUnterminated_iff, exists_eq_right]
    rfl
  have hnodes : (∃ c, .chain c ∈ Node.ofText (Code.blank t) ∧ c.terminated = false) ↔
      (Tally.ofTokens .outside (Token.ofText (Code.blank t))).isOpen := by
    rw [show Phase.outside = Node.Cursor.outside.phase from rfl, ← htree, List.any_eq_true]
    constructor
    · rintro ⟨c, hc, hopen⟩
      exact ⟨.chain c, hc, by simp [hopen]⟩
    · rintro ⟨n, hn, hopen⟩
      cases n with
      | literal t => cases hopen
      | chain c => exact ⟨c, hn, by simpa using hopen⟩
  refine ⟨Check.keywords_braces _, ?_, ?_, hissues.trans hnotices.symm,
    hnotices.trans hnodes.symm, unmatched_issues e current t⟩
  · calc
      (ofScript e current t).stats.chains =
          Check.begun .outside (Check.braces (Code.blank t)) := Check.chains_run e current t
      _ = (Tally.ofTokens .outside (Token.ofText (Code.blank t))).chains :=
        congrArg Tally.chains htally
      _ = (Node.ofText (Code.blank t)).countP Node.isChain := by
        rw [Node.ofText, hchains, Node.Cursor.chains, Nat.zero_add]
        rfl
  · calc
      (ofScript e current t).issues.countP (·.finding.isStrayEnd) =
          (Check.chainFindings .outside (Check.braces (Code.blank t))).countP
            (·.finding.isStrayEnd) :=
        countP_issues e current t Finding.isOfChain_of_isStrayEnd
      _ = (Tally.ofTokens .outside (Token.ofText (Code.blank t))).strayEnds :=
        congrArg Tally.strayEnds htally
      _ = (Node.reportsOfText (Code.blank t)).countP Notice.isStrayEnd := hstrays.symm

end Validation

end StoryScript
