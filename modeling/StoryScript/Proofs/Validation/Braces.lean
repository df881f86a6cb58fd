import StoryScript.Proofs.Block.Outline
import StoryScript.Proofs.Branch.Tokens
import StoryScript.Validation.Check

/-!
# The braces of a check and the tokens of a text

A check finds its braces by counting from each opening one and looks for a keyword at the end of all
that was read; the tokens of a text come from its pieces and look for a keyword in what was read
since the last one. Main statements: both see the same keywords at the same positions
(`Check.keywords_braces`), stop at the same brace (`Check.unmatched_braces`) and keep the same
groups as blocks (`Check.blocks_braces`); and the groups that a check meets are the ones that stand
behind closed text (`Check.mem_braces_iff`).
-/

namespace StoryScript

namespace Check

/-- The closing braces in a text outside all groups that begins at an offset. -/
def straysFrom : (offset : Nat) → Text → List Brace
  | _, [] => []
  | offset, c :: cs =>
    if c = '}' then .strayClosing offset :: straysFrom (offset + 1) cs
    else straysFrom (offset + 1) cs

/-- The braces of pieces behind a text, which is given in reverse. -/
def bracesOf : (read : Text) → List Piece → List Brace
  | _, [] => []
  | read, .plain t :: pieces => straysFrom read.length t ++ bracesOf (t.reverse ++ read) pieces
  | read, .group inner :: pieces =>
    .group read.length (Keyword.before? (read.take 4).reverse) inner ::
      bracesOf ((Piece.group inner).written.reverse ++ read) pieces
  | read, .unmatched _ :: _ => [.unmatchedOpening read.length]

theorem straysFrom_append (offset : Nat) (t u : Text) :
    straysFrom offset (t ++ u) = straysFrom offset t ++ straysFrom (offset + t.length) u := by
  induction t generalizing offset with
  | nil => simp [straysFrom]
  | cons c cs ih =>
    have hlength : offset + 1 + cs.length = offset + (cs.length + 1) := by omega
    by_cases hc : c = '}' <;> simp [straysFrom, hc, ih, hlength]

theorem bracesOf_ofPlain_append (read t : Text) (pieces : List Piece) :
    bracesOf read (Piece.ofPlain t ++ pieces) =
      straysFrom read.length t ++ bracesOf (t.reverse ++ read) pieces := by
  cases t <;> simp [Piece.ofPlain, bracesOf, straysFrom]

/-- The characters of a group are passed over. -/
theorem bracesFrom_skip (n : Nat) (read t : Text) :
    bracesFrom n read t = bracesFrom 0 ((t.take n).reverse ++ read) (t.drop n) := by
  induction n generalizing read t with
  | zero => simp
  | succ n ih =>
    cases t with
    | nil => simp [bracesFrom]
    | cons c cs => simpa [bracesFrom] using ih (c :: read) cs

/-- Looking for closing braces finds what cutting into pieces finds. -/
theorem bracesOf_splitFrom_zero (prior read t : Text) :
    bracesOf prior (Piece.splitFrom 0 read t) =
      straysFrom prior.length read.reverse ++ bracesFrom 0 (read ++ prior) t := by
  match t with
  | [] =>
    have := bracesOf_ofPlain_append prior read.reverse []
    simpa [Piece.splitFrom, bracesFrom, bracesOf] using this
  | c :: cs =>
    by_cases hopen : c = '{'
    · subst hopen
      have hsplit : Piece.splitFrom 0 read ('{' :: cs) =
          Piece.ofPlain read.reverse ++ Piece.split ('{' :: cs) := by
        simp [Piece.split, Piece.splitFrom]
      rw [hsplit, bracesOf_ofPlain_append, List.reverse_reverse]
      congr 1
      -- Both go on behind the closing brace, or stop at the opening one.
      rcases Piece.split_cons_open cs with ⟨inner, rest, rfl, h, h'⟩ | ⟨h, h'⟩
      · have ih := bracesOf_splitFrom_zero
          ((Piece.group inner).written.reverse ++ (read ++ prior)) [] rest
        have htake : inner.take (inner.length + 1) = inner := List.take_of_length_le (by omega)
        rw [h', bracesOf, Piece.split, ih]
        simp [bracesFrom, Block.closingFrom_cons_open, h, bracesFrom_skip (inner.length + 1),
          Piece.written, straysFrom, List.take_append, htake]
      · rw [h']
        simp [bracesFrom, Block.closingFrom_cons_open, h, bracesOf]
    · have ih := bracesOf_splitFrom_zero prior (c :: read) cs
      have hsplit : Piece.splitFrom 0 read (c :: cs) = Piece.splitFrom 0 (c :: read) cs := by
        simp [Piece.splitFrom, hopen]
      rw [hsplit, ih, List.reverse_cons, straysFrom_append]
      by_cases hclosing : c = '}'
      · simp [bracesFrom, straysFrom, hclosing, Nat.add_comm]
      · simp [bracesFrom, straysFrom, hclosing, hopen]
termination_by t.length

theorem braces_eq_bracesOf (t : Text) : braces t = bracesOf [] (Piece.split t) := by
  have h := bracesOf_splitFrom_zero [] [] t
  exact h.symm

/-! ## Keywords -/

/-- The keyword token that a brace stands for. -/
def Brace.token? : Brace → Option Token
  | .group offset (some k) inner => some (.keyword k inner.trim offset)
  | _ => none

def Brace.block? : Brace → Option Text
  | .group _ none inner => some inner
  | _ => none

/-- The position of a brace that nothing closes. -/
def Brace.unmatched? : Brace → Option Nat
  | .unmatchedOpening offset => some offset
  | _ => none

theorem filterMap_straysFrom {α : Type} {f : Brace → Option α}
    (hf : ∀ offset, f (.strayClosing offset) = none) (offset : Nat) (t : Text) :
    (straysFrom offset t).filterMap f = [] := by
  induction t generalizing offset with
  | nil => rfl
  | cons c cs ih => by_cases hc : c = '}' <;> simp [straysFrom, hc, hf, ih]

/-- A keyword at the end of all that was read ends what was read behind a closing brace. -/
theorem before?_take_four {pending rest : Text} (hrest : ∀ c ∈ rest.head?, c = '}') :
    Keyword.before? ((pending.reverse ++ rest).take 4).reverse = Keyword.before? pending := by
  refine congrArg (Keyword.all.find? ·) (funext fun k => ?_)
  have hlength : k.word.length ≤ 4 := k.length_word_le
  have hread : Text.takeEnd k.word.length ((pending.reverse ++ rest).take 4).reverse =
      ((pending.reverse ++ rest).take k.word.length).reverse := by
    rw [Text.takeEnd_eq, List.reverse_reverse, List.take_take, Nat.min_eq_left hlength]
  rw [hread, Text.takeEnd_eq]
  by_cases hle : k.word.length ≤ pending.length
  · rw [List.take_append_of_le_length (by simpa using hle)]
  · match rest with
    | [] => simp
    | c :: cs =>
      -- The word would hold the closing brace.
      obtain rfl : c = '}' := hrest c rfl
      have hmem : '}' ∈ (pending.reverse ++ '}' :: cs).take k.word.length := by
        rw [List.take_append, List.length_reverse]
        obtain ⟨n, hn⟩ : ∃ n, k.word.length - pending.length = n + 1 :=
          ⟨k.word.length - pending.length - 1, by omega⟩
        simp [hn]
      have hne : k.word ≠ ((pending.reverse ++ '}' :: cs).take k.word.length).reverse := by
        intro h
        exact k.brace_not_mem_word.2 (h ▸ List.mem_reverse.2 hmem)
      have hne' : k.word ≠ (pending.reverse.take k.word.length).reverse := by
        intro h
        have := congrArg List.length h
        simp at this
        omega
      rw [beq_false_of_ne hne, beq_false_of_ne hne']

/-- A piece that is read is pending. -/
theorem read_written (pending rest : Text) (p : Piece) :
    p.written.reverse ++ (pending.reverse ++ rest) = (pending ++ p.written).reverse ++ rest ∧
      (p.written.reverse ++ (pending.reverse ++ rest)).length =
        (pending.reverse ++ rest).length + p.written.length := by
  constructor
  · simp
  · rw [List.length_append, List.length_reverse, Nat.add_comm]

/-- Pieces behind a text have the keywords that their tokens have, where what is pending of the
text follows a closing brace or is all of it. -/
theorem filterMap_token?_bracesOf {pending rest : Text} {pieces : List Piece}
    (hrest : ∀ c ∈ rest.head?, c = '}') (hpieces : Piece.StopsAtUnmatched pieces) :
    (bracesOf (pending.reverse ++ rest) pieces).filterMap Brace.token? =
      (Token.ofPieces (pending.reverse ++ rest).length pending pieces).filter Token.isKeyword := by
  induction pieces generalizing pending rest with
  | nil => simp [bracesOf, Token.ofPieces]
  | cons p pieces ih =>
    cases p with
    | plain t =>
      obtain ⟨hread, hlength⟩ := read_written pending rest (.plain t)
      simp only [Piece.written] at hread hlength
      have ih := @ih (pending ++ t) rest hrest hpieces
      have hstrays := filterMap_straysFrom (f := Brace.token?) (fun _ => rfl)
      rw [← hread, hlength] at ih
      rw [bracesOf, List.filterMap_append, hstrays, List.nil_append, Token.ofPieces_plain, ih]
    | unmatched t =>
      obtain rfl : pieces = [] := hpieces
      simp [bracesOf, Brace.token?, Token.ofPieces]
    | group inner =>
      obtain ⟨hread, hlength⟩ := read_written pending rest (.group inner)
      rw [bracesOf, before?_take_four hrest]
      cases hk : Keyword.before? pending with
      | none =>
        have ih := @ih (pending ++ (Piece.group inner).written) rest hrest hpieces
        rw [← hread, hlength] at ih
        rw [List.filterMap_cons_none rfl, Token.ofPieces_block hk, ih]
      | some k =>
        -- Nothing is pending behind a keyword's group, of which the closing brace was read last.
        have ih := @ih [] ((Piece.group inner).written.reverse ++ (pending.reverse ++ rest))
          (by simp [Piece.written]) hpieces
        rw [List.reverse_nil, List.nil_append, hlength] at ih
        simp only [List.filterMap_cons, Brace.token?]
        rw [Token.ofPieces_keyword hk, List.filter_append, Token.filter_ofLiteral, List.nil_append,
          List.filter_cons_of_pos rfl, ih]

/-- A check sees the keywords of a text as its tokens have them: of the same kinds, with the same
conditions and at the same positions. -/
theorem keywords_braces (t : Text) :
    (braces t).filterMap Brace.token? = (Token.ofText t).filter Token.isKeyword := by
  have h := @filterMap_token?_bracesOf [] [] _ (by simp) (Piece.stopsAtUnmatched_split t)
  rw [braces_eq_bracesOf]
  exact h

/-- The condition of a keyword is what is in the group behind it, without the blanks at its ends. -/
theorem keyword_mem_ofText_iff {t : Text} {k : Keyword} {condition : Text} {position : Nat} :
    .keyword k condition position ∈ Token.ofText t ↔
      ∃ inner, .group position (some k) inner ∈ braces t ∧ inner.trim = condition := by
  have hmem : .keyword k condition position ∈ Token.ofText t ↔
      .keyword k condition position ∈ (Token.ofText t).filter Token.isKeyword := by
    simp [List.mem_filter, Token.isKeyword]
  rw [hmem, ← keywords_braces, List.mem_filterMap]
  constructor
  · rintro ⟨b, hb, htoken⟩
    cases b with
    | strayClosing | unmatchedOpening => cases htoken
    | group offset keyword inner =>
      cases keyword with
      | none => cases htoken
      | some k' =>
        cases htoken
        exact ⟨inner, hb, rfl⟩
  · rintro ⟨inner, hb, rfl⟩
    exact ⟨_, hb, rfl⟩

/-! ## The brace that is left open -/

theorem filterMap_unmatched?_bracesOf {read : Text} {pieces : List Piece} :
    (bracesOf read pieces).filterMap Brace.unmatched? =
      (Piece.unmatchedFrom? read.length pieces).toList := by
  induction pieces generalizing read with
  | nil => rfl
  | cons p pieces ih =>
    cases p with
    | plain t =>
      have hstrays := filterMap_straysFrom (f := Brace.unmatched?) (fun _ => rfl)
      have hlength : (t.reverse ++ read).length = read.length + (Piece.plain t).written.length := by
        simp [Piece.written, Nat.add_comm]
      rw [bracesOf, List.filterMap_append, hstrays, List.nil_append, ih, hlength,
        Piece.unmatchedFrom?]
      simp
    | group inner =>
      have hlength : ((Piece.group inner).written.reverse ++ read).length =
          read.length + (Piece.group inner).written.length := by
        simp [Nat.add_comm]
      rw [bracesOf, List.filterMap_cons_none rfl, ih, hlength, Piece.unmatchedFrom?]
      simp
    | unmatched t => rfl

/-- A check stops at the brace at which cutting a text into pieces stops, or at none. -/
theorem unmatched_braces (t : Text) :
    (braces t).filterMap Brace.unmatched? = (Piece.unmatchedFrom? 0 (Piece.split t)).toList := by
  rw [braces_eq_bracesOf]
  exact filterMap_unmatched?_bracesOf

/-! ## Action blocks -/

/-- Behind a closed text, the blocks of pieces are the groups that their tokens keep. -/
theorem filterMap_block?_bracesOf {pending rest : Text} {pieces : List Piece}
    (hrest : ∀ c ∈ rest.head?, c = '}') (hpending : Text.isClosed pending)
    (hpieces : ∀ p ∈ pieces, Piece.split p.written = [p]) (hclosed : Piece.allClosed pieces) :
    Text.groups pending ++ (bracesOf (pending.reverse ++ rest) pieces).filterMap Brace.block? =
      (Token.ofPieces (pending.reverse ++ rest).length pending pieces).flatMap Token.groups := by
  induction pieces generalizing pending rest with
  | nil => simp [bracesOf, Token.ofPieces]
  | cons p pieces ih =>
    obtain ⟨hp, hps⟩ := List.forall_mem_cons.1 hpieces
    have hwritten := Text.isClosed_written hp
    have hgroups := Text.groups_written hp
    cases p with
    | unmatched t => simp at hclosed
    | plain t =>
      obtain ⟨hread, hlength⟩ := read_written pending rest (.plain t)
      simp only [Piece.written] at hread hlength
      have ht : Text.groups t = [] := hgroups
      have ih := @ih (pending ++ t) rest hrest (Text.isClosed_append_self hpending hwritten)
        hps hclosed
      have hstrays := filterMap_straysFrom (f := Brace.block?) (fun _ => rfl)
      rw [Text.groups_append hpending, ht, List.append_nil, ← hread, hlength] at ih
      rw [bracesOf, List.filterMap_append, hstrays, List.nil_append, Token.ofPieces_plain, ih]
    | group inner =>
      have hinner : Text.groups (Piece.group inner).written = [inner] := hgroups
      obtain ⟨hread, hlength⟩ := read_written pending rest (.group inner)
      rw [bracesOf, before?_take_four hrest]
      cases hk : Keyword.before? pending with
      | none =>
        have ih := @ih (pending ++ (Piece.group inner).written) rest hrest
          (Text.isClosed_append_self hpending hwritten) hps hclosed
        rw [Text.groups_append hpending, hinner, List.append_assoc, ← hread, hlength] at ih
        simp only [List.filterMap_cons, Brace.block?]
        rw [Token.ofPieces_block hk, ← ih]
        rfl
      | some k =>
        -- The literal in front of the keyword has the blocks that were pending.
        have hfront := (Keyword.groups_of_before? hk hpending).2
        have ih := @ih [] ((Piece.group inner).written.reverse ++ (pending.reverse ++ rest))
          (by simp [Piece.written]) rfl hps hclosed
        rw [List.reverse_nil, List.nil_append, hlength] at ih
        rw [List.filterMap_cons_none rfl, Token.ofPieces_keyword hk, List.flatMap_append,
          Token.flatMap_groups_ofLiteral, ← hfront, List.flatMap_cons, ← ih]
        rfl

/-- A check of a closed text sees the blocks that its tokens keep. -/
theorem blocks_braces {t : Text} (h : t.isClosed) :
    (braces t).filterMap Brace.block? = (Token.ofText t).flatMap Token.groups := by
  have h := @filterMap_block?_bracesOf [] [] _ (by simp) rfl (fun _ => Piece.split_written) h
  rw [braces_eq_bracesOf]
  exact h

/-! ## Groups -/

theorem group_not_mem_straysFrom (offset₀ : Nat) (t : Text) {offset : Nat}
    {keyword : Option Keyword} {inner : Text} :
    .group offset keyword inner ∉ straysFrom offset₀ t := by
  induction t generalizing offset₀ with
  | nil => exact List.not_mem_nil
  | cons c cs ih =>
    unfold straysFrom
    split
    · intro h
      rcases List.mem_cons.1 h with heq | h
      · cases heq
      · exact ih _ h
    · exact ih _

/-- The braces of pieces begin with those of the pieces in front. -/
theorem bracesOf_append {before : List Piece} (h : Piece.allClosed before) (read : Text)
    (pieces : List Piece) :
    ∃ bs, bracesOf read (before ++ pieces) =
      bs ++ bracesOf ((before.flatMap Piece.written).reverse ++ read) pieces := by
  induction before generalizing read with
  | nil => exact ⟨[], rfl⟩
  | cons p before ih =>
    have hread : ((p :: before).flatMap Piece.written).reverse ++ read =
        (before.flatMap Piece.written).reverse ++ (p.written.reverse ++ read) := by
      simp
    rw [hread]
    cases p with
    | plain t =>
      obtain ⟨bs, hbs⟩ := ih h (t.reverse ++ read)
      exact ⟨straysFrom read.length t ++ bs, by
        rw [List.cons_append, bracesOf, hbs, List.append_assoc]
        rfl⟩
    | group inner =>
      obtain ⟨bs, hbs⟩ := ih h ((Piece.group inner).written.reverse ++ read)
      exact ⟨.group read.length (Keyword.before? (read.take 4).reverse) inner :: bs, by
        rw [List.cons_append, bracesOf, hbs]
        rfl⟩
    | unmatched rest => cases h

/-- A group among the braces of pieces is one of the pieces, with the keyword at the end of what is
in front of it. -/
theorem exists_of_mem_bracesOf {read : Text} {pieces : List Piece} {offset : Nat}
    {keyword : Option Keyword} {inner : Text}
    (h : .group offset keyword inner ∈ bracesOf read pieces) :
    ∃ before after, pieces = before ++ .group inner :: after ∧ Piece.allClosed before ∧
      offset = ((before.flatMap Piece.written).reverse ++ read).length ∧
      keyword = Keyword.before?
        (((before.flatMap Piece.written).reverse ++ read).take 4).reverse := by
  induction pieces generalizing read with
  | nil => cases h
  | cons p pieces ih =>
    have hread (before : List Piece) : ((p :: before).flatMap Piece.written).reverse ++ read =
        (before.flatMap Piece.written).reverse ++ (p.written.reverse ++ read) := by
      simp
    cases p with
    | plain t =>
      have h := (List.mem_append.1 h).resolve_left (group_not_mem_straysFrom _ _)
      obtain ⟨before, after, rfl, hclosed, hoffset, hkeyword⟩ := ih h
      exact ⟨.plain t :: before, after, rfl, hclosed, by rwa [hread], by rwa [hread]⟩
    | group inner' =>
      rcases List.mem_cons.1 h with heq | h
      · cases heq
        exact ⟨[], pieces, rfl, rfl, rfl, rfl⟩
      · obtain ⟨before, after, rfl, hclosed, hoffset, hkeyword⟩ := ih h
        exact ⟨.group inner' :: before, after, rfl, hclosed, by rwa [hread], by rwa [hread]⟩
    | unmatched rest => cases List.mem_singleton.1 h

/-- A check meets the groups that stand behind closed text, each with the keyword at the end of that
text. -/
theorem mem_braces_iff {t : Text} {offset : Nat} {keyword : Option Keyword} {inner : Text} :
    .group offset keyword inner ∈ braces t ↔
      ∃ front rest, t = front ++ (Piece.group inner).written ++ rest ∧ front.isClosed ∧
        Text.IsGroup (Piece.group inner).written ∧ offset = front.length ∧
        keyword = Keyword.before? front := by
  have hbefore (front : Text) : Keyword.before? ((front.reverse ++ []).take 4).reverse =
      Keyword.before? front := before?_take_four (by simp)
  rw [braces_eq_bracesOf]
  constructor
  · intro h
    obtain ⟨before, after, hsplit, hclosed, hoffset, hkeyword⟩ := exists_of_mem_bracesOf h
    have hpieces (p : Piece) (hp : p ∈ before ++ .group inner :: after) :
        Piece.split p.written = [p] := Piece.split_written (t := t) (hsplit ▸ hp)
    refine ⟨before.flatMap Piece.written, after.flatMap Piece.written, ?_, ?_,
      .of_split (hpieces _ (by simp)), by simpa using hoffset, ?_⟩
    · have hwritten := Piece.written_split t
      rw [hsplit] at hwritten
      simpa using hwritten.symm
    · refine (Text.groups_flatten fun u hu => ?_).2
      obtain ⟨p, hp, rfl⟩ := List.mem_map.1 hu
      rw [Text.isClosed_written (hpieces p (List.mem_append_left _ hp))]
      simpa [Piece.allClosed] using List.all_eq_true.1 hclosed p hp
    · rw [hkeyword, hbefore]
  · rintro ⟨front, rest, rfl, hclosed, hgroup, rfl, rfl⟩
    rw [Piece.split_append_group hclosed hgroup]
    obtain ⟨bs, hbs⟩ := bracesOf_append hclosed [] (.group inner :: Piece.split rest)
    rw [hbs, Piece.written_split, bracesOf, hbefore]
    simp

end Check

end StoryScript
