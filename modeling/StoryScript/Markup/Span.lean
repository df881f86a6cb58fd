import StoryScript.Text.Basic

/-! Spans of marked-up text: an opening mark, an inside, and the nearest closing mark. Text is cut
into its spans from left to right; an opening mark without a span is ordinary text. Main statement:
what a text is cut into, written one after another, is the text again (`written_cut`). -/

namespace StoryScript

/-- The marks of a kind of span, and what may stand between them. -/
structure Delimiter where
  opening : Text
  closing : Text
  allows : Char → Bool
  /-- Whether something has to stand between the marks. -/
  nonempty : Bool

/-- A part of a text as the spans of one kind divide it. -/
inductive Cut where
  | plain (text : Text)
  | span (inner : Text)
deriving DecidableEq, Repr

/-- Puts a character outside all spans in front of cuts. -/
def Cut.cons (c : Char) : List Cut → List Cut
  | plain t :: cuts => plain (c :: t) :: cuts
  | cuts => plain [c] :: cuts

namespace Delimiter

/-- What stands before the nearest closing mark, if all of it is allowed inside. -/
def innerFrom (d : Delimiter) : Text → Option Text
  | [] => if d.closing.isEmpty then some [] else none
  | c :: cs =>
    match Text.after? d.closing (c :: cs) with
    | some _ => some []
    | none => if d.allows c then (d.innerFrom cs).map (c :: ·) else none

/-- The inside of the span that begins after its opening mark. -/
def inner? (d : Delimiter) (t : Text) : Option Text :=
  if d.nonempty then
    match t with
    | [] => none
    | c :: cs => if d.allows c then (d.innerFrom cs).map (c :: ·) else none
  else d.innerFrom t

def spanAt? (d : Delimiter) (t : Text) : Option Text := (Text.after? d.opening t).bind d.inner?

def written (d : Delimiter) (inner : Text) : Text := d.opening ++ inner ++ d.closing

/-- Cuts a text into spans and what is outside them; `skip` counts the characters of a span that
are still to be passed over. -/
def cutFrom (d : Delimiter) : (skip : Nat) → Text → List Cut
  | _, [] => []
  | skip + 1, _ :: cs => d.cutFrom skip cs
  | 0, c :: cs =>
    match d.spanAt? (c :: cs) with
    | some inner => .span inner :: d.cutFrom ((d.written inner).length - 1) cs
    | none => Cut.cons c (d.cutFrom 0 cs)

def cut (d : Delimiter) (t : Text) : List Cut := d.cutFrom 0 t

def replaceSpans (f : Text → Text) (cuts : List Cut) : Text :=
  cuts.flatMap fun
    | .plain t => t
    | .span inner => f inner

end Delimiter

theorem Text.eq_append_of_after? {start t rest : Text} (h : Text.after? start t = some rest) :
    t = start ++ rest := by
  induction start generalizing t with
  | nil => simpa [Text.after?] using h
  | cons s ss ih =>
    cases t with
    | nil => simp [Text.after?] at h
    | cons c cs =>
      by_cases hc : s = c
      · subst hc
        simp only [Text.after?, if_true] at h
        rw [List.cons_append, ← ih h]
      · simp [Text.after?, hc] at h

namespace Delimiter

theorem eq_append_of_innerFrom {d : Delimiter} {t inner : Text} (h : d.innerFrom t = some inner) :
    ∃ rest, t = inner ++ d.closing ++ rest := by
  induction t generalizing inner with
  | nil =>
    by_cases hd : d.closing = [] <;> simp_all [innerFrom]
  | cons c cs ih =>
    unfold innerFrom at h
    split at h
    · next rest hrest =>
      obtain rfl : [] = inner := by simpa using h
      exact ⟨rest, by simpa using Text.eq_append_of_after? hrest⟩
    · split at h
      · obtain ⟨i, hi, rfl⟩ := Option.map_eq_some_iff.1 h
        obtain ⟨rest, hrest⟩ := ih hi
        exact ⟨rest, by simp [hrest]⟩
      · simp at h

theorem eq_append_of_inner? {d : Delimiter} {t inner : Text} (h : d.inner? t = some inner) :
    ∃ rest, t = inner ++ d.closing ++ rest := by
  unfold inner? at h
  split at h
  · cases t with
    | nil => simp at h
    | cons c cs =>
      dsimp only at h
      split at h
      · obtain ⟨i, hi, rfl⟩ := Option.map_eq_some_iff.1 h
        obtain ⟨rest, hrest⟩ := eq_append_of_innerFrom hi
        exact ⟨rest, by simp [hrest]⟩
      · simp at h
  · exact eq_append_of_innerFrom h

theorem eq_append_of_spanAt? {d : Delimiter} {t inner : Text} (h : d.spanAt? t = some inner) :
    ∃ rest, t = d.written inner ++ rest := by
  obtain ⟨u, hu, hinner⟩ := Option.bind_eq_some_iff.1 h
  obtain ⟨rest, hrest⟩ := eq_append_of_inner? hinner
  exact ⟨rest, by rw [Text.eq_append_of_after? hu, hrest]; simp [written]⟩

def writtenCut (d : Delimiter) : Cut → Text
  | .plain t => t
  | .span inner => d.written inner

theorem written_cons (d : Delimiter) (c : Char) (cuts : List Cut) :
    (Cut.cons c cuts).flatMap d.writtenCut = c :: cuts.flatMap d.writtenCut := by
  unfold Cut.cons
  split <;> simp [writtenCut]

theorem written_cutFrom (d : Delimiter) (hd : d.opening ≠ []) (skip : Nat) (t : Text) :
    (d.cutFrom skip t).flatMap d.writtenCut = t.drop skip := by
  fun_induction d.cutFrom skip t with
  | case1 => simp
  | case2 skip c cs ih => simpa using ih
  | case3 c cs inner hspan ih =>
    obtain ⟨rest, hrest⟩ := eq_append_of_spanAt? hspan
    have hlen : 0 < (d.written inner).length := by
      have := List.length_pos_iff.2 hd
      simp only [written, List.length_append]
      omega
    have hdrop : cs.drop ((d.written inner).length - 1) = rest := by
      have h := congrArg (List.drop (d.written inner).length) hrest
      rw [List.drop_left] at h
      obtain ⟨n, hn⟩ : ∃ n, (d.written inner).length = n + 1 :=
        ⟨_, (Nat.succ_pred_eq_of_pos hlen).symm⟩
      rw [hn] at h ⊢
      simpa using h
    rw [List.flatMap_cons, ih, hdrop, List.drop_zero, hrest]
    rfl
  | case4 c cs hspan ih => rw [written_cons, ih]; rfl

theorem written_cut (d : Delimiter) (hd : d.opening ≠ []) (t : Text) :
    (d.cut t).flatMap d.writtenCut = t :=
  written_cutFrom d hd 0 t

end Delimiter

end StoryScript
