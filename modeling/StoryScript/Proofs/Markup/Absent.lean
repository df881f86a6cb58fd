import StoryScript.Engine.Resolve

/-!
# Texts without a kind of span

A text in which an opening mark does not occur has no spans of that kind. Main statements: such a
text is cut into itself alone (`Delimiter.cut_of_absent`), so the passes over its code spans,
placeholders and templates leave it as it is (`Engine.resolveCode_of_absent`,
`Engine.resolvePlaceholders_of_not_mem`, `Engine.templatePass_of_not_mem`).
-/

namespace StoryScript

/-- A text as a single cut, if there is any. -/
def Cut.ofPlain : Text → List Cut
  | [] => []
  | c :: cs => [plain (c :: cs)]

namespace Delimiter

theorem cut_of_absent {d : Delimiter} {t : Text} (h : ¬ d.opening <:+: t) :
    d.cut t = Cut.ofPlain t := by
  induction t with
  | nil => rfl
  | cons c cs ih =>
    have hspan : d.spanAt? (c :: cs) = none := by
      refine Option.eq_none_iff_forall_ne_some.2 fun inner hinner => h ?_
      obtain ⟨rest, hrest⟩ := eq_append_of_spanAt? hinner
      exact ⟨[], inner ++ d.closing ++ rest, by simp [hrest, written]⟩
    have hcs : d.cutFrom 0 cs = Cut.ofPlain cs :=
      ih fun hoccurs => h (hoccurs.trans (List.suffix_cons c cs).isInfix)
    rw [cut, cutFrom, hspan, hcs]
    cases cs <;> rfl

/-- Text without the first character of an opening mark is not in a span, so it is cut off with what
else is plain behind it. -/
theorem exists_cut_append {d : Delimiter} {m : Char} (hd : d.opening.head? = some m) {p : Text}
    (hp : m ∉ p) (hne : p ≠ []) (t : Text) :
    ∃ u cuts, d.cut (p ++ t) = .plain u :: cuts ∧ p <+: u := by
  induction p with
  | nil => exact absurd rfl hne
  | cons c cs ih =>
    obtain ⟨hc, hcs⟩ := not_or.1 (mt List.mem_cons.2 hp)
    have hspan : d.spanAt? (c :: (cs ++ t)) = none := by
      refine Option.eq_none_iff_forall_ne_some.2 fun inner hinner => hc ?_
      obtain ⟨rest, hrest⟩ := eq_append_of_spanAt? hinner
      obtain ⟨ms, hopening⟩ := List.head?_eq_some_iff.1 hd
      rw [written, hopening] at hrest
      exact (List.cons.inj hrest).1.symm
    have hcut : d.cut (c :: cs ++ t) = Cut.cons c (d.cut (cs ++ t)) := by
      rw [List.cons_append, cut, cutFrom, hspan]
      rfl
    rw [hcut]
    cases cs with
    | nil =>
      unfold Cut.cons
      split
      · exact ⟨_, _, rfl, List.prefix_append [c] _⟩
      · exact ⟨_, _, rfl, List.prefix_rfl⟩
    | cons c' cs =>
      obtain ⟨u, cuts, hrest, hu⟩ := ih hcs (List.cons_ne_nil _ _)
      rw [hrest]
      exact ⟨c :: u, cuts, rfl, List.cons_prefix_cons.2 ⟨rfl, hu⟩⟩

theorem absent_of_not_mem {u t : Text} {c : Char} (hu : c ∈ u) (ht : c ∉ t) : ¬ u <:+: t :=
  fun h => ht (h.subset hu)

theorem replaceSpans_of_absent {d : Delimiter} {t : Text} (h : ¬ d.opening <:+: t)
    (f : Text → Text) : replaceSpans f (d.cut t) = t := by
  rw [cut_of_absent h]
  cases t <;> simp [Cut.ofPlain, replaceSpans]

end Delimiter

theorem Code.blank_of_absent {t : Text} (h : ¬ Code.delimiter.opening <:+: t) :
    Code.blank t = t :=
  Delimiter.replaceSpans_of_absent h _

namespace Engine

variable {σ : Type} (e : Engine σ) (re : Reentry σ)

theorem resolveCode_of_absent {t : Text} (h : ¬ Code.delimiter.opening <:+: t) :
    e.resolveCode t = t :=
  Delimiter.replaceSpans_of_absent h _

theorem resolvePlaceholders_of_not_mem {t : Text} (h : '|' ∉ t) :
    e.resolvePlaceholders re t = pure t := by
  rw [resolvePlaceholders, Delimiter.cut_of_absent
    (Delimiter.absent_of_not_mem (c := '|') (by decide) h)]
  cases t <;> simp [Cut.ofPlain, placeholderPass]

theorem templatePass_of_not_mem (nested : Text → Run σ Resolution) {t : Text} (h : '|' ∉ t) :
    e.templatePass nested [] .empty (templateMarks.cut t) = pure (.text t .empty) := by
  rw [Delimiter.cut_of_absent (Delimiter.absent_of_not_mem (c := '|') (by decide) h)]
  cases t <;> simp [Cut.ofPlain, templatePass]

end Engine

end StoryScript
