import StoryScript.Proofs.Engine.Blocks

/-!
# What is shown of a text

Taking the blocks out of a text leaves no opening brace, whether they can be read or not, and the
passes behind that only show characters of the text or of a style tag
(`Speaker.mem_of_mem_split`, `Style.mem_or_writes_of_mem_resolve`). Main statement: no opening brace
is shown, unless an escape in a style tag writes one (`Engine.resolve_shows_no_brace`).
-/

namespace StoryScript

open Run

variable {σ : Type}

/-! ## Characters of a text -/

namespace Piece

theorem mem_ofPlain {t u : Text} : plain u ∈ ofPlain t ↔ t ≠ [] ∧ u = t := by
  cases t <;> simp [ofPlain]

theorem brace_not_mem_of_mem_splitFrom {depth : Nat} {read t u : Text}
    (hread : depth = 0 → '{' ∉ read) (h : plain u ∈ splitFrom depth read t) : '{' ∉ u := by
  have hplain {read : Text} (hread : '{' ∉ read) (h : plain u ∈ ofPlain read.reverse) :
      '{' ∉ u := by
    rw [(mem_ofPlain.1 h).2]
    exact mt List.mem_reverse.1 hread
  fun_induction splitFrom depth read t with
  | case1 read => exact hplain (hread rfl) h
  | case2 depth read => simp at h
  | case3 read cs ih =>
    rcases List.mem_append.1 h with h | h
    · exact hplain (hread rfl) h
    · exact ih (absurd · (Nat.succ_ne_zero _)) h
  | case4 read c cs hc ih =>
    exact ih (fun _ hmem => (List.mem_cons.1 hmem).elim (fun heq => hc heq.symm) (hread rfl)) h
  | case5 depth read cs ih => exact ih (absurd · (Nat.succ_ne_zero _)) h
  | case6 read cs _ ih =>
    rcases List.mem_cons.1 h with h | h
    · cases h
    · exact ih (fun _ => List.not_mem_nil) h
  | case7 read cs depth _ ih => exact ih (absurd · (Nat.succ_ne_zero _)) h
  | case8 depth read c cs hc hc' ih => exact ih (absurd · (Nat.succ_ne_zero _)) h

theorem brace_not_mem_of_mem_split {t u : Text} (h : plain u ∈ split t) : '{' ∉ u :=
  brace_not_mem_of_mem_splitFrom (fun _ => List.not_mem_nil) h

end Piece

theorem Delimiter.mem_of_mem_cut {d : Delimiter} (hd : d.opening ≠ []) {t : Text} {cut : Cut}
    (hcut : cut ∈ d.cut t) {c : Char} (hc : c ∈ d.writtenCut cut) : c ∈ t := by
  rw [← d.written_cut hd t]
  exact List.mem_flatMap.2 ⟨cut, hcut, hc⟩

theorem Speaker.mem_of_mem_split {t : Text} {c : Char} (h : c ∈ (split t).2) : c ∈ t := by
  unfold split at h
  extract_lets name at h
  split at h
  · next rest hrest =>
    have hsuffix : rest <:+ t :=
      (List.suffix_cons _ _).trans (hrest ▸ List.dropWhile_suffix _)
    split at h
    · exact h
    · split at h
      · next speech hspeech =>
        unfold speech? at hspeech
        extract_lets u line rest' at hspeech
        split at hspeech
        · obtain rfl := Option.some.inj hspeech
          have hline : c ∈ Text.trimLeft rest := (List.takeWhile_sublist _).subset h
          exact hsuffix.subset ((List.dropWhile_suffix _).subset hline)
        · cases hspeech
      · exact h
  · exact h

namespace Style

/-- Whether a tag, read with its escapes, writes a character of its own. -/
def Writes (tag : Text) (c : Char) : Prop :=
  ∃ parts t, template tag = .ok parts ∧ .text t ∈ parts ∧ c ∈ t

theorem mem_of_mem_literal {t u : Text} (h : Part.text t ∈ literal u) {c : Char} (hc : c ∈ t) :
    c ∈ u := by
  obtain ⟨c', hc', hpart⟩ := List.mem_map.1 h
  obtain rfl := Part.text.inj hpart
  rwa [List.mem_singleton.1 hc]

/-- A tag without escapes only writes what it is made of, in angle brackets. -/
theorem mem_of_writes_of_plain {tag : Text} (h : '\\' ∉ tag) {c : Char} (hc : Writes tag c) :
    c ∈ ("</>" : Text) ∨ c ∈ tag := by
  have hangles {front : Text} (hfront : ∀ c ∈ front ++ ">", c ∈ ("</>" : Text))
      (hc : c ∈ front ++ tag ++ ">") : c ∈ ("</>" : Text) ∨ c ∈ tag := by
    simp only [List.mem_append] at hfront hc
    rcases hc with (hc | hc) | hc
    · exact .inl (hfront c (.inl hc))
    · exact .inr hc
    · exact .inl (hfront c (.inr hc))
  obtain ⟨parts, t, hparts, ht, hc⟩ := hc
  rw [template_of_plain h] at hparts
  obtain rfl := Except.ok.inj hparts
  rcases List.mem_append.1 ht with ht | ht
  · exact hangles (by simp) (mem_of_mem_literal ht hc)
  · rcases List.mem_cons.1 ht with ht | ht
    · cases ht
    · exact hangles (by simp) (mem_of_mem_literal ht hc)

variable {d : Delimiter} {t u : Text} {c : Char}

theorem mem_or_writes_of_mem_mark {tag : Text} (hd : d.opening ≠ []) (h : mark d tag t = .ok u)
    (hc : c ∈ u) : c ∈ t ∨ Writes tag c := by
  unfold mark at h
  cases htemplate : template tag with
  | error failure =>
    rw [htemplate] at h
    cases h
  | ok parts =>
    rw [htemplate] at h
    cases h
    obtain ⟨cut, hcut, hc⟩ := List.mem_flatMap.1 hc
    have hmem := Delimiter.mem_of_mem_cut hd hcut (c := c)
    cases cut with
    | plain v => exact .inl (hmem hc)
    | span inner =>
      have hinner (h : c ∈ inner) : c ∈ t :=
        hmem (List.mem_append_left _ (List.mem_append_right _ h))
      obtain ⟨part, hpart, hc⟩ := List.mem_flatMap.1 hc
      cases part with
      | text v => exact .inr ⟨parts, v, htemplate, hpart, hc⟩
      | inner => exact .inl (hinner hc)
      | whole => exact .inl (hmem hc)

/-- What is shown of a text is made of it and of what the tags write. -/
theorem mem_or_writes_of_mem_resolve {italicTag boldTag : Text}
    (h : resolve italicTag boldTag t = .ok u) (hc : c ∈ u) :
    c ∈ t ∨ Writes italicTag c ∨ Writes boldTag c := by
  obtain ⟨v, hv, hu⟩ := exists_of_bind_eq_ok h
  rcases mem_or_writes_of_mem_mark (by decide) hu hc with hc | hc
  · exact (mem_or_writes_of_mem_mark (by decide) hv hc).imp_right .inl
  · exact .inr (.inr hc)

end Style

namespace Engine

/-- Whether one of the style tags writes a character, at some memory of the hosts. -/
def TagsWrite (e : Engine σ) (c : Char) : Prop :=
  ∃ memory, Style.Writes (e.tags memory).italic.display c ∨
    Style.Writes (e.tags memory).bold.display c

variable {e : Engine σ} {re : Reentry σ} {dryRun : Bool} {s s' : State σ}

/-! ## Resolutions -/

theorem brace_not_mem_of_extractPieces {output : Text} {found : ActionMap} {pieces : List Piece}
    {x : Extraction} (houtput : '{' ∉ output) (hpieces : ∀ t, .plain t ∈ pieces → '{' ∉ t)
    (h : (e.extractPieces re dryRun output found pieces).on s = (.ok x, s')) :
    '{' ∉ x.output := by
  induction pieces generalizing output found s with
  | nil =>
    cases h
    exact houtput
  | cons piece pieces ih =>
    have hrest : ∀ t, .plain t ∈ pieces → '{' ∉ t :=
      fun t ht => hpieces t (List.mem_cons_of_mem _ ht)
    cases piece with
    | plain t =>
      refine ih (fun hmem => ?_) hrest h
      exact (List.mem_append.1 hmem).elim houtput (hpieces t List.mem_cons_self)
    | unmatched rest =>
      cases h
      exact houtput
    | group inner =>
      rcases e.extractPieces_group_cases re dryRun output found inner pieces s with
        ⟨n, -, -, hrun⟩ | ⟨b, -, ⟨-, hrun⟩ | ⟨-, hrun⟩⟩
      · exact ih houtput hrest (hrun.symm.trans h)
      · cases hrun.symm.trans h
        exact List.not_mem_nil
      · rw [hrun] at h
        cases dryRun with
        | true => exact ih houtput hrest h
        | false =>
          obtain ⟨_, s₁, -, h⟩ := exists_of_on_bind_eq_ok h
          exact ih houtput hrest h

theorem writes_of_finish {t : Text} {found : ActionMap} {r : Resolution}
    (h : (e.finish re dryRun t found).on s = (.ok r, s')) (hr : '{' ∈ r.output) :
    e.TagsWrite '{' := by
  obtain ⟨x, s₁, hextract, h⟩ := exists_of_on_bind_eq_ok h
  have hnone := brace_not_mem_of_extractPieces List.not_mem_nil
    (fun _ => Piece.brace_not_mem_of_mem_split) hextract
  dsimp only at h
  split at h
  · cases h
    cases hr
  · rw [on_getState_bind] at h
    obtain ⟨output, s₂, hstyles, h⟩ := exists_of_on_bind_eq_ok h
    cases h
    obtain ⟨hstyles, -⟩ := Prod.mk.inj hstyles
    refine ⟨s₁.memory, (Style.mem_or_writes_of_mem_resolve hstyles hr).resolve_left fun hmem => ?_⟩
    exact hnone (Speaker.mem_of_mem_split hmem)

theorem writes_of_resolveWithin {levels : Nat} {t : Text} {r : Resolution}
    (h : (e.resolveWithin re dryRun levels t).on s = (.ok r, s')) (hr : '{' ∈ r.output) :
    e.TagsWrite '{' := by
  cases levels with
  | zero => cases h
  | succ levels =>
    rw [resolveWithin_succ] at h
    obtain ⟨u, s₁, -, h⟩ := exists_of_on_bind_eq_ok h
    obtain ⟨substitution, s₂, hpass, h⟩ := exists_of_on_bind_eq_ok h
    cases substitution with
    | redirected r' =>
      cases h
      have hcomes := comesOf_templatePass comesOf_resolveWithin ActionMap.consistent_empty hpass
      obtain ⟨-, -, houtput, -⟩ := hcomes
      rw [houtput] at hr
      cases hr
    | text v found => exact writes_of_finish h hr

/-- No block leaks. Whatever text is resolved on whatever engine, what placeholders, branches and
templates put into it, and whether or not its blocks can be read, no opening brace is shown, where
neither style tag writes one. -/
theorem resolve_shows_no_brace (e : Engine σ) (re : Reentry σ) (dryRun : Bool)
    (htags : ¬ e.TagsWrite '{') {t : Text} {s s' : State σ} {r : Resolution}
    (h : (e.resolve re t dryRun).on s = (.ok r, s')) : '{' ∉ r.output := by
  intro hr
  rcases resolve_cases h with ⟨-, rfl⟩ | ⟨found, s₁, s₂, -, hwithin, rfl, -⟩
  · cases hr
  · rw [output_delivered] at hr
    exact htags (writes_of_resolveWithin hwithin hr)

/-- An engine with a tag in which an escape stands for an opening brace. -/
def embossed : Engine Unit where
  settings := { Settings.standard with boldTag := .text "\\173" }
  sigil := "_"
  repair := id
  fragments := none
  conditions := []
  placeholders := []
  actions := []
  callbacks := []

/-- An engine with a placeholder and a fragment that put braces into a text. -/
def leaky : Engine Unit where
  settings := .standard
  sigil := "_"
  repair := id
  fragments := some [(.text "main", [(.text "$rest", .text "\x7bshut\x7d ajar \x7b\x7bleft open")])]
  conditions := []
  placeholders := [("brace", fun _ => .done (.text "\x7b"))]
  actions := []
  callbacks := []

def leakyText : Text := "Ann: *See* |brace|no block\x7d, |$rest|. |brace|gone"

def outputStart : State Unit := World.start default ()

/-- There is no brace in the tag, but there is in what is shown. -/
theorem resolve_embossed_shows_brace :
    '{' ∉ embossed.settings.italicTag.display ∧ '{' ∉ embossed.settings.boldTag.display ∧
      ((embossed.resolve embossed.reentry "*x*" false).on outputStart).1.toOption.map
        Resolution.output = some "<\x7b>x</\x7b>".toList :=
  ⟨by decide, by decide, by decide +kernel⟩

/-- Braces come in from a placeholder and from a template, closed and unmatched. -/
theorem resolve_leakyText :
    ¬ leaky.TagsWrite '{' ∧ ∃ r s',
      (leaky.resolve leaky.reentry leakyText false).on outputStart = (.ok r, s') ∧
        '{' ∉ r.output ∧ r.output = "<b>See</b> ,  ajar . ".toList := by
  have htags : ¬ leaky.TagsWrite '{' := by
    rintro ⟨⟨⟩, h | h⟩
    · exact absurd (Style.mem_of_writes_of_plain (by decide) h) (by decide)
    · exact absurd (Style.mem_of_writes_of_plain (by decide) h) (by decide)
  have houtput : ((leaky.resolve leaky.reentry leakyText false).on
      outputStart).1.toOption.map Resolution.output = some "<b>See</b> ,  ajar . ".toList := by
    decide +kernel
  obtain ⟨r, s', hrun, houtput⟩ := exists_eq_ok_of_map houtput
  exact ⟨htags, r, s', hrun, resolve_shows_no_brace leaky leaky.reentry false htags hrun, houtput⟩

end Engine

end StoryScript
