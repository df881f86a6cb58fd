import StoryScript.Proofs.Block.Groups
import StoryScript.Proofs.Engine.Invariant
import StoryScript.Proofs.Markup.Escaping

/-!
# Code spans are inert

A text without markup is shown as it is, and nothing is run for it (`Engine.on_finish_of_plain`). Main
statement: a text that is plain but for its code spans is shown with their insides escaped, by itself
or as the fragment of a template, and no condition, placeholder or action of the engine plays a part
(`Engine.resolve_codeText`).
-/

namespace StoryScript

open Run

variable {σ : Type}

theorem Token.ofText_of_not_mem {t : Text} (h : '{' ∉ t) : ofText t = ofLiteral t := by
  rw [ofText, Piece.split_of_not_mem h]
  cases t <;> rfl

namespace Engine

/-- An engine has the standard settings, and no host changes its tags. -/
structure HasStandardSettings (e : Engine σ) : Prop where
  settings : e.settings = .standard
  tags : ∀ memory, e.tags memory = Settings.standard.tags

/-! ## Texts without markup -/

variable (e : Engine σ) (re : Reentry σ) (s : State σ)

/-- Nothing is asked about a text without branches. -/
theorem on_resolveBranches_of_ofText_eq {t : Text} (h : Token.ofText t = Token.ofLiteral t) :
    (e.resolveBranches re t).on s = (.ok t, s) := by
  have hreports : Node.reportsOfText t = [] := by
    rw [Node.reportsOfText, h]
    cases t <;> rfl
  have hnodes : Node.render (e.passes re) (Node.ofText t) = pure t := by
    rw [Node.ofText, h]
    cases t with
    | nil => rfl
    | cons c cs => exact (pure_bind _ _).trans (by rw [List.append_nil])
  rw [resolveBranches, hreports, hnodes]
  show ((.ok t : Except Failure Text), { s with notices := s.notices ++ [] }) = _
  rw [List.append_nil]

/-- A text without markup or a speaker is shown as it is. -/
theorem on_finish_of_plain (hsettings : e.HasStandardSettings) (dryRun : Bool) {t : Text}
    (hbrace : '{' ∉ t) (hstar : '*' ∉ t) (hspeaker : Speaker.split t = (none, t)) :
    (e.finish re dryRun t .empty).on s = (.ok ⟨t, .empty, none, false⟩, s) := by
  have hextract : e.extract re t dryRun = pure ⟨t, .empty, false⟩ := by
    rw [extract, Piece.split_of_not_mem hbrace]
    cases t <;> rfl
  have hstyles (memory : σ) : e.resolveStyles memory t = .ok t := by
    have hitalic : ¬ Style.italic.opening <:+: t :=
      Delimiter.absent_of_not_mem (c := '*') (by decide) hstar
    have hbold : ¬ Style.bold.opening <:+: t :=
      Delimiter.absent_of_not_mem (c := '*') (by decide) hstar
    rw [resolveStyles, hsettings.tags, Style.resolve_of_plain (by decide) (by decide),
      Delimiter.replaceSpans_of_absent hitalic, Delimiter.replaceSpans_of_absent hbold]
  rw [finish, hextract, pure_bind]
  simp only [hspeaker, hstyles]
  rfl

/-- A text that is shown as it is once its code spans are escaped. -/
theorem on_resolveWithin_codeText (hsettings : e.HasStandardSettings) (dryRun : Bool)
    (levels : Nat) (t : CodeText) :
    (e.resolveWithin re dryRun (levels + 1) t.written).on s =
      (.ok ⟨t.shown "output_code", .empty, none, false⟩, s) := by
  have hcode : e.resolveCode t.written = t.shown "output_code" := by
    rw [resolveCode, hsettings.settings]
    exact t.resolve_written "output_code"
  have hbar : '|' ∉ t.shown "output_code" := CodeText.not_mem_shown (by decide)
  have hbrace : '{' ∉ t.shown "output_code" := CodeText.not_mem_shown (by decide)
  have hstar : '*' ∉ t.shown "output_code" := CodeText.not_mem_shown (by decide)
  rw [resolveWithin_succ, resolveOver, rendered, hcode, resolvePlaceholders_of_not_mem _ _ hbar,
    pure_bind, on_bind, on_resolveBranches_of_ofText_eq _ _ _ (Token.ofText_of_not_mem hbrace)]
  dsimp only
  rw [templatePass_of_not_mem _ _ hbar, pure_bind]
  exact e.on_finish_of_plain re s hsettings dryRun hbrace hstar (t.split_shown "output_code")

/-! ## A text with code spans as a fragment -/

section

variable {name : Text}

theorem cut_bars {d : Delimiter} {inner : Text} (hopening : d.opening ≠ [])
    (hclosing : d.closing = ['|']) (hallows : ∀ c, d.allows c = (c != '|')) (hne : inner ≠ [])
    (hbar : '|' ∉ inner) : d.cut (d.written inner) = [.span inner] := by
  have hinner : ∀ c ∈ inner, d.allows c := by
    intro c hc
    rw [hallows, bne_iff_ne]
    rintro rfl
    exact hbar hc
  have hcut := Delimiter.cut_written_append hopening hclosing List.not_mem_nil hinner (fun _ => hne)
    (Delimiter.absent_of_not_mem (c := '|') (by rw [hclosing]; simp) hbar) []
  rw [List.append_nil] at hcut
  exact hcut

/-- The passes before the templates leave the reference to a fragment as it is, if no other markup
is made of its name. -/
theorem on_rendered_reference (hname : ∀ c ∈ name, c ≠ '|' ∧ c ≠ '{' ∧ c ≠ '[') :
    (e.rendered re (templateMarks.written name)).on s = (.ok (templateMarks.written name), s) := by
  have hbrace : '{' ∉ templateMarks.written name := by
    simpa [Delimiter.written, templateMarks] using fun h => (hname '{' h).2.1 rfl
  have hbracket : '[' ∉ templateMarks.written name := by
    simpa [Delimiter.written, templateMarks] using fun h => (hname '[' h).2.2 rfl
  have hbar : '|' ∉ '$' :: name := by
    simpa using fun h => (hname '|' h).1 rfl
  have hcut : placeholderMarks.cut (templateMarks.written name) = [.span ('$' :: name)] :=
    cut_bars (d := placeholderMarks) (by decide) rfl (fun _ => rfl) (List.cons_ne_nil _ _) hbar
  have hplaceholders : e.resolvePlaceholders re (templateMarks.written name) =
      pure (templateMarks.written name) := by
    have hdollar : ('$' :: name).head? = some '$' := rfl
    rw [resolvePlaceholders, hcut, placeholderPass, if_pos hdollar]
    simp only [placeholderPass, pure_bind, List.append_nil]
    rfl
  have hcode : ¬ Code.delimiter.opening <:+: templateMarks.written name :=
    Delimiter.absent_of_not_mem (c := '[') (by decide) hbracket
  rw [rendered, resolveCode_of_absent _ hcode, hplaceholders, pure_bind]
  exact e.on_resolveBranches_of_ofText_eq re s (Token.ofText_of_not_mem hbrace)

/-- The one template of a reference is the fragment that it names. -/
theorem on_templatePass_reference (hne : name ≠ []) (hbar : '|' ∉ name)
    (hsettings : e.HasStandardSettings) (hdepth : s.depth < 8) {fragment output : Text}
    (hload : e.loadFragment s.flags.current ('$' :: name) = .ok (.text fragment))
    {nested : Text → Run σ Resolution} (hnested : ∀ s : State σ,
      (nested fragment).on s = (.ok ⟨output, .empty, none, false⟩, s)) :
    (e.templatePass nested [] .empty (templateMarks.cut (templateMarks.written name))).on s =
      (.ok (.text output .empty), s) := by
  have hcut : templateMarks.cut (templateMarks.written name) = [.span name] :=
    cut_bars (by decide) rfl (fun _ => rfl) hne hbar
  have hreaches : reaches s.depth e.settings.maxTemplateDepth = .ok false := by
    rw [hsettings.settings]
    show Except.ok (decide ((8 : Int) ≤ s.depth)) = _
    rw [decide_eq_false (by omega)]
  have hsubstitute : (e.substituteTemplate nested ('$' :: name)).on s =
      (.ok (some ⟨output, .empty, none, false⟩), s) := by
    show (Run.ofExcept (reaches s.depth e.settings.maxTemplateDepth) >>= _).on s = _
    rw [hreaches, hload]
    show (Run.deeper (nested fragment) >>= fun r => pure (some r)).on s = _
    rw [on_bind, on_deeper, hnested]
    rfl
  rw [hcut, templatePass, on_bind, hsubstitute]
  rfl

end

/-- Code spans are inert. In a text that is plain but for its code spans, where no callback stops the
call, each inside is shown with the characters of markup as entities, and nothing else comes of it,
whatever is registered. The same is shown of a reference to a fragment with that text, if the passes
before the templates leave the reference as it is. -/
theorem resolve_codeText (hsettings : e.HasStandardSettings) (t : CodeText) (dryRun : Bool) :
    (∀ s s₁ : State σ, (e.trigger re resolveBefore [.text t.written]).on s = (.ok true, s₁) →
      (e.resolve re t.written dryRun).on s =
        (.ok ⟨t.shown "output_code", .empty, none, false⟩, { s₁ with talking := none })) ∧
    (∀ (name : Text) (s s₁ s₂ : State σ), name ≠ [] → '|' ∉ name →
      (e.trigger re resolveBefore [.text (templateMarks.written name)]).on s = (.ok true, s₁) →
      (e.rendered re (templateMarks.written name)).on s₁ = (.ok (templateMarks.written name), s₂) →
      s₂.depth < 8 → e.loadFragment s₂.flags.current ('$' :: name) = .ok (.text t.written) →
      (e.resolve re (templateMarks.written name) dryRun).on s =
        (.ok ⟨t.shown "output_code", .empty, none, false⟩, { s₂ with talking := none })) ∧
    ∀ inner, Code.decode (Code.escape inner) = inner := by
  have hresolve {u : Text} {s s₁ s₂ : State σ}
      (htrigger : (e.trigger re resolveBefore [.text u]).on s = (.ok true, s₁))
      (hwithin : (e.resolveWithin re dryRun (levels e.settings + 1) u).on s₁ =
        (.ok ⟨t.shown "output_code", .empty, none, false⟩, s₂)) :
      (e.resolve re u dryRun).on s =
        (.ok ⟨t.shown "output_code", .empty, none, false⟩, { s₂ with talking := none }) := by
    rw [resolve, on_bind, htrigger]
    dsimp only
    rw [if_pos rfl, on_bind, hwithin]
    cases dryRun <;> rfl
  refine ⟨?_, ?_, Code.decode_escape⟩
  · intro s s₁ htrigger
    exact hresolve htrigger (e.on_resolveWithin_codeText re s₁ hsettings dryRun _ t)
  · intro name s s₁ s₂ hne hbar htrigger hrendered hdepth hload
    apply hresolve htrigger
    have hlevels : levels e.settings = 8 + 1 := by rw [hsettings.settings]; rfl
    rw [hlevels, resolveWithin_succ, resolveOver, on_bind, hrendered]
    dsimp only
    rw [on_bind, on_templatePass_reference e s₂ hne hbar hsettings hdepth hload
      fun s => e.on_resolveWithin_codeText re s hsettings dryRun 8 t]
    exact e.on_finish_of_plain re s₂ hsettings dryRun (CodeText.not_mem_shown (by decide))
      (CodeText.not_mem_shown (by decide)) (t.split_shown "output_code")

/-- What a manual of markup shows, which is every kind of it. -/
def manualSpans : List (Text × Text) :=
  [("if\x7b_open = true\x7d|gold|\x7bpay: 1\x7dfi\x7b\x7d", " or "),
    ("[code]Ann: **a** & *b* |$page|", ".")]

def manualPage : CodeText where
  front := "Write "
  spans := manualSpans
  isPlain t ht c hc := by
    have hall : (("Write " : Text) :: manualSpans.map Prod.snd).all fun t =>
        t.all fun c => !Code.isMarkup c && c != ':' := by decide
    simpa using List.all_eq_true.1 (List.all_eq_true.1 hall t ht) c hc
  isClosed p hp :=
    have hslash : ∀ p ∈ manualSpans, '/' ∉ p.1 := by decide
    Delimiter.absent_of_not_mem (c := '/') (by decide) (hslash p hp)

/-- An engine whose conditions, placeholders and actions all count how often they are called. -/
def counting : Engine Nat where
  settings := .standard
  sigil := "_"
  repair := id
  fragments := some [(.text "main", [(.text "$page", .text manualPage.written)])]
  conditions := [("_open", fun _ => .updating (· + 1) (.done (.bool true)))]
  placeholders := [("gold", fun _ => .updating (· + 1) (.done (.int 7)))]
  actions := [("pay", .plain fun _ => .updating (· + 1) (.done ()))]
  callbacks := [("hush", fun _ => .done .stop)]

def countingStart : State Nat where
  flags := default
  bus := []
  talking := some "Ann"
  depth := 0
  notices := []
  memory := 0

/-- The page is shown by itself and as a fragment, and nothing was called. -/
theorem resolve_manualPage :
    (counting.resolve (.none Nat) manualPage.written false).on countingStart =
        (.ok ⟨manualPage.shown "output_code", .empty, none, false⟩,
          { countingStart with talking := none }) ∧
      (counting.resolve (.none Nat) "|$page|" false).on countingStart =
        (.ok ⟨manualPage.shown "output_code", .empty, none, false⟩,
          { countingStart with talking := none }) := by
  have hname : ∀ c ∈ ("page" : Text), c ≠ '|' ∧ c ≠ '{' ∧ c ≠ '[' := by simp
  have hsettings : counting.HasStandardSettings := ⟨rfl, fun _ => rfl⟩
  have hrendered := counting.on_rendered_reference (.none Nat) countingStart hname
  obtain ⟨hpage, hfragment, -⟩ := resolve_codeText counting (.none Nat) hsettings manualPage false
  refine ⟨hpage countingStart countingStart rfl, ?_⟩
  exact hfragment "page" countingStart countingStart countingStart (by decide) (by decide) rfl
    hrendered (by decide) rfl

/-- A callback that stops the call leaves nothing to be shown. -/
theorem resolve_manualPage_stopped :
    ((counting.resolve (.none Nat) manualPage.written false).on
      { countingStart with bus := [(resolveBefore, ["hush"])] }).1 = .ok .empty ∧
    Resolution.empty.output ≠ manualPage.shown "output_code" :=
  ⟨rfl, (List.cons_ne_nil _ _).symm⟩

end Engine

end StoryScript
