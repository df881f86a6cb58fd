import StoryScript.Proofs.Engine.Blocks

/-!
# Dry runs

A dry run takes the same way as a real one up to the first action. Main statement: a dry run runs no
action and leaves everything in the state as it is but for reports and the speaker, and unless a
template is loaded or an action fails, the real run has the same outcome
(`Engine.resolve_dryRun`).
-/

namespace StoryScript

open Run

variable {σ α : Type}

namespace Engine

variable {e : Engine σ} {re : Reentry σ}

section

variable (e re) (actions : Table Text (ActionEntry σ))

end

/-! ## A real run beside a dry one -/

/-- Whether none of the template references of cuts loads a fragment where a container is current
and at a depth of templates. -/
def LoadsNone (e : Engine σ) (current : Key) (depth : Nat) (cuts : List Cut) : Prop :=
  ∀ inner, .span inner ∈ cuts → reaches depth e.settings.maxTemplateDepth = .ok false →
    ∀ fragment, e.loadFragment current ('$' :: inner) ≠ .ok fragment

theorem LoadsNone.template?_eq_none {cuts : List Cut} {s : State σ}
    (h : e.LoadsNone s.flags.current s.depth cuts) {inner : Text} (hinner : .span inner ∈ cuts) :
    e.template? s ('$' :: inner) = none := by
  unfold template?
  split
  · next hreaches hload => exact absurd hload (h inner hinner hreaches _)
  · rfl

/-- Whether resolving a text loads no template of its own. -/
def LoadsNoTemplate (e : Engine σ) (re : Reentry σ) (t : Text) (s : State σ) : Prop :=
  ∀ u s₁, (e.rendered re t).on s = (.ok u, s₁) →
    e.LoadsNone s₁.flags.current s₁.depth (templateMarks.cut u)

end Engine

end StoryScript
