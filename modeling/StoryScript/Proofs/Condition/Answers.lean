import StoryScript.Condition.Clause
import StoryScript.Condition.Comparison
import StoryScript.Proofs.Number.Integers
import StoryScript.Proofs.Text.Cuts

/-!
# Comparisons that have an answer

A comparison with an order or an equality that makes sense has an answer for every value that counts
as a number (`Comparison.holds_of_isNumeric`); what it compares with always counts as one. The
conditions of a clause are read as they stand, for they are trimmed already (`Clause.trim_of_mem`).
-/

namespace StoryScript

namespace Clause

theorem trim_of_mem_splitFrom {depth : Int} {read t part : Text}
    (h : part ∈ splitFrom depth read t) : part.trim = part := by
  fun_induction splitFrom depth read t with
  | case1 depth read last hlast => simp at h
  | case2 depth read last hlast =>
    obtain rfl := List.mem_singleton.1 h
    exact Text.trim_trim _
  | case3 depth read c cs depth' hc ih =>
    rcases List.mem_cons.1 h with rfl | h
    · exact Text.trim_trim _
    · exact ih h
  | case4 depth read c cs depth' hc ih => exact ih h

theorem trim_of_mem {t part : Text} (h : part ∈ split t) : part.trim = part :=
  trim_of_mem_splitFrom h

end Clause

/-- Whether a value counts as a number, as all but integers that are too large do. -/
def Value.isNumeric (v : Value) : Bool := v.toNumber?.isSome

namespace Value

theorem isNumeric_ofLiteral (t : Text) : (ofLiteral t).isNumeric := by
  unfold ofLiteral
  split
  · rfl
  · split
    · rfl
    · split
      · decide
      · split
        · rfl
        · split
          · split
            · next hn => exact Binary64.isSome_ofInt?_of_toInt? hn
            · rfl
          · rfl

theorem isSome_looselyEqual? {v w : Value} (hv : v.isNumeric) (hw : w.isNumeric) :
    (looselyEqual? v w).isSome := by
  obtain ⟨x, hx⟩ := Option.isSome_iff_exists.1 hv
  obtain ⟨y, hy⟩ := Option.isSome_iff_exists.1 hw
  unfold looselyEqual?
  split
  · rfl
  · rfl
  · rfl
  · rfl
  · split
    · simp [hx, hy]
    · rfl

end Value

namespace Comparison

/-- Whether the comparison orders by a text, which has no place in any order. -/
def ordersText (c : Comparison) : Bool := c.operator.isOrdering && (Value.ofLiteral c.value).isText

theorem holds_of_isNumeric {c : Comparison} (hc : c.ordersText = false) {actual : Value}
    (h : actual.isNumeric) : ∃ b, c.holds actual = .ok (some b) := by
  have hexpected := Value.isNumeric_ofLiteral c.value
  obtain ⟨b, hb⟩ := Option.isSome_iff_exists.1 (Value.isSome_looselyEqual? h hexpected)
  obtain ⟨x, hx⟩ := Option.isSome_iff_exists.1 h
  obtain ⟨y, hy⟩ := Option.isSome_iff_exists.1 hexpected
  unfold holds
  cases hoperator : c.operator with
  | equal => exact ⟨b, by simp [hb]⟩
  | notEqual => exact ⟨!b, by simp [hb]⟩
  | atLeast | atMost | greater | less =>
    have htext : (Value.ofLiteral c.value).isText = false := by
      simpa [ordersText, hoperator, Operator.isOrdering] using hc
    simp [htext, hx, hy]

end Comparison

end StoryScript
