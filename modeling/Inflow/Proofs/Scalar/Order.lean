import Inflow.Scalar
/-!
# Comparison as an order

Sums and draws rely on comparison only, and on little of it: among the scalars
that are at most themselves it is a linear order. `OrderedScalar` says just
this. A scalar that compares with nothing stays outside the order, and `larger`
and `smaller` never let it in.
-/

namespace Inflow

/-- Comparison is a linear order on the scalars that are at most themselves,
zero is one of them, and `tiny` lies above it. -/
class OrderedScalar (α : Type) [Scalar α] : Prop where
  lt_iff : ∀ x y : α, x < y ↔ x ≤ y ∧ ¬ y ≤ x
  ordered_of_le : ∀ {x y : α}, x ≤ y → x ≤ x ∧ y ≤ y
  trans : ∀ {x y z : α}, x ≤ y → y ≤ z → x ≤ z
  total : ∀ {x y : α}, x ≤ x → y ≤ y → x ≤ y ∨ y ≤ x
  zero_le_zero : (0 : α) ≤ 0
  zero_lt_tiny : (0 : α) < Scalar.tiny

namespace OrderedScalar

variable {α : Type} [Scalar α] {x y z : α}

theorem isZero_iff : Scalar.isZero x = true ↔ x ≤ 0 ∧ 0 ≤ x := by simp [Scalar.isZero]

theorem lt_smaller (hx : z < x) (hy : z < y) : z < Scalar.smaller x y := by
  unfold Scalar.smaller
  split
  · exact hy
  · split
    · exact hx
    · exact hy

variable [OrderedScalar α]

theorem le_of_lt (h : x < y) : x ≤ y := ((lt_iff x y).1 h).1

theorem not_lt_self : ¬ x < x := fun h => ((lt_iff x x).1 h).2 (le_of_lt h)

theorem not_lt_of_le (h : x ≤ y) : ¬ y < x := fun hlt => ((lt_iff y x).1 hlt).2 h

theorem lt_of_lt_of_le (h : x < y) (h' : y ≤ z) : x < z := by
  refine (lt_iff x z).2 ⟨trans (le_of_lt h) h', fun hz => ?_⟩
  exact ((lt_iff x y).1 h).2 (trans h' hz)

theorem lt_of_le_of_lt (h : x ≤ y) (h' : y < z) : x < z := by
  refine (lt_iff x z).2 ⟨trans h (le_of_lt h'), fun hz => ?_⟩
  exact ((lt_iff y z).1 h').2 (trans hz h)

theorem le_of_not_lt (hx : x ≤ x) (hy : y ≤ y) (h : ¬ x < y) : y ≤ x := by
  rcases total hx hy with hle | hle
  · exact Classical.byContradiction fun hyx => h ((lt_iff x y).2 ⟨hle, hyx⟩)
  · exact hle

/-! ## Zero -/

@[simp] theorem isZero_zero : Scalar.isZero (0 : α) = true := isZero_iff.2 ⟨zero_le_zero, zero_le_zero⟩

theorem not_isZero_of_pos (h : 0 < x) : Scalar.isZero x = false := by
  rw [Bool.eq_false_iff]
  exact fun hz => ((lt_iff 0 x).1 h).2 (isZero_iff.1 hz).1

/-- What is at least zero is positive unless it is zero. -/
theorem pos_iff_not_isZero (h : 0 ≤ x) : 0 < x ↔ Scalar.isZero x = false := by
  refine ⟨not_isZero_of_pos, fun hz => (lt_iff 0 x).2 ⟨h, fun hx => ?_⟩⟩
  rw [isZero_iff.2 ⟨hx, h⟩] at hz
  cases hz

/-! ## The larger and the smaller of two -/

theorem le_larger (hx : x ≤ x) : x ≤ Scalar.larger x y := by
  unfold Scalar.larger
  split
  · exact le_of_lt ‹_›
  · exact hx

theorem le_larger_right (hy : y ≤ y) : y ≤ Scalar.larger x y := by
  unfold Scalar.larger
  split
  · exact hy
  · split
    · exact le_of_not_lt ‹_› hy ‹_›
    · exact hy

theorem smaller_le (hy : y ≤ y) : Scalar.smaller x y ≤ y := by
  unfold Scalar.smaller
  split
  · exact hy
  · split
    · exact le_of_not_lt hy ‹_› ‹_›
    · exact hy

theorem smaller_eq_left (h : x ≤ y) : Scalar.smaller x y = x := by
  rw [Scalar.smaller, if_neg (not_lt_of_le h), if_pos (ordered_of_le h).1]

/-- A value that compares with nothing gives way. -/
theorem smaller_eq_right (h : ¬ x ≤ x) : Scalar.smaller x y = y := by
  rw [Scalar.smaller, if_neg fun hlt => h (ordered_of_le (le_of_lt hlt)).2, if_neg h]

theorem smaller_eq_left_of_unordered (hx : x ≤ x) (hy : ¬ y ≤ y) : Scalar.smaller x y = x := by
  rw [Scalar.smaller, if_neg fun hlt => hy (ordered_of_le (le_of_lt hlt)).1, if_pos hx]

theorem smaller_le_smaller (h : x ≤ y) (hz : z ≤ z) : Scalar.smaller x z ≤ Scalar.smaller y z := by
  by_cases hyz : y ≤ z
  · rwa [smaller_eq_left hyz, smaller_eq_left (trans h hyz)]
  · rw [Scalar.smaller.eq_1 y z, if_pos]
    · exact smaller_le hz
    · exact (lt_iff z y).2 ⟨(total hz (ordered_of_le h).2).resolve_right hyz, hyz⟩

end OrderedScalar
end Inflow
