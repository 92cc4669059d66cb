import Mathlib
import Inflow.Proofs.Scalar.Order
/-!
# Reading the arithmetic as exact

Statements about amounts hold of doubles up to rounding. Read as exact, the
scalars are a linearly ordered field, whose sums, products and quotients are those
that the program computes with. Roots, logarithms and cosines stay open.
-/

namespace Inflow

/-- Scalars that are calculated with exactly. -/
class ExactScalar (α : Type) extends Scalar α, Field α, LinearOrder α, IsStrictOrderedRing α where
  ofNat_eq : ∀ n : Nat, Scalar.ofNat n = (n : α)
  tiny_pos : (0 : α) < Scalar.tiny

namespace ExactScalar

variable {α : Type} [ExactScalar α]

instance : OrderedScalar α where
  lt_iff _ _ := lt_iff_le_not_ge
  ordered_of_le _ := ⟨le_refl _, le_refl _⟩
  trans := le_trans
  total _ _ := le_total _ _
  zero_le_zero := le_refl _
  zero_lt_tiny := tiny_pos

theorem isZero_iff_eq {x : α} : Scalar.isZero x = true ↔ x = 0 := by
  rw [OrderedScalar.isZero_iff]
  exact le_antisymm_iff.symm

theorem larger_eq_max (x y : α) : Scalar.larger x y = max x y := by
  rw [Scalar.larger, if_pos (le_refl x)]
  split
  · exact (max_eq_right_of_lt ‹_›).symm
  · exact (max_eq_left (not_lt.1 ‹_›)).symm

end ExactScalar
end Inflow
