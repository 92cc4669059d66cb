import Mathlib
import Inflow.Proofs.Scalar.Order
/-!
# Exact scalars

Rational numbers as scalars, exact in sums, products and quotients. Roots,
logarithms and cosines are in general not rational. The argument itself stands
for them, which is right for the roots of zero and one.
-/

namespace Inflow

instance : Scalar ℚ where
  decLt := inferInstance
  decLe := inferInstance
  ofNat n := n
  toIndex x := ⌊x⌋₊
  precedes x y := decide (x < y)
  tiny := 1 / Nat.pow 2 1022
  pi := 22 / 7
  sqrt x := x
  cbrt x := x
  log x := x
  cos x := x

instance : OrderedScalar ℚ where
  lt_iff _ _ := lt_iff_le_not_ge
  ordered_of_le _ := ⟨le_refl _, le_refl _⟩
  trans := le_trans
  total _ _ := le_total _ _
  zero_le_zero := le_refl _
  zero_lt_tiny := by
    have hpos : ∀ n, 0 < Nat.pow 2 n := Nat.two_pow_pos
    exact one_div_pos.2 (Nat.cast_pos.2 (hpos 1022))

end Inflow
