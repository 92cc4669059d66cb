import Inflow.Proofs.Scalar.Signs
import Inflow.Proofs.Scalar.Rational
/-!
# A factor of one

Weights times one are the weights themselves. That holds of exact scalars, and also of
doubles, down to the sign of a zero: the exact product is a double, so it is not rounded,
and what is no number stays what it is.
-/

open Float.Model Float.Model.UnpackedFloat

namespace Inflow

/-- Scalars that a factor of one does not change. -/
class UnitalScalar (α : Type) [Scalar α] : Prop where
  times_one : ∀ x : α, x * 1 = x

instance : UnitalScalar ℚ where
  times_one := mul_one

namespace Double

variable {x y : Float}

/-- A double is known by its unpacked form. -/
theorem eq_of_unpack (h : x.toModel.unpack = y.toModel.unpack) : x = y := by
  rcases x with ⟨⟨b, hb⟩⟩
  rcases y with ⟨⟨b', hb'⟩⟩
  have hbits := (unpack_inj_of_valid hb hb').1 h
  obtain rfl : b = b' := UInt64.toBitVec_inj.1 hbits
  rfl

/-- A number other than zero is known by its place among all numbers. -/
theorem eq_of_place {u v : UnpackedFloat} {s : Sign} {m : ℕ} {e : ℤ} {hm : 0 < m} (hu : u = .finite s m e hm)
    (h : place? u = place? v) : u = v := by
  subst hu
  cases s <;> rcases v with (_ | _) | _ | _ | ⟨_ | _, m', e', _⟩ <;> simp_all [place?]

theorem eq_of_le_of_le {s : Sign} {m : ℕ} {e : ℤ} {hm : 0 < m} (hx : x.toModel.unpack = .finite s m e hm) (h : x ≤ y)
    (h' : y ≤ x) : x = y := by
  obtain ⟨a, ha, b, hb, hab⟩ := (float_le_iff x y).1 h
  obtain ⟨b', hb', a', ha', hba⟩ := (float_le_iff y x).1 h'
  obtain rfl := Option.mem_unique ha ha'
  obtain rfl := Option.mem_unique hb hb'
  obtain rfl := le_antisymm hab hba
  exact eq_of_unpack (eq_of_place hx (ha.trans hb.symm))

/-- The product is exact, so it is not rounded. -/
theorem mul_one_eq (x : Float) : x * 1 = x := by
  have hmul : (x * 1).toModel.unpack = UnpackedFloat.unpack .binary64
      (UnpackedFloat.pack .binary64 (UnpackedFloat.mul .binary64 x.toModel.unpack (1 : Float).toModel.unpack)) := rfl
  cases hu : x.toModel.unpack with
  | notANumber => exact eq_of_unpack (by rw [hmul, hu]; rfl)
  | infinity s => exact eq_of_unpack (by rw [hmul, hu]; cases s <;> rfl)
  | zero s => exact eq_of_unpack (by rw [hmul, hu]; cases s <;> rfl)
  | finite s m e hm =>
    have hfinite : x.isFinite = true := by
      change x.toModel.unpack.isFinite = true
      rw [hu]
      rfl
    -- The exact product is `x`, and rounding leaves a double on both sides of itself.
    have hround := rounded_float_mul hfinite isFinite_one
    rw [toRat_one, mul_one] at hround
    exact (eq_of_le_of_le hu (le_of_rounded hround hfinite le_rfl) (le_of_rounded' hround hfinite le_rfl)).symm

end Double

instance : UnitalScalar Float where
  times_one := Double.mul_one_eq

end Inflow
