import Mathlib
import Inflow.Proofs.Scalar.Signs
/-!
# Reciprocals of doubles

A positive double has a finite reciprocal unless it is too small: at `2⁻¹⁰²⁴` and
below, deep among the subnormal numbers, the reciprocal is infinite. Scaling by it
tells zero and all else apart no longer in the right way: zero times infinity is no
number, and a number times infinity lies below nothing.
-/

open Float.Model Float.Model.UnpackedFloat

namespace Inflow.Double

variable {t x : Float} {m : ℕ} {e : ℤ} {hm : 0 < m}

/-! ## Where reciprocals are finite -/

/-- The largest double with an infinite reciprocal, `2⁻¹⁰²⁴`. -/
def reciprocalLimit : Float := Float.ofBits 0x0004000000000000

theorem unpack_reciprocalLimit : reciprocalLimit.toModel.unpack = .finite .positive (2 ^ 50) (-1074) (by decide) := rfl

theorem toRat_reciprocalLimit : toRat reciprocalLimit = (2 ^ 50 : ℕ) * toRat least := by
  rw [toRat_least, toRat, unpack_reciprocalLimit]
  rfl

/-- The largest double of all. -/
def largest : Float := Float.ofBits 0x7FEFFFFFFFFFFFFF

theorem isFinite_largest : largest.isFinite = true := rfl

theorem toRat_largest : toRat largest = (2 ^ 53 - 1 : ℕ) * 2 ^ (971 : ℤ) := rfl

/-- A quotient that stays below the largest double is not rounded to infinity. -/
theorem isFinite_inverse_of_lt (ht : t.isFinite = true) (hlarge : reciprocalLimit < t) : (1 / t).isFinite = true := by
  have hlt := (lt_iff_toRat rfl ht).1 hlarge
  obtain ⟨n, hn⟩ := exists_toRat_eq ht
  rw [hn, toRat_reciprocalLimit, ← Int.cast_natCast, mul_lt_mul_iff_left₀ toRat_least_pos, Int.cast_lt] at hlt
  have hn1 : ((2 ^ 50 + 1 : ℕ) : ℚ) ≤ n := by exact_mod_cast hlt
  have hpos : 0 < toRat t := by
    rw [hn]
    exact mul_pos (lt_of_lt_of_le (by positivity) hn1) toRat_least_pos
  have hround := rounded_float_div isFinite_one ht hpos.ne'
  have hbound : toRat 1 / toRat t ≤ toRat largest := by
    rw [toRat_one, div_le_iff₀ hpos, toRat_largest, hn, toRat_least]
    calc (1 : ℚ) ≤ ((2 ^ 53 - 1 : ℕ) : ℚ) * (2 ^ 50 + 1 : ℕ) * 2 ^ (-103 : ℤ) := by norm_num
      _ ≤ (2 ^ 53 - 1 : ℕ) * n * 2 ^ (-103 : ℤ) :=
          mul_le_mul_of_nonneg_right (mul_le_mul_of_nonneg_left hn1 (by norm_num)) (by positivity)
      _ = (2 ^ 53 - 1 : ℕ) * 2 ^ (971 : ℤ) * (n * 2 ^ (-1074 : ℤ)) := by
          rw [show (-103 : ℤ) = 971 + -1074 from rfl, zpow_add₀ two_ne_zero]
          ring
  exact isFinite_of_between isFinite_zero isFinite_largest
    (le_of_rounded hround isFinite_zero (div_nonneg (by simp) hpos.le)) (le_of_rounded' hround isFinite_largest hbound)

/-- A quotient of leading digit `2¹⁰²⁴` or more is rounded to infinity. -/
theorem not_isFinite_inverse_of_le (hu : t.toModel.unpack = .finite .positive m e hm) (hsmall : t ≤ reciprocalLimit) :
    (1 / t).isFinite = false := by
  obtain ⟨hfits, -⟩ := unpack_fits hu
  have hle : toLex (e, (m : ℤ)) ≤ toLex (-1074, ((2 ^ 50 : ℕ) : ℤ)) := by
    rw [float_le_iff, hu, unpack_reciprocalLimit] at hsmall
    simpa [place?, Prod.Lex.toLex_le_toLex] using hsmall
  rw [Prod.Lex.toLex_le_toLex] at hle
  obtain ⟨rfl, hm50⟩ : e = -1074 ∧ m ≤ 2 ^ 50 := by
    have := hfits.low
    omega
  rcases hm50.eq_or_lt with rfl | hlt
  · change (1 / t).toModel.unpack.isFinite = false
    have hdiv : divCore .binary64 (2 ^ 52) (-52) (2 ^ 50) (-1074) = (2 ^ 53, 971, .exact) := rfl
    rw [unpack_inverse_of_divCore hu hdiv]
    rfl
  · rw [Bool.eq_false_iff]
    intro hfin
    obtain ⟨m', e', hm', hu', hfits', hlow⟩ := unpack_inverse hu hfin
    have hlog : m.log2 < 50 := (Nat.log2_lt hm.ne').2 hlt
    have hhigh := (unpack_fits hu').2
    have := hfits'.log_le
    omega

/-- The reciprocal of infinity is zero. -/
theorem inverse_of_infinite (hu : t.toModel.unpack = .infinity .positive) : 1 / t = 0 := by
  have hdiv :
      1 / t = Float.ofModel (.pack (UnpackedFloat.div .binary64 (1 : Float).toModel.unpack t.toModel.unpack)) := rfl
  rw [hdiv, hu]
  rfl

/-- Small doubles have no finite reciprocal, and all others have one. -/
theorem isFinite_inverse_iff (ht : 0 < t) : (1 / t).isFinite = true ↔ ¬ t ≤ reciprocalLimit := by
  by_cases hfin : t.isFinite = true
  · obtain ⟨m, e, hm, hu, -⟩ := unpack_of_pos ht hfin
    refine ⟨fun hinv hle => ?_, fun hnot => ?_⟩
    · rw [not_isFinite_inverse_of_le hu hle] at hinv
      cases hinv
    · have hle := (OrderedScalar.total (le_self_of_isFinite hfin) (le_self_of_isFinite rfl)).resolve_left hnot
      exact isFinite_inverse_of_lt hfin ((OrderedScalar.lt_iff _ _).2 ⟨hle, hnot⟩)
  · have hu := unpack_of_nonneg_of_infinite (OrderedScalar.le_of_lt ht) hfin
    rw [inverse_of_infinite hu, float_le_iff, hu, unpack_reciprocalLimit]
    refine iff_of_true (by decide) ?_
    simp [place?, Prod.Lex.toLex_le_toLex]

/-! ## Scaling -/

/-- A finite reciprocal leaves zero at zero, and takes the double itself to a
positive one, or to none where the double is infinite. -/
theorem scales_of_isFinite_inverse (ht : 0 < t) (hinv : (1 / t).isFinite = true) :
    (0 < t * (1 / t) ∨ ¬ t * (1 / t) ≤ t * (1 / t)) ∧ Scalar.isZero (0 * (1 / t)) = true := by
  by_cases hfin : t.isFinite = true
  · exact ⟨.inl (pos_mul_inverse ht hfin hinv), isZero_zero_mul_inverse ht hfin hinv⟩
  · have hu := unpack_of_nonneg_of_infinite (OrderedScalar.le_of_lt ht) hfin
    have hmul :
        t * 0 = Float.ofModel (.pack (UnpackedFloat.mul .binary64 t.toModel.unpack (0 : Float).toModel.unpack)) := rfl
    rw [inverse_of_infinite hu, hmul, hu]
    exact ⟨.inr (by decide), by decide⟩

theorem unpack_inverse_of_not_isFinite (ht : 0 < t) (hinv : ¬ (1 / t).isFinite = true) :
    (1 / t).toModel.unpack = .infinity .positive := by
  have hfin : t.isFinite = true := by
    by_contra hinfinite
    rw [inverse_of_infinite (unpack_of_nonneg_of_infinite (OrderedScalar.le_of_lt ht) hinfinite)] at hinv
    exact hinv (by decide)
  obtain ⟨m, e, hm, hu, -⟩ := unpack_of_pos ht hfin
  obtain ⟨m', e', hm', hquot, -⟩ := unpack_inverse_eq hu
  change ¬ (1 / t).toModel.unpack.isFinite = true at hinv
  by_cases he' : e' ≤ 971
  · rw [hquot, if_pos he'] at hinv
    exact absurd rfl hinv
  · rw [hquot, if_neg he']

/-- Infinity, and what is no number, are below nothing. -/
theorem not_lt_of_unpack (hu : t.toModel.unpack = .infinity .positive ∨ t.toModel.unpack = .notANumber) : ¬ t < x := by
  change ¬ Float.lt t x = true
  rw [Float.lt, decide_eq_true_iff]
  change ¬ UnpackedFloat.lt t.toModel.unpack x.toModel.unpack = true
  rcases hu with hu | hu <;> rw [hu]
  all_goals
    rcases x.toModel.unpack with (_ | _) | _ | _ | ⟨_ | _, m, e, _⟩ <;>
      simp [UnpackedFloat.lt, UnpackedFloat.compare, compare_sign]

/-- An infinite reciprocal takes what is not negative to infinity, or to no number. -/
theorem not_mul_inverse_lt (ht : 0 < t) (hinv : ¬ (1 / t).isFinite = true) {v : Float} (hv : 0 ≤ v) :
    ¬ v * (1 / t) < x := by
  have hmul : v * (1 / t) =
      Float.ofModel (.pack (UnpackedFloat.mul .binary64 v.toModel.unpack (1 / t).toModel.unpack)) := rfl
  rw [unpack_inverse_of_not_isFinite ht hinv] at hmul
  obtain ⟨a, ha, b, hb, hab⟩ := (float_le_iff 0 v).1 hv
  cases ha
  rw [hmul]
  apply not_lt_of_unpack
  cases hu : v.toModel.unpack with
  | notANumber => exact .inr rfl
  | zero sign => exact .inr (by cases sign <;> rfl)
  | infinity sign =>
    rw [hu] at hb
    cases sign with
    | positive => exact .inl rfl
    | negative =>
      cases hb
      simp [Prod.Lex.toLex_le_toLex] at hab
  | finite sign m e hm =>
    rw [hu] at hb
    cases sign with
    | positive =>
      rw [show UnpackedFloat.mul .binary64 (.finite .positive m e hm) (.infinity .positive) = .infinity .positive
        from rfl]
      exact .inl rfl
    | negative =>
      cases hb
      simp [Prod.Lex.toLex_le_toLex] at hab

end Inflow.Double
