import Inflow.Proofs.Scalar.Order
import Mathlib
/-!
# Doubles

Comparison of doubles is an order in the sense of `OrderedScalar`. Two facts
about their arithmetic are all that sharing out particles needs: a first
positive summand gives a positive sum, and a positive double times its
reciprocal is positive unless one of the two is infinite.

Both are read off the unpacked form of a double: sign, mantissa and exponent.
-/

open Float.Model Float.Model.UnpackedFloat

namespace Inflow.Double

/-! ## Order -/

/-- Where an unpacked number stands among all others: nowhere if it is no number. -/
def place? : UnpackedFloat → Option (ℤ ×ₗ ℤ ×ₗ ℤ)
  | .notANumber => none
  | .zero _ => some (toLex (0, toLex (0, 0)))
  | .infinity .negative => some (toLex (-2, toLex (0, 0)))
  | .infinity .positive => some (toLex (2, toLex (0, 0)))
  | .finite .negative m e _ => some (toLex (-1, toLex (-e, -m)))
  | .finite .positive m e _ => some (toLex (1, toLex (e, m)))

theorem isLE_then (e e' : ℤ) (m m' : ℕ) :
    ((compare e e').then (compare m m')).isLE = true ↔ e < e' ∨ e = e' ∧ m ≤ m' := by
  rcases lt_trichotomy e e' with h | h | h
  · simp [compare_lt_iff_lt.2 h, h]
  · simp [h, Nat.isLE_compare]
  · simp [compare_gt_iff_gt.2 h, not_lt_of_gt h, ne_of_gt h]

theorem isGE_then (e e' : ℤ) (m m' : ℕ) :
    ((compare e e').then (compare m m')).isGE = true ↔ e' < e ∨ e = e' ∧ m' ≤ m := by
  rcases lt_trichotomy e e' with h | h | h
  · simp [compare_lt_iff_lt.2 h, not_lt_of_gt h, ne_of_lt h]
  · simp [h, Nat.isGE_compare]
  · simp [compare_gt_iff_gt.2 h, h]

theorem swap_then (e e' : ℤ) (m m' : ℕ) :
    ((compare e e').then (compare m m')).swap = (compare e' e).then (compare m' m) := by
  rw [Ordering.swap_then, ← Std.OrientedCmp.eq_swap, ← Std.OrientedCmp.eq_swap]

theorem compare_sign (s s' : Sign) : compare s s' = match s, s' with
    | .negative, .positive => .lt
    | .positive, .negative => .gt
    | _, _ => .eq := by
  cases s <;> cases s' <;> rfl

theorem compare_comm (u v : UnpackedFloat) : v.compare u = (u.compare v).map Ordering.swap := by
  rcases u with (_ | _) | _ | _ | ⟨_ | _, m, e, _⟩ <;> rcases v with (_ | _) | _ | _ | ⟨_ | _, m', e', _⟩ <;>
    simp [UnpackedFloat.compare, compare_sign, swap_then]

theorem lt_iff (u v : UnpackedFloat) : u.lt v = true ↔ u.le v = true ∧ ¬ v.le u = true := by
  rw [UnpackedFloat.lt, UnpackedFloat.le, UnpackedFloat.le, compare_comm u v]
  cases h : u.compare v with
  | none => simp
  | some o => cases o <;> simp

/-- Unpacked numbers are compared by their places. -/
theorem le_iff (u v : UnpackedFloat) : u.le v = true ↔ ∃ a ∈ place? u, ∃ b ∈ place? v, a ≤ b := by
  rcases u with (_ | _) | _ | _ | ⟨_ | _, m, e, _⟩ <;> rcases v with (_ | _) | _ | _ | ⟨_ | _, m', e', _⟩ <;>
    simp [UnpackedFloat.le, UnpackedFloat.compare, place?, Prod.Lex.toLex_le_toLex, isLE_then, isGE_then,
      compare_sign]

theorem float_le_iff (x y : Float) :
    x ≤ y ↔ ∃ a ∈ place? x.toModel.unpack, ∃ b ∈ place? y.toModel.unpack, a ≤ b := by
  rw [← le_iff]
  change Float.le x y = true ↔ _
  rw [Float.le, decide_eq_true_iff]
  rfl

theorem float_lt_iff (x y : Float) : x < y ↔ x ≤ y ∧ ¬ y ≤ x := by
  rw [float_le_iff, float_le_iff, ← le_iff, ← le_iff, ← lt_iff]
  change Float.lt x y = true ↔ _
  rw [Float.lt, decide_eq_true_iff]
  rfl

instance : OrderedScalar Float where
  lt_iff := float_lt_iff
  ordered_of_le h := by
    obtain ⟨a, ha, b, hb, -⟩ := (float_le_iff _ _).1 h
    exact ⟨(float_le_iff _ _).2 ⟨a, ha, a, ha, le_refl a⟩, (float_le_iff _ _).2 ⟨b, hb, b, hb, le_refl b⟩⟩
  trans hxy hyz := by
    obtain ⟨a, ha, b, hb, hab⟩ := (float_le_iff _ _).1 hxy
    obtain ⟨b', hb', c, hc, hbc⟩ := (float_le_iff _ _).1 hyz
    cases Option.mem_unique hb hb'
    exact (float_le_iff _ _).2 ⟨a, ha, c, hc, hab.trans hbc⟩
  total hx hy := by
    obtain ⟨a, ha, -⟩ := (float_le_iff _ _).1 hx
    obtain ⟨b, hb, -⟩ := (float_le_iff _ _).1 hy
    rcases le_total a b with hab | hba
    · exact .inl ((float_le_iff _ _).2 ⟨a, ha, b, hb, hab⟩)
    · exact .inr ((float_le_iff _ _).2 ⟨b, hb, a, ha, hba⟩)
  zero_le_zero := by decide
  zero_lt_tiny := by decide +kernel

/-! ## Packing -/

/-- A mantissa and an exponent that a double can hold if the exponent is not too
large: at most 53 binary digits, and fewer only at the least exponent. -/
structure Fits (m : ℕ) (e : ℤ) : Prop where
  pos : 0 < m
  log_le : m.log2 ≤ 52
  low : -1074 ≤ e
  full : m.log2 = 52 ∨ e = -1074

theorem bias : (Format.binary64.exponentBias : ℤ) = 1023 := rfl

theorem unpackSign_packComponents {spec : Format} (s : Sign) (e : BitVec spec.exponentBits)
    (m : BitVec spec.mantissaBitsWithoutImplicit) :
    Sign.ofBitVec (unpackSign (packComponents spec s e m)) = s := by
  have h : unpackSign (packComponents spec s e m) = s.toBitVec := by
    ext i hi
    obtain rfl : i = 0 := by omega
    simp [unpackSign, packComponents, BitVec.getLsbD_append, BitVec.getElem_append, BitVec.getLsbD_eq_getElem]
  rw [h]
  cases s <;> rfl

theorem toNat_one_append (v : BitVec 52) : (1#1 ++ v).toNat = 2 ^ 52 + v.toNat := by
  rw [BitVec.toNat_append, ← Nat.shiftLeft_add_eq_or_of_lt v.isLt]
  rfl

theorem unpack_fits {b : BitVec Format.binary64.numBits} {s : Sign} {m : ℕ} {e : ℤ} {hm : 0 < m}
    (h : UnpackedFloat.unpack .binary64 b = .finite s m e hm) : Fits m e ∧ e ≤ 971 := by
  have hmant : (unpackMantissa b).toNat < 2 ^ 52 := (unpackMantissa b).isLt
  have hexp : (unpackExponent b).toNat < 2 ^ 11 := (unpackExponent b).isLt
  have happ := toNat_one_append (unpackMantissa b)
  simp only [UnpackedFloat.unpack] at h
  split at h
  · split at h <;> cases h
  · rename_i hinf
    split at h
    · -- The exponent field is zero, so the mantissa has no leading one.
      rename_i hsub
      split at h
      · cases h
      · cases h
        rw [hsub]
        simp only [BitVec.toNat_ofNat, bias]
        have hlog : (unpackMantissa b).toNat.log2 < 52 := (Nat.log2_lt hm.ne').2 hmant
        exact ⟨⟨hm, hlog.le, by simp, .inr (by simp)⟩, by simp⟩
    · rename_i hsub
      cases h
      have h1 : (unpackExponent b).toNat ≠ 2 ^ 11 - 1 := fun hc => hinf (BitVec.toNat_inj.1 (by simpa using hc))
      have h0 : (unpackExponent b).toNat ≠ 0 := fun hc => hsub (BitVec.toNat_inj.1 (by simpa using hc))
      have hlog : (1#1 ++ unpackMantissa b).toNat.log2 = 52 := by
        rw [Nat.log2_eq_iff hm.ne']; omega
      simp only [bias]
      exact ⟨⟨hm, hlog.le, by omega, .inl hlog⟩, by omega⟩

/-- Packing keeps a number that fits, or makes it infinite. -/
theorem unpack_pack_finite {s : Sign} {m : ℕ} {e : ℤ} (hm : 0 < m) (h : Fits m e) :
    UnpackedFloat.unpack .binary64 (UnpackedFloat.pack .binary64 (.finite s m e hm)) =
      if e ≤ 971 then .finite s m e hm else .infinity s := by
  obtain ⟨-, hlog, hlow, hfull⟩ := h
  have hbias : (e + (Format.binary64.exponentBias : ℤ) + (52 : ℕ)).toNat = (e + 1075).toNat := by
    rw [bias]; omega
  have hbits : Format.binary64.mantissaBits = 53 := rfl
  simp only [UnpackedFloat.pack, hbias, hbits]
  by_cases he : e ≤ 971
  · rw [if_neg (by omega), if_pos he]
    by_cases hlog52 : m.log2 = 52
    · -- A normal number, whose first digit is left out of the pattern.
      have hmant : (1#1 ++ BitVec.ofNat 52 m).toNat = m := by
        have := (Nat.log2_eq_iff hm.ne').1 hlog52
        rw [toNat_one_append, BitVec.toNat_ofNat]
        omega
      have hexp : (BitVec.ofNat 11 (e + 1075).toNat).toNat = (e + 1075).toNat := by
        rw [BitVec.toNat_ofNat]; omega
      have hinf : BitVec.ofNat 11 (e + 1075).toNat ≠ -1#11 := fun hc => by
        have := congrArg BitVec.toNat hc; rw [hexp] at this; simp at this; omega
      have hsub : BitVec.ofNat 11 (e + 1075).toNat ≠ 0#11 := fun hc => by
        have := congrArg BitVec.toNat hc; rw [hexp] at this; simp at this; omega
      rw [if_pos (by omega)]
      simp only [UnpackedFloat.unpack, unpackExponent_packComponents, unpackMantissa_packComponents,
        unpackSign_packComponents]
      rw [if_neg hinf, if_neg hsub]
      simp only [hmant, hexp, bias]
      congr 1
      omega
    · -- A subnormal number, all of whose digits are in the pattern.
      obtain rfl := hfull.resolve_left hlog52
      have hlt : m < 2 ^ 52 := (Nat.log2_lt hm.ne').1 (by omega)
      have hmant : (BitVec.ofNat 52 m).toNat = m := by rw [BitVec.toNat_ofNat]; omega
      have hzero : BitVec.ofNat 52 m ≠ 0#52 := fun hc => by
        have := congrArg BitVec.toNat hc; rw [hmant] at this; simp at this; omega
      rw [if_neg (by omega)]
      simp only [UnpackedFloat.unpack, unpackExponent_packComponents, unpackMantissa_packComponents,
        unpackSign_packComponents]
      rw [if_neg (by decide), if_pos trivial, dif_neg hzero]
      simp only [hmant]
      rfl
  · rw [if_pos (by omega), if_neg he]
    simp only [UnpackedFloat.unpack, packedInfinity, unpackExponent_packComponents, unpackMantissa_packComponents,
      unpackSign_packComponents]
    rfl

/-! ## Rounding -/

theorem mantissa_shiftRight (em : ExtendedMantissa) (n : ℕ) : (em >>> n).mantissa = em.mantissa / 2 ^ n := by
  change (n.repeat ExtendedMantissa.shiftRightOne em).mantissa = _
  induction n with
  | zero => simp [Nat.repeat]
  | succ n ih =>
    rw [Nat.repeat, ExtendedMantissa.shiftRightOne, ih, Nat.div_div_eq_div_mul, Nat.pow_succ]

theorem mantissa_of (m : ℕ) (acc : Accuracy) : (ExtendedMantissa.ofMantissaAndAccuracy m acc).mantissa = m := by
  rcases acc with _ | (_ | _ | _) <;> rfl

theorem roundedMantissa_bounds (em : ExtendedMantissa) :
    em.mantissa ≤ em.roundedMantissa ∧ em.roundedMantissa ≤ em.mantissa + 1 := by
  rcases em with ⟨m, _ | _, _ | _⟩ <;>
    simp [ExtendedMantissa.roundedMantissa, ExtendedMantissa.accuracy, Accuracy.roundToNearestEven]
  omega

theorem targetExponent_eq (m : ℕ) (e : ℤ) :
    Format.binary64.targetExponent (totalExponent m e) = max (m.log2 + e - 52) (-1074) := by
  simp only [Format.targetExponent, totalExponent, Format.mantissaBits, Format.minExponent]
  omega

theorem shift_eq {m : ℕ} {e : ℤ} {k : ℕ} (acc : Accuracy) (hk : max (m.log2 + e - 52) (-1074) = e + k) :
    shiftToTargetExponent .binary64 m e acc = (ExtendedMantissa.ofMantissaAndAccuracy m acc >>> k, e + k) := by
  simp only [shiftToTargetExponent, shiftToExponent, targetExponent_eq, hk]
  rw [show (e + k - e).toNat = k by omega]

/-- The mantissa has all its digits, unless the exponent is the least one. -/
theorem grid_or_least {m k : ℕ} {e : ℤ} (hk : max (m.log2 + e - 52) (-1074) = e + k) :
    m / 2 ^ k < 2 ^ 53 ∧ (2 ^ 52 ≤ m / 2 ^ k ∨ e + k = -1074) := by
  constructor
  · rw [Nat.div_lt_iff_lt_mul (Nat.two_pow_pos k), ← Nat.pow_add]
    exact Nat.lt_log2_self.trans_le (Nat.pow_le_pow_right two_pos (by omega))
  · refine or_iff_not_imp_right.2 fun hne => ?_
    have hm : m ≠ 0 := by
      rintro rfl
      rw [Nat.log2_zero] at hk
      omega
    rw [Nat.le_div_iff_mul_le (Nat.two_pow_pos k), ← Nat.pow_add]
    exact (Nat.le_log2 hm).1 (by omega)

/-- What is rounded to a mantissa of at most 53 digits fits. -/
theorem exists_round (s : Sign) (acc : Accuracy) {m k : ℕ} {e : ℤ} (hk : max (m.log2 + e - 52) (-1074) = e + k) :
    ∃ r, r = (ExtendedMantissa.ofMantissaAndAccuracy m acc >>> k).roundedMantissa ∧
      (r = 0 ∧ roundWithAccuracy .binary64 s m e acc = .zero s ∨
        ∃ m' e' hm', roundWithAccuracy .binary64 s m e acc = .finite s m' e' hm' ∧ Fits m' e' ∧
          (m' : ℚ) * 2 ^ e' = r * 2 ^ (e + k)) := by
  obtain ⟨hfew, hgrid⟩ := grid_or_least hk
  obtain ⟨r, hr⟩ : ∃ r, r = (ExtendedMantissa.ofMantissaAndAccuracy m acc >>> k).roundedMantissa := ⟨_, rfl⟩
  have hrb := roundedMantissa_bounds (ExtendedMantissa.ofMantissaAndAccuracy m acc >>> k)
  rw [mantissa_shiftRight, mantissa_of, ← hr] at hrb
  refine ⟨r, hr, ?_⟩
  rw [roundWithAccuracy, shift_eq acc hk]
  simp only [← hr]
  rcases (show r ≤ 2 ^ 53 by omega).eq_or_lt with rfl | hlt
  · -- Rounding up has carried into a new digit, which is shifted away again.
    have hshift := shift_eq (m := 2 ^ 53) (e := e + k) (k := 1) .exact (by rw [Nat.log2_two_pow]; omega)
    simp only [hshift, mantissa_shiftRight, mantissa_of]
    refine .inr ⟨2 ^ 52, e + k + 1, by decide, rfl,
      ⟨by decide, by decide +kernel, by omega, .inl (by decide +kernel)⟩, ?_⟩
    rw [zpow_add₀ two_ne_zero (e + k) 1]
    push_cast
    ring
  · have hlog : r.log2 ≤ 52 := by
      rcases Nat.eq_zero_or_pos r with rfl | hpos
      · simp
      · exact Nat.lt_succ_iff.1 ((Nat.log2_lt hpos.ne').2 hlt)
    have hfull : r.log2 = 52 ∨ e + k = -1074 := hgrid.imp_left fun hn =>
      le_antisymm hlog ((Nat.le_log2 (by omega)).2 (hn.trans hrb.1))
    have hshift := shift_eq (m := r) (e := e + k) (k := 0) .exact (by omega)
    simp only [hshift, mantissa_shiftRight, mantissa_of, Nat.pow_zero, Nat.div_one]
    rcases Nat.eq_zero_or_pos r with rfl | hpos
    · exact .inl ⟨rfl, rfl⟩
    · rw [dif_neg hpos.ne']
      exact .inr ⟨r, e + k + (0 : ℕ), hpos, rfl, ⟨hpos, hlog, by omega, by omega⟩, by rw [Nat.cast_zero, add_zero]⟩

/-- A rounded number fits, and its leading digit does not move down. -/
theorem round_fits (s : Sign) (acc : Accuracy) {m : ℕ} {e : ℤ} (hm : 0 < m) (hlow : -1074 ≤ m.log2 + e)
    (hbits : e ≤ -1074 ∨ 52 ≤ m.log2) :
    ∃ m' e' hm', roundWithAccuracy .binary64 s m e acc = .finite s m' e' hm' ∧ Fits m' e' ∧
      m.log2 + e ≤ m'.log2 + e' := by
  obtain ⟨k, hk⟩ : ∃ k : ℕ, max (m.log2 + e - 52) (-1074) = e + k :=
    ⟨(max (m.log2 + e - 52) (-1074) - e).toNat, by omega⟩
  obtain ⟨r, hr, hround⟩ := exists_round s acc hk
  have hrb := roundedMantissa_bounds (ExtendedMantissa.ofMantissaAndAccuracy m acc >>> k)
  rw [mantissa_shiftRight, mantissa_of, ← hr] at hrb
  have hdigit : 2 ^ (m.log2 - k) ≤ r := by
    refine le_trans ?_ hrb.1
    rw [Nat.le_div_iff_mul_le (Nat.two_pow_pos k), ← Nat.pow_add, Nat.sub_add_cancel (by omega)]
    exact Nat.log2_self_le hm.ne'
  rcases hround with ⟨rfl, -⟩ | ⟨m', e', hm', hround, hfits, hvalue⟩
  · exact absurd hdigit (Nat.two_pow_pos _).not_ge
  · refine ⟨m', e', hm', hround, hfits, ?_⟩
    have hlt : (2 : ℚ) ^ (m.log2 + e) < 2 ^ (m'.log2 + 1 + e') :=
      calc (2 : ℚ) ^ (m.log2 + e) = (2 ^ (m.log2 - k) : ℕ) * 2 ^ (e + k) := by
            rw [Nat.cast_pow, Nat.cast_ofNat, ← zpow_natCast, ← zpow_add₀ two_ne_zero]
            congr 1
            omega
        _ ≤ r * 2 ^ (e + k) := mul_le_mul_of_nonneg_right (Nat.cast_le.2 hdigit) (zpow_pos two_pos _).le
        _ = m' * 2 ^ e' := hvalue.symm
        _ < (2 ^ (m'.log2 + 1) : ℕ) * 2 ^ e' :=
            mul_lt_mul_of_pos_right (Nat.cast_lt.2 Nat.lt_log2_self) (zpow_pos two_pos _)
        _ = 2 ^ (m'.log2 + 1 + e') := by
            rw [zpow_add₀ two_ne_zero, Nat.cast_pow, Nat.cast_ofNat, ← zpow_natCast, Nat.cast_succ]
    have := (zpow_lt_zpow_iff_right₀ (one_lt_two (α := ℚ))).1 hlt
    omega

/-! ## Positive doubles -/

def Positive : UnpackedFloat → Prop
  | .infinity .positive | .finite .positive .. => True
  | _ => False

theorem pos_iff (x : Float) : 0 < x ↔ Positive x.toModel.unpack := by
  change Float.lt 0 x = true ↔ _
  rw [Float.lt, decide_eq_true_iff]
  change UnpackedFloat.lt (.zero .positive) x.toModel.unpack = true ↔ _
  rcases x.toModel.unpack with (_ | _) | _ | _ | ⟨_ | _, m, e, _⟩ <;>
    simp [UnpackedFloat.lt, UnpackedFloat.compare, Positive]

theorem positive_pack {u : UnpackedFloat} (hu : Positive u) (h : ∀ s m e hm, u = .finite s m e hm → Fits m e) :
    Positive (Float.Model.pack u).unpack := by
  change Positive (UnpackedFloat.unpack .binary64 (UnpackedFloat.pack .binary64 u))
  rcases u with (_ | _) | _ | _ | ⟨_ | _, m, e, hm⟩ <;> try exact hu.elim
  · exact trivial
  · rw [unpack_pack_finite hm (h _ _ _ _ rfl)]
    split <;> exact trivial

theorem pos_pack_unpack {x : Float} (h : 0 < x) : 0 < Float.ofModel (.pack x.toModel.unpack) :=
  (pos_iff _).2 (positive_pack ((pos_iff x).1 h) fun _ _ _ _ hu => (unpack_fits hu).1)

theorem pos_sub_zero {w : Float} (h : 0 < w) : 0 < w - 0 := by
  have hw := (pos_iff w).1 h
  have e : w - 0 = Float.ofModel (.pack (UnpackedFloat.sub .binary64 w.toModel.unpack (.zero .positive))) := rfl
  rw [e, show UnpackedFloat.sub .binary64 w.toModel.unpack (.zero .positive) = w.toModel.unpack by
    cases hu : w.toModel.unpack <;> simp_all [UnpackedFloat.sub, Positive]]
  exact pos_pack_unpack h

theorem pos_zero_add {w : Float} (h : 0 < w) : 0 < 0 + w := by
  have hw := (pos_iff w).1 h
  have e : 0 + w = Float.ofModel (.pack (UnpackedFloat.add .binary64 (.zero .positive) w.toModel.unpack)) := rfl
  rw [e, show UnpackedFloat.add .binary64 (.zero .positive) w.toModel.unpack = w.toModel.unpack by
    cases hu : w.toModel.unpack <;> simp_all [UnpackedFloat.add, Positive]]
  exact pos_pack_unpack h

/-- Finite positive doubles are those with a positive mantissa that fits. -/
theorem unpack_of_pos {t : Float} (ht : 0 < t) (hfin : t.isFinite = true) :
    ∃ m e hm, t.toModel.unpack = .finite .positive m e hm ∧ Fits m e ∧ e ≤ 971 := by
  have hpos := (pos_iff t).1 ht
  change t.toModel.unpack.isFinite = true at hfin
  cases hu : t.toModel.unpack with
  | finite s m e hm =>
    obtain ⟨hfits, he⟩ := unpack_fits hu
    cases s with
    | positive => exact ⟨m, e, hm, rfl, hfits, he⟩
    | negative => rw [hu] at hpos; exact hpos.elim
  | _ => simp_all [Positive, UnpackedFloat.isFinite]

/-! ## The reciprocal -/

/-- The quotient of one by `m * 2 ^ e` before it is rounded: not more than the true
one, and the digits that it has are enough to round it. -/
theorem divCore_one {m : ℕ} {e : ℤ} (h : Fits m e) (he : e ≤ 971) :
    ∃ q f acc, divCore .binary64 (2 ^ 52) (-52) m e = (q, f, acc) ∧ 0 < q ∧
      (-1074 ≤ f ∧ f ≤ -e ∧ q * m ≤ 2 ^ (-e - f).toNat) ∧ -1 ≤ (q.log2 + f) + (m.log2 + e) ∧
      (f ≤ -1074 ∨ 52 ≤ q.log2) := by
  obtain ⟨hm, hlog, hlow, -⟩ := h
  have ht : Format.binary64.targetExponent (totalExponent (2 ^ 52) (-52) - totalExponent m e) =
      max (-m.log2 - e - 53) (-1074) := by
    simp only [Format.targetExponent, totalExponent, Format.mantissaBits, Format.minExponent, Nat.log2_two_pow]
    omega
  obtain ⟨f, hf⟩ : ∃ f, f = min (-52 - e) (max (-m.log2 - e - 53) (-1074)) := ⟨_, rfl⟩
  obtain ⟨k, hk⟩ : ∃ k : ℕ, -52 - e - f = k := ⟨(-52 - e - f).toNat, by omega⟩
  have hq : 2 ^ (52 + k - m.log2 - 1) ≤ (2 ^ 52 <<< k) / m := by
    rw [Nat.le_div_iff_mul_le hm, Nat.shiftLeft_eq, ← Nat.pow_add]
    calc 2 ^ (52 + k - m.log2 - 1) * m
        ≤ 2 ^ (52 + k - m.log2 - 1) * 2 ^ (m.log2 + 1) := Nat.mul_le_mul_left _ Nat.lt_log2_self.le
      _ = 2 ^ (52 + k) := by rw [← Nat.pow_add]; congr 1; omega
  have hpos : 0 < (2 ^ 52 <<< k) / m := Nat.lt_of_lt_of_le (Nat.two_pow_pos _) hq
  have hlogq := (Nat.le_log2 hpos.ne').2 hq
  have hle : (2 ^ 52 <<< k) / m * m ≤ 2 ^ (-e - f).toNat := by
    refine (Nat.div_mul_le_self _ m).trans_eq ?_
    rw [Nat.shiftLeft_eq, ← Nat.pow_add]
    congr 1
    omega
  refine ⟨(2 ^ 52 <<< k) / m, f, accuracyOfFraction ((2 ^ 52 <<< k) % m) m, ?_, hpos, ⟨by omega, by omega, hle⟩,
    by omega, by omega⟩
  rw [divCore, ht]
  simp only [← hf, hk, Int.toNat_natCast]

/-- The reciprocal of a positive double is a rounded quotient, packed. -/
theorem unpack_inverse_of_divCore {t : Float} {m q : ℕ} {e f : ℤ} {acc : Accuracy} {hm : 0 < m}
    (hu : t.toModel.unpack = .finite .positive m e hm) (hdiv : divCore .binary64 (2 ^ 52) (-52) m e = (q, f, acc)) :
    (1 / t).toModel.unpack =
      UnpackedFloat.unpack .binary64 (UnpackedFloat.pack .binary64 (roundWithAccuracy .binary64 .positive q f acc)) := by
  have hone : (1 : Float).toModel.unpack = .finite .positive (2 ^ 52) (-52) (by decide) := rfl
  change UnpackedFloat.unpack _ (UnpackedFloat.pack _ (UnpackedFloat.div _ (1 : Float).toModel.unpack _)) = _
  rw [hone, hu]
  simp only [UnpackedFloat.div, hdiv]
  rfl

/-- The reciprocal of `m * 2 ^ e` is at least half of the true one, or infinite. -/
theorem unpack_inverse_eq {t : Float} {m : ℕ} {e : ℤ} {hm : 0 < m} (hu : t.toModel.unpack = .finite .positive m e hm) :
    ∃ m' e' hm', (1 / t).toModel.unpack = (if e' ≤ 971 then .finite .positive m' e' hm' else .infinity .positive) ∧
      Fits m' e' ∧ -1 ≤ (m'.log2 + e') + (m.log2 + e) := by
  obtain ⟨hfits, he⟩ := unpack_fits hu
  obtain ⟨q, f, acc, hdiv, hq, -, hlog, hbits⟩ := divCore_one hfits he
  have := hfits.log_le
  obtain ⟨m', e', hm', hround, hfits', hlow⟩ := round_fits .positive acc hq (by omega) hbits
  refine ⟨m', e', hm', ?_, hfits', by omega⟩
  rw [unpack_inverse_of_divCore hu hdiv, hround, unpack_pack_finite hm' hfits']

/-- A finite reciprocal of `m * 2 ^ e` is at least half of the true one. -/
theorem unpack_inverse {t : Float} {m : ℕ} {e : ℤ} {hm : 0 < m} (hu : t.toModel.unpack = .finite .positive m e hm)
    (hfin : (1 / t).isFinite = true) :
    ∃ m' e' hm', (1 / t).toModel.unpack = .finite .positive m' e' hm' ∧ Fits m' e' ∧
      -1 ≤ (m'.log2 + e') + (m.log2 + e) := by
  obtain ⟨m', e', hm', hquot, hfits', hlow⟩ := unpack_inverse_eq hu
  change (1 / t).toModel.unpack.isFinite = true at hfin
  by_cases he' : e' ≤ 971
  · rw [if_pos he'] at hquot
    exact ⟨m', e', hm', hquot, hfits', hlow⟩
  · rw [hquot, if_neg he'] at hfin
    cases hfin

/-- A product of positive doubles is positive if its leading digit is not too low. -/
theorem pos_mul {t u : Float} {m m' : ℕ} {e e' : ℤ} {hm : 0 < m} {hm' : 0 < m'}
    (ht : t.toModel.unpack = .finite .positive m e hm) (hu : u.toModel.unpack = .finite .positive m' e' hm')
    (hlow : -1074 ≤ (m.log2 + e) + (m'.log2 + e')) : 0 < t * u := by
  have hfits := (unpack_fits ht).1
  have hfits' := (unpack_fits hu).1
  have hmul : 0 < m * m' := Nat.mul_pos hm hm'
  have hlog : m.log2 + m'.log2 ≤ (m * m').log2 := by
    rw [Nat.le_log2 hmul.ne', Nat.pow_add]
    exact Nat.mul_le_mul (Nat.log2_self_le hm.ne') (Nat.log2_self_le hm'.ne')
  have hbits : e + e' ≤ -1074 ∨ 52 ≤ (m * m').log2 := by
    have := hfits.full
    have := hfits'.full
    omega
  obtain ⟨_, _, _, hround, hfits₂, -⟩ := round_fits .positive .exact hmul (by omega) hbits
  refine (pos_iff _).2 ?_
  change Positive (Float.Model.pack (UnpackedFloat.mul _ t.toModel.unpack u.toModel.unpack)).unpack
  rw [ht, hu]
  change Positive (Float.Model.pack (roundWithAccuracy _ .positive (m * m') (e + e') .exact)).unpack
  rw [hround]
  exact positive_pack trivial (by rintro _ _ _ _ ⟨⟩; exact hfits₂)

/-- A reciprocal that does not overflow is close enough for the product to stay positive. -/
theorem pos_mul_inverse {t : Float} (ht : 0 < t) (hfin : t.isFinite = true) (hinv : (1 / t).isFinite = true) :
    0 < t * (1 / t) := by
  obtain ⟨m, e, hm, hu, hfits, -⟩ := unpack_of_pos ht hfin
  obtain ⟨m', e', hm', hu', hfits', hlow⟩ := unpack_inverse hu hinv
  exact pos_mul hu hu' (by omega)

theorem isZero_zero_mul_inverse {t : Float} (ht : 0 < t) (hfin : t.isFinite = true)
    (hinv : (1 / t).isFinite = true) : Scalar.isZero (0 * (1 / t)) = true := by
  obtain ⟨m, e, hm, hu, -, -⟩ := unpack_of_pos ht hfin
  obtain ⟨m', e', hm', hu', -, -⟩ := unpack_inverse hu hinv
  have hmul : 0 * (1 / t) =
      Float.ofModel (.pack (UnpackedFloat.mul .binary64 (.zero .positive) (1 / t).toModel.unpack)) := rfl
  rw [hmul, hu', show UnpackedFloat.mul .binary64 (.zero .positive) (.finite .positive m' e' hm') = .zero .positive
    from rfl]
  decide

end Inflow.Double
