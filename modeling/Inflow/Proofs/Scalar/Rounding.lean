import Inflow.Proofs.Scalar.Double
/-!
# Rounding passes no double

A finite double has a rational value, and finite doubles are compared by their values.
What arithmetic gives for two of them is the exact result, rounded: every double that
is on one side of the exact result is on this side of the rounded one, too, or the
rounded one itself. So an exact result that is a double is not changed.
-/

open Float.Model Float.Model.UnpackedFloat

namespace Inflow.Double

variable {m m' : ℕ} {e e' : ℤ}

/-! ## Values -/

/-- A rational number with a sign in front. -/
def signed : Sign → ℚ → ℚ
  | .positive, q => q
  | .negative, q => -q

/-- The value of a number; zero for what has none. -/
def value : UnpackedFloat → ℚ
  | .finite s m e _ => signed s (m * 2 ^ e)
  | _ => 0

/-- The numbers that a finite double can be. -/
def Held : UnpackedFloat → Prop
  | .zero _ => True
  | .finite _ m e _ => Fits m e ∧ e ≤ 971
  | _ => False

theorem held_unpack {x : Float} (hx : x.isFinite = true) : Held x.toModel.unpack := by
  change x.toModel.unpack.isFinite = true at hx
  cases hu : x.toModel.unpack with
  | finite s m e hm => exact unpack_fits hu
  | zero s => exact trivial
  | _ => simp [hu, UnpackedFloat.isFinite] at hx

/-- A mantissa with all its digits is the larger one at a higher exponent. -/
theorem magnitude_lt_of_digits (h : Fits m e) {n : ℕ} (hn : 2 ^ 52 ≤ n) (hlt : e < e') :
    (m : ℚ) * 2 ^ e < n * 2 ^ e' := by
  have hlog := h.log_le
  have hm : (m : ℚ) < 2 ^ 53 := by exact_mod_cast (Nat.log2_lt h.pos.ne').1 (show m.log2 < 53 by omega)
  have hn : (2 : ℚ) ^ 52 ≤ n := by exact_mod_cast hn
  calc (m : ℚ) * 2 ^ e < 2 ^ 53 * 2 ^ e := mul_lt_mul_of_pos_right hm (zpow_pos two_pos e)
    _ = 2 ^ 52 * 2 ^ (e + 1) := by rw [zpow_add₀ two_ne_zero]; ring
    _ ≤ 2 ^ 52 * 2 ^ e' := mul_le_mul_of_nonneg_left (zpow_le_zpow_right₀ one_le_two (by omega)) (by positivity)
    _ ≤ n * 2 ^ e' := mul_le_mul_of_nonneg_right hn (zpow_pos two_pos e').le

/-- Of two numbers that fit, the one with the larger exponent is the larger. -/
theorem magnitude_lt_of_lt (h : Fits m e) (h' : Fits m' e') (hlt : e < e') : (m : ℚ) * 2 ^ e < m' * 2 ^ e' := by
  have hlow := h.low
  have hfull : m'.log2 = 52 := h'.full.resolve_right (by omega)
  exact magnitude_lt_of_digits h ((Nat.le_log2 h'.pos.ne').1 hfull.ge) hlt

/-- Numbers that fit are ordered by their exponents, and by their mantissas where these agree. -/
theorem magnitude_le_iff (h : Fits m e) (h' : Fits m' e') :
    (m : ℚ) * 2 ^ e ≤ m' * 2 ^ e' ↔ toLex (e, (m : ℤ)) ≤ toLex (e', (m' : ℤ)) := by
  rw [Prod.Lex.toLex_le_toLex]
  rcases lt_trichotomy e e' with hlt | rfl | hgt
  · simp [hlt, (magnitude_lt_of_lt h h' hlt).le]
  · simp [zpow_pos]
  · simp [not_lt_of_gt hgt, hgt.ne', magnitude_lt_of_lt h' h hgt]

theorem magnitude_pos (hm : 0 < m) (e : ℤ) : (0 : ℚ) < m * 2 ^ e :=
  mul_pos (Nat.cast_pos.2 hm) (zpow_pos two_pos e)

/-- Numbers are compared by their values. -/
theorem le_iff_value {u v : UnpackedFloat} (hu : Held u) (hv : Held v) : u.le v = true ↔ value u ≤ value v := by
  rw [le_iff]
  rcases u with _ | _ | s | ⟨_ | _, m, e, hm⟩ <;> try exact hu.elim
  all_goals rcases v with _ | _ | s' | ⟨_ | _, m', e', hm'⟩ <;> try exact hv.elim
  case zero.zero => simp [place?, value]
  case zero.finite.negative => simp [place?, value, signed, Prod.Lex.toLex_le_toLex, magnitude_pos hm' e']
  case zero.finite.positive => simp [place?, value, signed, Prod.Lex.toLex_le_toLex, (magnitude_pos hm' e').le]
  case finite.negative.zero => simp [place?, value, signed, Prod.Lex.toLex_le_toLex, (magnitude_pos hm e).le]
  case finite.positive.zero => simp [place?, value, signed, Prod.Lex.toLex_le_toLex, magnitude_pos hm e]
  case finite.positive.finite.positive =>
    simp [place?, value, signed, magnitude_le_iff hu.1 hv.1, Prod.Lex.toLex_le_toLex]
  case finite.negative.finite.negative =>
    simp [place?, value, signed, magnitude_le_iff hv.1 hu.1, Prod.Lex.toLex_le_toLex, eq_comm]
  case finite.negative.finite.positive =>
    have hle : -((m : ℚ) * 2 ^ e) ≤ m' * 2 ^ e' :=
      (neg_nonpos.2 (magnitude_pos hm e).le).trans (magnitude_pos hm' e').le
    simp [place?, value, signed, Prod.Lex.toLex_le_toLex, hle]
  case finite.positive.finite.negative =>
    have hlt : -((m' : ℚ) * 2 ^ e') < m * 2 ^ e :=
      (neg_neg_of_pos (magnitude_pos hm' e')).trans (magnitude_pos hm e)
    simp [place?, value, signed, Prod.Lex.toLex_le_toLex, hlt]

/-! ## Signs turned around -/

theorem signed_neg (s : Sign) (q : ℚ) : signed (-s) q = -signed s q := by
  cases s with
  | positive => rfl
  | negative => exact (neg_neg q).symm

theorem value_neg (u : UnpackedFloat) : value u.neg = -value u := by
  cases u with
  | finite s m e hm => exact signed_neg s _
  | _ => exact neg_zero.symm

theorem Held.neg {u : UnpackedFloat} (hu : Held u) : Held u.neg := by
  rcases u with (_ | _) | _ | _ | ⟨_ | _, m, e, _⟩ <;> exact hu

theorem neg_le_comm (u v : UnpackedFloat) : u.neg.le v = v.neg.le u := by
  rcases u with (_ | _) | _ | _ | ⟨_ | _, m, e, _⟩ <;> rcases v with (_ | _) | _ | _ | ⟨_ | _, m', e', _⟩ <;>
    simp [UnpackedFloat.le, UnpackedFloat.compare, UnpackedFloat.neg, compare_sign, swap_then]

theorem le_neg_comm (u v : UnpackedFloat) : u.le v.neg = v.le u.neg := by
  rcases u with (_ | _) | _ | _ | ⟨_ | _, m, e, _⟩ <;> rcases v with (_ | _) | _ | _ | ⟨_ | _, m', e', _⟩ <;>
    simp [UnpackedFloat.le, UnpackedFloat.compare, UnpackedFloat.neg, compare_sign, swap_then]

/-! ## Rounding -/

variable {q : ℚ} {u : UnpackedFloat} {s : Sign} {acc : Accuracy}

/-- What a rational number is rounded to: a number that a double can be is on the
same side of both, or it is the result itself. -/
structure Rounded (q : ℚ) (u : UnpackedFloat) : Prop where
  above : ∀ v, Held v → value v ≤ q → v.le u = true
  below : ∀ v, Held v → q ≤ value v → u.le v = true

/-- A number that a double can be is not changed. -/
theorem rounded_of_held (hu : Held u) : Rounded (value u) u where
  above _ hv hle := (le_iff_value hv hu).2 hle
  below _ hv hle := (le_iff_value hu hv).2 hle

theorem Rounded.neg (h : Rounded q u) : Rounded (-q) u.neg where
  above v hv hle := by
    rw [le_neg_comm]
    exact h.below v.neg hv.neg (by rw [value_neg]; linarith)
  below v hv hle := by
    rw [neg_le_comm]
    exact h.above v.neg hv.neg (by rw [value_neg]; linarith)

/-- What a mantissa that is cut off and its accuracy say about the number to be rounded. -/
def Approximates (q : ℚ) (m : ℕ) (e : ℤ) : Accuracy → Prop
  | .exact => q = m * 2 ^ e
  | .inexact _ => m * 2 ^ e < q ∧ q < (m + 1) * 2 ^ e

theorem shiftRight_exact (n k : ℕ) :
    ExtendedMantissa.ofMantissaAndAccuracy (n * 2 ^ k) .exact >>> k =
      ExtendedMantissa.ofMantissaAndAccuracy n .exact := by
  change k.repeat ExtendedMantissa.shiftRightOne _ = _
  induction k generalizing n with
  | zero => simp [Nat.repeat]
  | succ k ih =>
    rw [Nat.repeat, Nat.pow_succ', ← Nat.mul_assoc, ih]
    simp [ExtendedMantissa.shiftRightOne, ExtendedMantissa.ofMantissaAndAccuracy]

/-- A mantissa that is shifted to the right is rounded up only if that leads towards the number. -/
theorem roundedMantissa_shift (h : Approximates q m e acc) (k : ℕ) :
    ((m / 2 ^ k : ℕ) : ℚ) * 2 ^ (e + k) ≤ q ∧ q < ((m / 2 ^ k : ℕ) + 1) * 2 ^ (e + k) ∧
      ((ExtendedMantissa.ofMantissaAndAccuracy m acc >>> k).roundedMantissa = m / 2 ^ k ∨
        (ExtendedMantissa.ofMantissaAndAccuracy m acc >>> k).roundedMantissa = m / 2 ^ k + 1 ∧
          ((m / 2 ^ k : ℕ) : ℚ) * 2 ^ (e + k) < q) := by
  have hdown : m / 2 ^ k * 2 ^ k ≤ m := Nat.div_mul_le_self m _
  have hup : m + 1 ≤ (m / 2 ^ k + 1) * 2 ^ k := (Nat.div_lt_iff_lt_mul (Nat.two_pow_pos k)).1 (Nat.lt_succ_self _)
  have hbounds : (m : ℚ) * 2 ^ e ≤ q ∧ q < (m + 1) * 2 ^ e := by
    cases acc with
    | exact =>
      obtain rfl : q = m * 2 ^ e := h
      exact ⟨le_rfl, mul_lt_mul_of_pos_right (lt_add_one _) (zpow_pos two_pos e)⟩
    | inexact _ => exact ⟨h.1.le, h.2⟩
  have hshift : ∀ n : ℕ, (n : ℚ) * 2 ^ (e + k) = (n * 2 ^ k : ℕ) * 2 ^ e := by
    intro n
    rw [zpow_add₀ two_ne_zero, zpow_natCast, Nat.cast_mul, Nat.cast_pow, Nat.cast_ofNat]
    ring
  have hbelow : ((m / 2 ^ k : ℕ) : ℚ) * 2 ^ (e + k) ≤ m * 2 ^ e := by
    rw [hshift]
    exact mul_le_mul_of_nonneg_right (Nat.cast_le.2 hdown) (zpow_pos two_pos e).le
  have habove : ((m : ℚ) + 1) * 2 ^ e ≤ ((m / 2 ^ k : ℕ) + 1) * 2 ^ (e + k) := by
    rw [← Nat.cast_succ, ← Nat.cast_succ, hshift]
    exact mul_le_mul_of_nonneg_right (Nat.cast_le.2 hup) (zpow_pos two_pos e).le
  refine ⟨hbelow.trans hbounds.1, hbounds.2.trans_le habove, ?_⟩
  have hrounded := roundedMantissa_bounds (ExtendedMantissa.ofMantissaAndAccuracy m acc >>> k)
  rw [mantissa_shiftRight, mantissa_of] at hrounded
  refine (show _ ∨ _ by omega).imp_right fun hr => ⟨hr, ?_⟩
  cases acc with
  | inexact _ => exact hbelow.trans_lt h.1
  | exact =>
    obtain rfl : q = m * 2 ^ e := h
    refine hbelow.lt_of_ne fun heq => ?_
    -- Nothing is cut off, so there is nothing to round up.
    rw [hshift] at heq
    have hm : m / 2 ^ k * 2 ^ k = m := Nat.cast_injective (mul_right_cancel₀ (zpow_pos two_pos e).ne' heq)
    have hkept := shiftRight_exact (m / 2 ^ k) k
    rw [hm] at hkept
    rw [hkept] at hr
    exact absurd hr (Nat.lt_succ_self _).ne

/-- Numbers of the grid that a number is rounded on are on the same side of it as of the
result, and below the least exponent of the grid there are only smaller ones. -/
theorem le_of_grid {n r : ℕ} {g : ℤ} (hlow : (n : ℚ) * 2 ^ g ≤ q) (hhigh : q < (n + 1) * 2 ^ g)
    (hr : r = n ∨ r = n + 1 ∧ (n : ℚ) * 2 ^ g < q) (hgrid : 2 ^ 52 ≤ n ∨ g = -1074) (h : Fits m e) :
    ((m : ℚ) * 2 ^ e ≤ q → (m : ℚ) * 2 ^ e ≤ r * 2 ^ g) ∧ (q ≤ m * 2 ^ e → (r : ℚ) * 2 ^ g ≤ m * 2 ^ e) := by
  have hg : (0 : ℚ) < 2 ^ g := zpow_pos two_pos g
  have hnr : n ≤ r := by omega
  rcases lt_or_ge e g with heg | heg
  · have hlow' := h.low
    have hlt : (m : ℚ) * 2 ^ e < n * 2 ^ g := magnitude_lt_of_digits h (hgrid.resolve_right (by omega)) heg
    refine ⟨fun _ => hlt.le.trans (mul_le_mul_of_nonneg_right (Nat.cast_le.2 hnr) hg.le), fun hq => ?_⟩
    exact absurd (hlow.trans hq) (not_le.2 hlt)
  · obtain ⟨k, hk⟩ : ∃ k : ℕ, e = g + k := ⟨(e - g).toNat, by omega⟩
    have hgrid : (m : ℚ) * 2 ^ e = (m * 2 ^ k : ℕ) * 2 ^ g := by
      rw [hk, zpow_add₀ two_ne_zero, zpow_natCast, Nat.cast_mul, Nat.cast_pow, Nat.cast_ofNat]
      ring
    rw [hgrid]
    constructor
    · intro hq
      have hlt : ((m * 2 ^ k : ℕ) : ℚ) < (n + 1 : ℕ) := by
        rw [Nat.cast_succ]
        exact lt_of_mul_lt_mul_right (hq.trans_lt hhigh) hg.le
      have hle : m * 2 ^ k ≤ r := (Nat.lt_succ_iff.1 (Nat.cast_lt.1 hlt)).trans hnr
      exact mul_le_mul_of_nonneg_right (Nat.cast_le.2 hle) hg.le
    · intro hq
      have hle : r ≤ m * 2 ^ k := by
        rcases hr with rfl | ⟨rfl, hlt⟩
        · exact Nat.cast_le.1 (le_of_mul_le_mul_right (hlow.trans hq) hg)
        · exact Nat.cast_lt.1 (lt_of_mul_lt_mul_right (hlt.trans_le hq) hg.le)
      exact mul_le_mul_of_nonneg_right (Nat.cast_le.2 hle) hg.le

theorem value_le_of_grid {n r : ℕ} {g : ℤ} (hlow : (n : ℚ) * 2 ^ g ≤ q) (hhigh : q < (n + 1) * 2 ^ g)
    (hr : r = n ∨ r = n + 1 ∧ (n : ℚ) * 2 ^ g < q) (hgrid : 2 ^ 52 ≤ n ∨ g = -1074) {v : UnpackedFloat} (hv : Held v) :
    (value v ≤ q → value v ≤ r * 2 ^ g) ∧ (q ≤ value v → (r : ℚ) * 2 ^ g ≤ value v) := by
  have hg : (0 : ℚ) < 2 ^ g := zpow_pos two_pos g
  have hr0 : (0 : ℚ) ≤ r * 2 ^ g := mul_nonneg (Nat.cast_nonneg r) hg.le
  have hq : 0 ≤ q := (mul_nonneg (Nat.cast_nonneg n) hg.le).trans hlow
  rcases v with _ | _ | s | ⟨_ | _, a, f, ha⟩ <;> try exact hv.elim
  case zero =>
    refine ⟨fun _ => hr0, fun hle => ?_⟩
    have hn : (n : ℚ) * 2 ^ g ≤ 0 := hlow.trans hle
    rcases hr with rfl | ⟨-, hlt⟩
    · exact hn
    · exact absurd (hlt.trans_le hle) (not_lt.2 (mul_nonneg (Nat.cast_nonneg n) hg.le))
  case finite.negative =>
    have hneg : value (.finite .negative a f ha) < 0 := neg_neg_of_pos (magnitude_pos ha f)
    exact ⟨fun _ => hneg.le.trans hr0, fun hle => absurd (hq.trans hle) (not_le.2 hneg)⟩
  case finite.positive => exact le_of_grid hlow hhigh hr hgrid hv.1

theorem le_infinity {v : UnpackedFloat} (hv : Held v) : v.le (.infinity .positive) = true := by
  rcases v with _ | _ | s | ⟨_ | _, a, f, ha⟩ <;> first | exact hv.elim | rfl

/-- What a positive mantissa is rounded to, once it is packed. -/
theorem rounded_positive (hq : Approximates q m e acc) (he : e ≤ max (m.log2 + e - 52) (-1074)) :
    Rounded q (UnpackedFloat.unpack .binary64
      (UnpackedFloat.pack .binary64 (roundWithAccuracy .binary64 .positive m e acc))) := by
  obtain ⟨k, hk⟩ : ∃ k : ℕ, max (m.log2 + e - 52) (-1074) = e + k :=
    ⟨(max (m.log2 + e - 52) (-1074) - e).toNat, by omega⟩
  obtain ⟨r, hr, hround⟩ := exists_round .positive acc hk
  obtain ⟨hlow, hhigh, hnext⟩ := roundedMantissa_shift hq k
  rw [← hr] at hnext
  have hside := fun v (hv : Held v) => value_le_of_grid hlow hhigh hnext (grid_or_least hk).2 hv
  rcases hround with ⟨rfl, hround⟩ | ⟨m', e', hm', hround, hfits, hvalue⟩
  · rw [hround]
    rw [Nat.cast_zero, zero_mul] at hside
    have hzero : Held (.zero .positive) := trivial
    exact ⟨fun v hv hle => (le_iff_value hv hzero).2 ((hside v hv).1 hle),
      fun v hv hle => (le_iff_value hzero hv).2 ((hside v hv).2 hle)⟩
  · rw [hround, unpack_pack_finite hm' hfits]
    rw [← hvalue] at hside
    split
    · have hheld : Held (.finite .positive m' e' hm') := ⟨hfits, ‹_›⟩
      exact ⟨fun v hv hle => (le_iff_value hv hheld).2 ((hside v hv).1 hle),
        fun v hv hle => (le_iff_value hheld hv).2 ((hside v hv).2 hle)⟩
    · refine ⟨fun v hv _ => le_infinity hv, fun v hv hle => ?_⟩
      -- Above the result there is no number that a double can be.
      have hle' := (hside v hv).2 hle
      have hpos := magnitude_pos hm' e'
      rcases v with _ | _ | s | ⟨_ | _, a, f, ha⟩ <;> try exact hv.elim
      case zero => exact absurd hpos (not_lt.2 hle')
      case finite.negative => exact absurd (hpos.trans_le hle') (not_lt.2 (neg_nonpos.2 (magnitude_pos ha f).le))
      case finite.positive =>
        have hlex := (magnitude_le_iff hfits hv.1).1 hle'
        rw [Prod.Lex.toLex_le_toLex] at hlex
        have := hv.2
        omega

/-- A number that fits is packed as it is, or as infinity, whatever its sign. -/
theorem unpack_pack_neg (hu : (∃ s, u = .zero s) ∨ ∃ s m e hm, u = .finite s m e hm ∧ Fits m e) :
    UnpackedFloat.unpack .binary64 (UnpackedFloat.pack .binary64 u.neg) =
      (UnpackedFloat.unpack .binary64 (UnpackedFloat.pack .binary64 u)).neg := by
  rcases hu with ⟨s, rfl⟩ | ⟨s, m, e, hm, rfl, hfits⟩
  · cases s <;> rfl
  · rw [UnpackedFloat.neg, unpack_pack_finite hm hfits, unpack_pack_finite hm hfits]
    split <;> rfl

theorem roundWithAccuracy_negative (m : ℕ) (e : ℤ) (acc : Accuracy) :
    roundWithAccuracy .binary64 .negative m e acc = (roundWithAccuracy .binary64 .positive m e acc).neg := by
  unfold roundWithAccuracy
  dsimp only
  split <;> rfl

/-- What a mantissa with a sign is rounded to, once it is packed. -/
theorem rounded_pack (s : Sign) (hq : Approximates q m e acc) (he : e ≤ max (m.log2 + e - 52) (-1074)) :
    Rounded (signed s q) (UnpackedFloat.unpack .binary64
      (UnpackedFloat.pack .binary64 (roundWithAccuracy .binary64 s m e acc))) := by
  cases s with
  | positive => exact rounded_positive hq he
  | negative =>
    obtain ⟨k, hk⟩ : ∃ k : ℕ, max (m.log2 + e - 52) (-1074) = e + k :=
      ⟨(max (m.log2 + e - 52) (-1074) - e).toNat, by omega⟩
    obtain ⟨r, -, hround⟩ := exists_round (m := m) .positive acc hk
    rw [roundWithAccuracy_negative, unpack_pack_neg]
    · exact (rounded_positive hq he).neg
    · exact hround.imp (fun h => ⟨_, h.2⟩) fun ⟨m', e', hm', h, hfits, _⟩ => ⟨_, m', e', hm', h, hfits⟩

/-! ## Arithmetic -/

variable {v : UnpackedFloat}

theorem signed_mul (q q' : ℚ) : ∀ s s' : Sign, signed (s * s') (q * q') = signed s q * signed s' q'
  | .positive, .positive => rfl
  | .positive, .negative => (mul_neg q q').symm
  | .negative, .positive => (neg_mul q q').symm
  | .negative, .negative => (neg_mul_neg q q').symm

theorem signed_div (q q' : ℚ) : ∀ s s' : Sign, signed (s / s') (q / q') = signed s q / signed s' q'
  | .positive, .positive => rfl
  | .positive, .negative => (div_neg q).symm
  | .negative, .positive => (neg_div q' q).symm
  | .negative, .negative => (neg_div_neg_eq q q').symm

theorem rounded_zero (s : Sign) :
    Rounded 0 (UnpackedFloat.unpack .binary64 (UnpackedFloat.pack .binary64 (.zero s))) := by
  have hzero : UnpackedFloat.unpack .binary64 (UnpackedFloat.pack .binary64 (.zero s)) = .zero s := by
    cases s <;> rfl
  rw [hzero]
  exact rounded_of_held (u := .zero s) trivial

theorem rounded_finite (s : Sign) (hm : 0 < m) (h : Fits m e ∧ e ≤ 971) : Rounded (signed s (m * 2 ^ e))
    (UnpackedFloat.unpack .binary64 (UnpackedFloat.pack .binary64 (.finite s m e hm))) := by
  rw [unpack_pack_finite hm h.1, if_pos h.2]
  exact rounded_of_held (u := .finite s m e hm) h

/-- A product has enough digits to be rounded. -/
theorem precise_mul (h : Fits m e) (h' : Fits m' e') :
    e + e' ≤ max ((m * m').log2 + (e + e') - 52) (-1074) := by
  have hmul : 0 < m * m' := Nat.mul_pos h.pos h'.pos
  have hlog : m.log2 + m'.log2 ≤ (m * m').log2 := by
    rw [Nat.le_log2 hmul.ne', Nat.pow_add]
    exact Nat.mul_le_mul (Nat.log2_self_le h.pos.ne') (Nat.log2_self_le h'.pos.ne')
  have := h.full
  have := h'.full
  omega

theorem rounded_mul (hu : Held u) (hv : Held v) : Rounded (value u * value v)
    (UnpackedFloat.unpack .binary64 (UnpackedFloat.pack .binary64 (UnpackedFloat.mul .binary64 u v))) := by
  rcases u with _ | _ | s | ⟨s, m, e, hm⟩ <;> try exact hu.elim
  all_goals rcases v with _ | _ | s' | ⟨s', m', e', hm'⟩ <;> try exact hv.elim
  case finite.finite =>
    have hq : Approximates ((m * 2 ^ e) * (m' * 2 ^ e')) (m * m') (e + e') .exact := by
      change (_ : ℚ) = _
      rw [zpow_add₀ two_ne_zero, Nat.cast_mul]
      ring
    rw [value, value, ← signed_mul]
    exact rounded_pack (s * s') hq (precise_mul hu.1 hv.1)
  all_goals
    simp only [value, zero_mul, mul_zero]
    exact rounded_zero (s * s')

/-- A quotient of mantissas, with a remainder that says how accurate it is. -/
theorem approximates_div (hm : 0 < m') {k : ℕ} {f : ℤ} (hf : e - e' = f + k) :
    Approximates ((m * 2 ^ e) / (m' * 2 ^ e')) ((m <<< k) / m') f (accuracyOfFraction ((m <<< k) % m') m') := by
  have hpos : (0 : ℚ) < m' := Nat.cast_pos.2 hm
  have hquot : ((m : ℚ) * 2 ^ e) / (m' * 2 ^ e') = (m <<< k : ℕ) / m' * 2 ^ f := by
    rw [Nat.shiftLeft_eq, mul_div_mul_comm, ← zpow_sub₀ two_ne_zero, hf, zpow_add₀ two_ne_zero, zpow_natCast]
    push_cast
    ring
  have hdiv := Nat.div_add_mod (m <<< k) m'
  have hlt := Nat.mod_lt (m <<< k) hm
  rw [hquot, accuracyOfFraction]
  generalize m <<< k = a at hdiv hlt
  have hcast : (a : ℚ) = m' * (a / m' : ℕ) + (a % m' : ℕ) := by exact_mod_cast hdiv.symm
  split
  · rename_i hzero
    rw [hzero, Nat.cast_zero, add_zero] at hcast
    change (_ : ℚ) = _
    rw [hcast, mul_div_cancel_left₀ _ hpos.ne']
  · rename_i hrem
    have hrem : (0 : ℚ) < (a % m' : ℕ) := Nat.cast_pos.2 (Nat.pos_of_ne_zero hrem)
    have hlt : ((a % m' : ℕ) : ℚ) < m' := Nat.cast_lt.2 hlt
    refine ⟨mul_lt_mul_of_pos_right ?_ (zpow_pos two_pos f), mul_lt_mul_of_pos_right ?_ (zpow_pos two_pos f)⟩
    · rw [lt_div_iff₀ hpos]
      linarith
    · rw [div_lt_iff₀ hpos]
      linarith

/-- A quotient has enough digits to be rounded. -/
theorem precise_div (hm : 0 < m) (hm' : 0 < m') {k : ℕ} {f : ℤ} (hf : e - e' = f + k)
    (hlow : f ≤ max (m.log2 + e - (m'.log2 + e') - 53) (-1074)) :
    f ≤ max (((m <<< k) / m').log2 + f - 52) (-1074) := by
  by_cases hleast : f ≤ -1074
  · omega
  have hdigits : 2 ^ 52 ≤ (m <<< k) / m' := by
    rw [Nat.le_div_iff_mul_le hm', Nat.shiftLeft_eq]
    calc 2 ^ 52 * m' ≤ 2 ^ 52 * 2 ^ (m'.log2 + 1) := Nat.mul_le_mul_left _ Nat.lt_log2_self.le
      _ = 2 ^ (53 + m'.log2) := by rw [← Nat.pow_add]; congr 1; omega
      _ ≤ 2 ^ (m.log2 + k) := Nat.pow_le_pow_right two_pos (by omega)
      _ = 2 ^ m.log2 * 2 ^ k := Nat.pow_add ..
      _ ≤ m * 2 ^ k := Nat.mul_le_mul_right _ (Nat.log2_self_le hm.ne')
  have hlog := (Nat.le_log2 (Nat.ne_of_gt ((Nat.two_pow_pos 52).trans_le hdigits))).2 hdigits
  omega

theorem rounded_div (hu : Held u) (hv : Held v) (hne : value v ≠ 0) : Rounded (value u / value v)
    (UnpackedFloat.unpack .binary64 (UnpackedFloat.pack .binary64 (UnpackedFloat.div .binary64 u v))) := by
  rcases v with _ | _ | s' | ⟨s', m', e', hm'⟩ <;> try exact hv.elim
  case zero => exact absurd rfl hne
  case finite =>
    rcases u with _ | _ | s | ⟨s, m, e, hm⟩ <;> try exact hu.elim
    case zero =>
      rw [show value (.zero s) = 0 from rfl, zero_div]
      exact rounded_zero (s / s')
    case finite =>
      obtain ⟨f, hf⟩ : ∃ f, f = min (e - e') (max (m.log2 + e - (m'.log2 + e') - 53) (-1074)) := ⟨_, rfl⟩
      obtain ⟨k, hk⟩ : ∃ k : ℕ, e - e' = f + k := ⟨(e - e' - f).toNat, by omega⟩
      have htarget : min (e - e') (Format.binary64.targetExponent (totalExponent m e - totalExponent m' e')) = f := by
        simp only [Format.targetExponent, totalExponent, Format.mantissaBits, Format.minExponent]
        omega
      have hdiv : divCore .binary64 m e m' e' = ((m <<< k) / m', f, accuracyOfFraction ((m <<< k) % m') m') := by
        rw [divCore, htarget, show (e - e' - f).toNat = k by omega]
      simp only [UnpackedFloat.div, hdiv, value, ← signed_div]
      exact rounded_pack (s / s') (approximates_div hm' hk) (precise_div hm hm' hk (by omega))

/-- A mantissa is shifted to the left until it has enough digits to be rounded. -/
theorem rounded_round (s : Sign) (hm : 0 < m) : Rounded (signed s (m * 2 ^ e))
    (UnpackedFloat.unpack .binary64 (UnpackedFloat.pack .binary64 (UnpackedFloat.round .binary64 s m e))) := by
  obtain ⟨j, hj⟩ : ∃ j, j = (e - max (m.log2 + e - 52) (-1074)).toNat := ⟨_, rfl⟩
  have hlog : (m <<< j).log2 = m.log2 + j := by
    have hmj : m <<< j ≠ 0 := by simp [Nat.shiftLeft_eq, hm.ne']
    rw [Nat.log2_eq_iff hmj, Nat.shiftLeft_eq, Nat.add_right_comm, Nat.pow_add, Nat.pow_add]
    exact ⟨Nat.mul_le_mul_right _ (Nat.log2_self_le hm.ne'),
      Nat.mul_lt_mul_of_pos_right Nat.lt_log2_self (Nat.two_pow_pos j)⟩
  have hq : Approximates (m * 2 ^ e) (m <<< j) (e - j) .exact := by
    change (_ : ℚ) = _
    rw [Nat.shiftLeft_eq, zpow_sub₀ two_ne_zero, zpow_natCast]
    push_cast
    field_simp
  unfold UnpackedFloat.round decreaseExponent
  simp only [targetExponent_eq, ← hj]
  exact rounded_pack s hq (by omega)

theorem rounded_normalize (n : ℤ) (e : ℤ) (s : Sign) : Rounded (n * 2 ^ e)
    (UnpackedFloat.unpack .binary64 (UnpackedFloat.pack .binary64 (UnpackedFloat.normalize .binary64 n e s))) := by
  unfold UnpackedFloat.normalize
  rcases lt_trichotomy n 0 with hn | rfl | hn
  · obtain ⟨m, rfl⟩ : ∃ m : ℕ, n = -m := ⟨(-n).toNat, by omega⟩
    rw [compare_lt_iff_lt.2 hn]
    simp only [neg_neg, Int.toNat_natCast]
    convert rounded_round (e := e) .negative (m := m) (by omega) using 1
    push_cast
    exact neg_mul _ _
  · simpa using rounded_zero s
  · obtain ⟨m, rfl⟩ : ∃ m : ℕ, n = m := ⟨n.toNat, by omega⟩
    rw [compare_gt_iff_gt.2 hn]
    simp only [Int.toNat_natCast, Int.cast_natCast]
    exact rounded_round .positive (by omega)

/-- A mantissa with a sign, brought to a lower exponent. -/
theorem value_shiftLeft (s : Sign) (m : ℕ) {f : ℤ} (hle : f ≤ e) :
    (s.apply (m <<< (e - f).toNat : ℕ) : ℚ) * 2 ^ f = signed s (m * 2 ^ e) := by
  obtain ⟨k, rfl⟩ : ∃ k : ℕ, e = f + k := ⟨(e - f).toNat, by omega⟩
  have hk : (f + k - f).toNat = k := by omega
  rw [hk, Nat.shiftLeft_eq, zpow_add₀ two_ne_zero, zpow_natCast]
  cases s <;> simp only [Sign.apply, signed] <;> push_cast <;> ring

theorem rounded_add (hu : Held u) (hv : Held v) : Rounded (value u + value v)
    (UnpackedFloat.unpack .binary64 (UnpackedFloat.pack .binary64 (UnpackedFloat.add .binary64 u v))) := by
  rcases u with _ | _ | s | ⟨s, m, e, hm⟩ <;> try exact hu.elim
  all_goals rcases v with _ | _ | s' | ⟨s', m', e', hm'⟩ <;> try exact hv.elim
  case zero.zero =>
    simp only [value, add_zero, UnpackedFloat.add]
    split <;> exact rounded_zero _
  case zero.finite =>
    simp only [value, zero_add]
    exact rounded_finite s' hm' hv
  case finite.zero =>
    simp only [value, add_zero]
    exact rounded_finite s hm hu
  case finite.finite =>
    have hnormalize := rounded_normalize (s.apply (m <<< (e - min e e').toNat : ℕ) +
      s'.apply (m' <<< (e' - min e e').toNat : ℕ)) (min e e') .positive
    rw [Int.cast_add, add_mul, value_shiftLeft s m (min_le_left e e'), value_shiftLeft s' m' (min_le_right e e')]
      at hnormalize
    exact hnormalize

/-- A difference is the sum with the second number turned around. -/
theorem sub_eq_add (u v : UnpackedFloat) : UnpackedFloat.sub .binary64 u v = UnpackedFloat.add .binary64 u v.neg := by
  rcases u with _ | _ | s | ⟨s, m, e, hm⟩ <;> rcases v with _ | _ | s' | ⟨s', m', e', hm'⟩ <;> try rfl
  case finite.finite =>
    have happly : ∀ n : ℤ, (-s').apply n = -s'.apply n := fun n => by cases s' <;> simp [Sign.apply]
    simp only [UnpackedFloat.sub, UnpackedFloat.add, UnpackedFloat.neg, happly, Int.sub_eq_add_neg]

theorem rounded_sub (hu : Held u) (hv : Held v) : Rounded (value u - value v)
    (UnpackedFloat.unpack .binary64 (UnpackedFloat.pack .binary64 (UnpackedFloat.sub .binary64 u v))) := by
  rw [sub_eq_add, sub_eq_add_neg, ← value_neg]
  exact rounded_add hu hv.neg

end Inflow.Double
