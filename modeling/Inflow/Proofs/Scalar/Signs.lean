import Inflow.Proofs.Scalar.Rounding
/-!
# Signs of results

The sign of a sum or difference of finite doubles is that of the exact result: what is
not zero is not rounded to zero. A product or quotient may be, but it does not come out
on the other side of zero. So a double lies between its difference and its sum with any
double that is not negative, and the interval around it is never turned around.
-/

open Float.Model Float.Model.UnpackedFloat

namespace Inflow.Double

variable {x y z s : Float} {q : ℚ}

/-- The value of a double; zero for what has none. -/
def toRat (x : Float) : ℚ := value x.toModel.unpack

@[simp] theorem toRat_zero : toRat 0 = 0 := rfl

theorem isFinite_zero : (0 : Float).isFinite = true := rfl

@[simp] theorem toRat_one : toRat 1 = 1 := by
  change ((2 ^ 52 : ℕ) : ℚ) * 2 ^ (-52 : ℤ) = 1
  norm_num

theorem isFinite_one : (1 : Float).isFinite = true := rfl

/-! ## Finite doubles -/

theorem le_iff_toRat (hx : x.isFinite = true) (hy : y.isFinite = true) : x ≤ y ↔ toRat x ≤ toRat y := by
  rw [float_le_iff, ← le_iff]
  exact le_iff_value (held_unpack hx) (held_unpack hy)

theorem lt_iff_toRat (hx : x.isFinite = true) (hy : y.isFinite = true) : x < y ↔ toRat x < toRat y := by
  rw [float_lt_iff, le_iff_toRat hx hy, le_iff_toRat hy hx, lt_iff_le_not_ge]

theorem le_self_of_isFinite (hx : x.isFinite = true) : x ≤ x := (le_iff_toRat hx hx).2 le_rfl

theorem not_lt_iff_le (hx : x.isFinite = true) (hy : y.isFinite = true) : ¬ y < x ↔ x ≤ y := by
  rw [lt_iff_toRat hy hx, le_iff_toRat hx hy, not_lt]

theorem isFinite_iff (u : UnpackedFloat) : u.isFinite = true ↔
    ∃ a ∈ place? u, toLex (-2, toLex (0, 0)) < a ∧ a < toLex (2, toLex (0, 0)) := by
  rcases u with (_ | _) | _ | _ | ⟨_ | _, m, e, _⟩ <;>
    simp [UnpackedFloat.isFinite, place?, Prod.Lex.toLex_lt_toLex]

/-- What lies between finite doubles is finite. -/
theorem isFinite_of_between (hx : x.isFinite = true) (hz : z.isFinite = true) (hxy : x ≤ y) (hyz : y ≤ z) :
    y.isFinite = true := by
  obtain ⟨a, ha, b, hb, hab⟩ := (float_le_iff x y).1 hxy
  obtain ⟨b', hb', c, hc, hbc⟩ := (float_le_iff y z).1 hyz
  obtain ⟨a', ha', hlow, -⟩ := (isFinite_iff _).1 hx
  obtain ⟨c', hc', -, hhigh⟩ := (isFinite_iff _).1 hz
  obtain rfl := Option.mem_unique ha ha'
  obtain rfl := Option.mem_unique hb hb'
  obtain rfl := Option.mem_unique hc hc'
  exact (isFinite_iff _).2 ⟨b, hb, hlow.trans_le hab, hbc.trans_lt hhigh⟩

/-- The least positive double. -/
def least : Float := Float.ofBits 1

theorem isFinite_least : least.isFinite = true := rfl

theorem pos_least : 0 < least := by decide +kernel

theorem toRat_least : toRat least = 2 ^ (-1074 : ℤ) := by
  change ((1 : ℕ) : ℚ) * 2 ^ (-1074 : ℤ) = _
  rw [Nat.cast_one, one_mul]

theorem toRat_least_pos : 0 < toRat least := (lt_iff_toRat isFinite_zero isFinite_least).1 pos_least

/-- Finite doubles are multiples of the least positive one. -/
theorem exists_toRat_eq (hx : x.isFinite = true) : ∃ n : ℤ, toRat x = n * toRat least := by
  have hheld := held_unpack hx
  rw [toRat_least]
  unfold toRat
  cases hu : x.toModel.unpack with
  | finite s m e hm =>
    rw [hu] at hheld
    obtain ⟨k, hk⟩ : ∃ k : ℕ, e = -1074 + k := ⟨(e + 1074).toNat, by have := hheld.1.low; omega⟩
    refine ⟨s.apply (m * 2 ^ k : ℕ), ?_⟩
    rw [hk, value, zpow_add₀ two_ne_zero, zpow_natCast]
    generalize (2 : ℚ) ^ (-1074 : ℤ) = unit
    cases s <;> simp only [Sign.apply, signed] <;> push_cast <;> ring
  | _ => exact ⟨0, by simp [value]⟩

/-! ## Rounded results -/

theorem le_of_rounded (h : Rounded q x.toModel.unpack) (hz : z.isFinite = true) (hle : toRat z ≤ q) : z ≤ x := by
  rw [float_le_iff, ← le_iff]
  exact h.above _ (held_unpack hz) hle

theorem le_of_rounded' (h : Rounded q x.toModel.unpack) (hz : z.isFinite = true) (hle : q ≤ toRat z) : x ≤ z := by
  rw [float_le_iff, ← le_iff]
  exact h.below _ (held_unpack hz) hle

/-- What a rational number is rounded to is a number. -/
theorem le_self_of_rounded (h : Rounded q x.toModel.unpack) : x ≤ x := by
  rcases le_total 0 q with hq | hq
  · exact (OrderedScalar.ordered_of_le (le_of_rounded h isFinite_zero hq)).2
  · exact (OrderedScalar.ordered_of_le (le_of_rounded' h isFinite_zero hq)).1

theorem rounded_float_add (hx : x.isFinite = true) (hy : y.isFinite = true) :
    Rounded (toRat x + toRat y) (x + y).toModel.unpack := rounded_add (held_unpack hx) (held_unpack hy)

theorem rounded_float_sub (hx : x.isFinite = true) (hy : y.isFinite = true) :
    Rounded (toRat x - toRat y) (x - y).toModel.unpack := rounded_sub (held_unpack hx) (held_unpack hy)

theorem rounded_float_mul (hx : x.isFinite = true) (hy : y.isFinite = true) :
    Rounded (toRat x * toRat y) (x * y).toModel.unpack := rounded_mul (held_unpack hx) (held_unpack hy)

theorem rounded_float_div (hx : x.isFinite = true) (hy : y.isFinite = true) (hne : toRat y ≠ 0) :
    Rounded (toRat x / toRat y) (x / y).toModel.unpack := rounded_div (held_unpack hx) (held_unpack hy) hne

/-- What is more than zero is not rounded to zero if it is a multiple of the least positive double. -/
theorem pos_of_rounded {n : ℤ} (h : Rounded (n * toRat least) x.toModel.unpack) (hn : 0 < n) : 0 < x := by
  have hle : toRat least ≤ n * toRat least := le_mul_of_one_le_left toRat_least_pos.le (by exact_mod_cast hn)
  exact OrderedScalar.lt_of_lt_of_le pos_least (le_of_rounded h isFinite_least hle)

/-- What is less than zero is not rounded to zero, either. -/
theorem neg_of_rounded {n : ℤ} (h : Rounded (n * toRat least) x.toModel.unpack) (hn : n < 0) : x < 0 := by
  have hneg : toRat (-least) = -toRat least := value_neg least.toModel.unpack
  have hle : n * toRat least ≤ toRat (-least) := by
    rw [hneg, ← neg_one_mul]
    exact mul_le_mul_of_nonneg_right (by exact_mod_cast Int.le_sub_one_of_lt hn) toRat_least_pos.le
  exact OrderedScalar.lt_of_le_of_lt (le_of_rounded' h rfl hle) (by decide +kernel)

/-! ## Sums and differences -/

theorem rounded_sub_least (hx : x.isFinite = true) (hy : y.isFinite = true) :
    ∃ n : ℤ, Rounded (n * toRat least) (x - y).toModel.unpack ∧ (0 < n ↔ y < x) ∧ (n < 0 ↔ x < y) := by
  have hsub := rounded_float_sub hx hy
  rw [lt_iff_toRat hy hx, lt_iff_toRat hx hy]
  obtain ⟨a, ha⟩ := exists_toRat_eq hx
  obtain ⟨b, hb⟩ := exists_toRat_eq hy
  rw [ha, hb, ← sub_mul, ← Int.cast_sub] at hsub
  rw [ha, hb, mul_lt_mul_iff_left₀ toRat_least_pos, mul_lt_mul_iff_left₀ toRat_least_pos, Int.cast_lt, Int.cast_lt]
  exact ⟨a - b, hsub, by omega, by omega⟩

/-- A difference is positive exactly if it is taken from the larger double. -/
theorem pos_sub_iff (hx : x.isFinite = true) (hy : y.isFinite = true) : 0 < x - y ↔ y < x := by
  obtain ⟨n, hround, hpos, -⟩ := rounded_sub_least hx hy
  refine ⟨fun h => ?_, fun h => pos_of_rounded hround (hpos.2 h)⟩
  by_contra hle
  have hn : (n : ℚ) * toRat least ≤ 0 :=
    mul_nonpos_of_nonpos_of_nonneg (Int.cast_nonpos.2 (not_lt.1 fun hn => hle (hpos.1 hn))) toRat_least_pos.le
  exact OrderedScalar.not_lt_of_le (le_of_rounded' hround isFinite_zero hn) h

/-- A difference is negative exactly if it is taken from the smaller double. -/
theorem sub_neg_iff (hx : x.isFinite = true) (hy : y.isFinite = true) : x - y < 0 ↔ x < y := by
  obtain ⟨n, hround, -, hneg⟩ := rounded_sub_least hx hy
  refine ⟨fun h => ?_, fun h => neg_of_rounded hround (hneg.2 h)⟩
  by_contra hge
  have hn : 0 ≤ (n : ℚ) * toRat least :=
    mul_nonneg (Int.cast_nonneg (not_lt.1 fun hn => hge (hneg.1 hn))) toRat_least_pos.le
  exact OrderedScalar.not_lt_of_le (le_of_rounded hround isFinite_zero hn) h

/-- What is taken from a double leaves at most the double. -/
theorem sub_le_self (hs : 0 ≤ s) (hsfin : s.isFinite = true) (hx : x.isFinite = true) : x - s ≤ x := by
  have hs : 0 ≤ toRat s := (le_iff_toRat isFinite_zero hsfin).1 hs
  exact le_of_rounded' (rounded_float_sub hx hsfin) hx (by linarith)

/-- What is added to a double leaves at least the double. -/
theorem le_add_self (hs : 0 ≤ s) (hsfin : s.isFinite = true) (hx : x.isFinite = true) : x ≤ x + s := by
  have hs : 0 ≤ toRat s := (le_iff_toRat isFinite_zero hsfin).1 hs
  exact le_of_rounded (rounded_float_add hx hsfin) hx (by linarith)

/-! ## Infinity -/

theorem le_self_iff : x ≤ x ↔ x.toModel.unpack ≠ .notANumber := by
  rw [float_le_iff]
  rcases x.toModel.unpack with (_ | _) | _ | _ | ⟨_ | _, m, e, _⟩ <;> simp [place?]

theorem unpack_of_infinite (hx : x ≤ x) (hfin : ¬ x.isFinite = true) : ∃ s, x.toModel.unpack = .infinity s := by
  have hnumber := le_self_iff.1 hx
  change ¬ x.toModel.unpack.isFinite = true at hfin
  cases hu : x.toModel.unpack with
  | infinity s => exact ⟨s, rfl⟩
  | notANumber => exact absurd hu hnumber
  | _ => simp [hu, UnpackedFloat.isFinite] at hfin

theorem unpack_of_nonneg_of_infinite (hx : 0 ≤ x) (hfin : ¬ x.isFinite = true) :
    x.toModel.unpack = .infinity .positive := by
  obtain ⟨s, hs⟩ := unpack_of_infinite (OrderedScalar.ordered_of_le hx).2 hfin
  cases s with
  | positive => exact hs
  | negative =>
    obtain ⟨a, ha, b, hb, hab⟩ := (float_le_iff 0 x).1 hx
    rw [hs] at hb
    cases ha
    cases hb
    simp [Prod.Lex.toLex_le_toLex] at hab

theorem neg_iff (x : Float) : x < 0 ↔ Positive x.toModel.unpack.neg := by
  change Float.lt x 0 = true ↔ _
  rw [Float.lt, decide_eq_true_iff]
  change UnpackedFloat.lt x.toModel.unpack (.zero .positive) = true ↔ _
  rcases x.toModel.unpack with (_ | _) | _ | _ | ⟨_ | _, m, e, _⟩ <;>
    simp [UnpackedFloat.lt, UnpackedFloat.compare, Positive, UnpackedFloat.neg]

theorem unpack_infinity (s : Sign) :
    UnpackedFloat.unpack .binary64 (UnpackedFloat.pack .binary64 (.infinity s)) = .infinity s := by
  simp only [UnpackedFloat.pack, UnpackedFloat.unpack, packedInfinity, unpackExponent_packComponents,
    unpackMantissa_packComponents, unpackSign_packComponents]
  rfl

theorem unpack_add_infinity (hx : x.isFinite = true) {s : Sign} (hy : y.toModel.unpack = .infinity s) :
    (x + y).toModel.unpack = .infinity s := by
  change UnpackedFloat.unpack _ (UnpackedFloat.pack _ (UnpackedFloat.add _ x.toModel.unpack y.toModel.unpack)) = _
  change x.toModel.unpack.isFinite = true at hx
  rw [hy]
  cases hu : x.toModel.unpack with
  | finite s' m e hm => exact unpack_infinity s
  | zero s' => exact unpack_infinity s
  | _ => simp [hu, UnpackedFloat.isFinite] at hx

theorem unpack_mul_infinity {s s' : Sign} {m : ℕ} {e : ℤ} {hm : 0 < m} (hx : x.toModel.unpack = .finite s m e hm)
    (hy : y.toModel.unpack = .infinity s') : (x * y).toModel.unpack = .infinity (s * s') := by
  change UnpackedFloat.unpack _ (UnpackedFloat.pack _ (UnpackedFloat.mul _ x.toModel.unpack y.toModel.unpack)) = _
  rw [hx, hy]
  exact unpack_infinity (s * s')

theorem unpack_infinity_mul {s s' : Sign} {m : ℕ} {e : ℤ} {hm : 0 < m} (hx : x.toModel.unpack = .infinity s)
    (hy : y.toModel.unpack = .finite s' m e hm) : (x * y).toModel.unpack = .infinity (s * s') := by
  change UnpackedFloat.unpack _ (UnpackedFloat.pack _ (UnpackedFloat.mul _ x.toModel.unpack y.toModel.unpack)) = _
  rw [hx, hy]
  exact unpack_infinity (s * s')

/-- A sum of a finite double and a number is a number. -/
theorem add_number (hx : x.isFinite = true) (hy : y ≤ y) : x + y ≤ x + y := by
  by_cases hyfin : y.isFinite = true
  · exact le_self_of_rounded (rounded_float_add hx hyfin)
  · obtain ⟨s, hs⟩ := unpack_of_infinite hy hyfin
    rw [le_self_iff, unpack_add_infinity hx hs]
    nofun

/-- A product of a number and a finite positive double is a number. -/
theorem mul_number (hx : x ≤ x) (hy : 0 < y) (hyfin : y.isFinite = true) : x * y ≤ x * y := by
  by_cases hxfin : x.isFinite = true
  · exact le_self_of_rounded (rounded_float_mul hxfin hyfin)
  · obtain ⟨s, hs⟩ := unpack_of_infinite hx hxfin
    obtain ⟨m, e, hm, hu, -⟩ := unpack_of_pos hy hyfin
    rw [le_self_iff, unpack_infinity_mul hs hu]
    nofun

/-! ## Products and quotients -/

/-- A product of finite doubles that are not negative is not negative. -/
theorem mul_nonneg_of_isFinite (hx : x.isFinite = true) (hy : y.isFinite = true) (hx0 : 0 ≤ x) (hy0 : 0 ≤ y) :
    0 ≤ x * y := by
  have hx0 : 0 ≤ toRat x := (le_iff_toRat isFinite_zero hx).1 hx0
  have hy0 : 0 ≤ toRat y := (le_iff_toRat isFinite_zero hy).1 hy0
  exact le_of_rounded (rounded_float_mul hx hy) isFinite_zero (mul_nonneg hx0 hy0)

/-- A product of a finite double that is negative and one that is not is not positive. -/
theorem mul_nonpos_of_isFinite (hx : x.isFinite = true) (hy : y.isFinite = true) (hx0 : x ≤ 0) (hy0 : 0 ≤ y) :
    x * y ≤ 0 := by
  have hx0 : toRat x ≤ 0 := (le_iff_toRat hx isFinite_zero).1 hx0
  have hy0 : 0 ≤ toRat y := (le_iff_toRat isFinite_zero hy).1 hy0
  exact le_of_rounded' (rounded_float_mul hx hy) isFinite_zero (mul_nonpos_of_nonpos_of_nonneg hx0 hy0)

/-- One of several equal parts of a double that is not negative: it is not negative,
either, and it is finite if the double is. -/
theorem div_parts (hx : 0 ≤ x) (hy : y.isFinite = true) (hy1 : 1 ≤ y) :
    0 ≤ x / y ∧ ((x / y).isFinite = true ↔ x.isFinite = true) := by
  have hone : 1 ≤ toRat y := toRat_one ▸ (le_iff_toRat isFinite_one hy).1 hy1
  by_cases hxfin : x.isFinite = true
  · have hx0 : 0 ≤ toRat x := (le_iff_toRat isFinite_zero hxfin).1 hx
    have hdiv := rounded_float_div hxfin hy (by linarith)
    have hnonneg := le_of_rounded hdiv isFinite_zero (div_nonneg hx0 (by linarith))
    have hle := le_of_rounded' hdiv hxfin (div_le_self hx0 hone)
    exact ⟨hnonneg, iff_of_true (isFinite_of_between isFinite_zero hxfin hnonneg hle) hxfin⟩
  · obtain ⟨m, e, hm, hu, -⟩ := unpack_of_pos (OrderedScalar.lt_of_lt_of_le (by decide +kernel) hy1) hy
    have hdiv : (x / y).toModel.unpack = .infinity .positive := by
      change UnpackedFloat.unpack _ (UnpackedFloat.pack _ (UnpackedFloat.div _ x.toModel.unpack y.toModel.unpack)) = _
      rw [unpack_of_nonneg_of_infinite hx hxfin, hu]
      exact unpack_infinity .positive
    have hinfinite : ¬ (x / y).isFinite = true := by
      change ¬ (x / y).toModel.unpack.isFinite = true
      rw [hdiv]
      exact Bool.false_ne_true
    refine ⟨OrderedScalar.le_of_lt ((pos_iff _).2 ?_), iff_of_false hinfinite hxfin⟩
    rw [hdiv]
    trivial

theorem mul_nonnumber_of_zero {s' : Sign} (hx : x.toModel.unpack = .zero s')
    (hy : y.toModel.unpack = .infinity .positive) : ¬ x * y ≤ x * y := by
  have hmul : (x * y).toModel.unpack = .notANumber := by
    change UnpackedFloat.unpack _ (UnpackedFloat.pack _ (UnpackedFloat.mul _ x.toModel.unpack y.toModel.unpack)) = _
    rw [hx, hy]
    cases s' <;> rfl
  rw [le_self_iff, hmul, not_not]

/-- A product with infinity has the sign of the other factor, and is no number if this is zero. -/
theorem mul_infinity_cases (hx : x.isFinite = true) (hy : y.toModel.unpack = .infinity .positive) :
    0 < x ∧ 0 < x * y ∨ x < 0 ∧ x * y < 0 ∨ ¬ 0 < x ∧ ¬ x < 0 ∧ ¬ x * y ≤ x * y := by
  change x.toModel.unpack.isFinite = true at hx
  cases hu : x.toModel.unpack with
  | finite s' m e hm =>
    have hmul := unpack_mul_infinity hu hy
    cases s' with
    | positive =>
      refine .inl ⟨(pos_iff x).2 ?_, (pos_iff (x * y)).2 ?_⟩
      · rw [hu]; trivial
      · rw [hmul]; trivial
    | negative =>
      refine .inr (.inl ⟨(neg_iff x).2 ?_, (neg_iff (x * y)).2 ?_⟩)
      · rw [hu]; trivial
      · rw [hmul]; trivial
  | zero s' =>
    refine .inr (.inr ⟨?_, ?_, mul_nonnumber_of_zero hu hy⟩)
    · rw [pos_iff, hu]; exact not_false
    · rw [neg_iff, hu]; exact not_false
  | _ => simp [hu, UnpackedFloat.isFinite] at hx

/-- A product of a finite double with one that is not negative is negative exactly if the
first is, unless it is rounded to zero. -/
theorem mul_neg_iff_of_nonneg (hx : x.isFinite = true) (hy : 0 ≤ y) :
    x * y < 0 ↔ x < 0 ∧ Scalar.isZero (x * y) = false := by
  have hnotZero : x * y < 0 → Scalar.isZero (x * y) = false := fun h => by
    rw [Bool.eq_false_iff, ne_eq, OrderedScalar.isZero_iff]
    exact fun hz => OrderedScalar.not_lt_of_le hz.2 h
  by_cases hyfin : y.isFinite = true
  · refine ⟨fun h => ⟨?_, hnotZero h⟩, fun ⟨hneg, hz⟩ => ?_⟩
    · by_contra hx0
      have hx0 := OrderedScalar.le_of_not_lt (le_self_of_isFinite hx) OrderedScalar.zero_le_zero hx0
      exact OrderedScalar.not_lt_of_le (mul_nonneg_of_isFinite hx hyfin hx0 hy) h
    · have hle := mul_nonpos_of_isFinite hx hyfin (OrderedScalar.le_of_lt hneg) hy
      refine (OrderedScalar.lt_iff _ _).2 ⟨hle, fun hge => ?_⟩
      rw [OrderedScalar.isZero_iff.2 ⟨hle, hge⟩] at hz
      cases hz
  · rcases mul_infinity_cases hx (unpack_of_nonneg_of_infinite hy hyfin) with ⟨hx0, hxy⟩ | ⟨hx0, hxy⟩ | ⟨-, hx0, hxy⟩
    · refine iff_of_false (fun h => ?_) fun h => ?_
      · exact OrderedScalar.not_lt_of_le (OrderedScalar.le_of_lt hxy) h
      · exact OrderedScalar.not_lt_of_le (OrderedScalar.le_of_lt hx0) h.1
    · exact iff_of_true hxy ⟨hx0, hnotZero hxy⟩
    · refine iff_of_false (fun h => ?_) fun h => hx0 h.1
      exact hxy (OrderedScalar.ordered_of_le (OrderedScalar.le_of_lt h)).1

/-- The product is at least zero exactly if the first factor is, or it is rounded to zero;
where the second factor is infinite, only if the first is positive. -/
theorem nonneg_mul_iff_of_nonneg (hx : x.isFinite = true) (hy : 0 ≤ y) :
    0 ≤ x * y ↔ 0 < x ∨ y.isFinite = true ∧ (0 ≤ x ∨ Scalar.isZero (x * y) = true) := by
  by_cases hyfin : y.isFinite = true
  · have hxself := le_self_of_isFinite hx
    refine ⟨fun h => .inr ⟨hyfin, ?_⟩, fun h => ?_⟩
    · by_cases hx0 : x < 0
      · have hle := mul_nonpos_of_isFinite hx hyfin (OrderedScalar.le_of_lt hx0) hy
        exact .inr (OrderedScalar.isZero_iff.2 ⟨hle, h⟩)
      · exact .inl (OrderedScalar.le_of_not_lt hxself OrderedScalar.zero_le_zero hx0)
    · rcases h with hx0 | ⟨-, hx0 | hz⟩
      · exact mul_nonneg_of_isFinite hx hyfin (OrderedScalar.le_of_lt hx0) hy
      · exact mul_nonneg_of_isFinite hx hyfin hx0 hy
      · exact (OrderedScalar.isZero_iff.1 hz).2
  · simp only [hyfin, Bool.false_eq_true, false_and, or_false]
    rcases mul_infinity_cases hx (unpack_of_nonneg_of_infinite hy hyfin) with ⟨hx0, hxy⟩ | ⟨hx0, hxy⟩ | ⟨hx0, -, hxy⟩
    · exact iff_of_true (OrderedScalar.le_of_lt hxy) hx0
    · refine iff_of_false (fun h => OrderedScalar.not_lt_of_le h hxy) fun h => ?_
      exact OrderedScalar.not_lt_of_le (OrderedScalar.le_of_lt h) hx0
    · exact iff_of_false (fun h => hxy (OrderedScalar.ordered_of_le h).2) hx0

/-! ## Counts -/

/-- A double that is larger than all counts. -/
def aboveCounts : Float := Float.ofBits 0x43E0000000000000

theorem toRat_aboveCounts : toRat aboveCounts = 2 ^ 63 := by
  change ((2 ^ 52 : ℕ) : ℚ) * 2 ^ (11 : ℤ) = _
  norm_num

theorem rounded_toFloat {n : ℕ} (hn : n < 2 ^ 53) : Rounded n n.toUInt64.toFloat.toModel.unpack := by
  have hround := rounded_normalize n 0 .positive
  have hnat : (n.toUInt64.toNat : ℤ) = n := by
    rw [Nat.toUInt64_eq, UInt64.toNat_ofNat', Nat.mod_eq_of_lt (by omega)]
  rw [zpow_zero, mul_one, Int.cast_natCast, ← hnat] at hround
  exact hround

theorem rounded_ofScientific {n : ℕ} (hn : 2 ^ 53 ≤ n) :
    Rounded n (UnpackedFloat.unpack .binary64
      (UnpackedFloat.pack .binary64 (UnpackedFloat.ofScientific .binary64 n 0))) := by
  have hq : Approximates n (n <<< 53 * 10 ^ 0) (-53 + 0) .exact := by
    change (_ : ℚ) = _
    rw [Nat.shiftLeft_eq]
    push_cast
    norm_num
    ring
  have hlog : 52 ≤ (n <<< 53 * 10 ^ 0).log2 := by
    rw [pow_zero, mul_one, Nat.le_log2 (by rw [Nat.shiftLeft_eq]; omega), Nat.shiftLeft_eq]
    omega
  have hround := rounded_pack .positive hq (by omega)
  rw [UnpackedFloat.ofScientific, dif_neg (by omega), if_neg (by decide), if_neg (by simp), if_pos le_rfl]
  exact hround

/-- The scalar that stands for a count is finite, and at least one if the count is. -/
theorem ofNat_between {n : ℕ} (hn : 0 < n) (hlimit : n ≤ 2 ^ 63) :
    1 ≤ (Scalar.ofNat n : Float) ∧ (Scalar.ofNat n : Float).isFinite = true := by
  have hone : toRat 1 ≤ n := by rw [toRat_one]; exact_mod_cast hn
  have hlarge : (n : ℚ) ≤ toRat aboveCounts := by rw [toRat_aboveCounts]; exact_mod_cast hlimit
  have hbetween : ∀ {y : Float} {q : ℚ}, Rounded q y.toModel.unpack → toRat 1 ≤ q → q ≤ toRat aboveCounts →
      1 ≤ y ∧ y ≤ aboveCounts ∧ y.isFinite = true := by
    intro y q hround hlow hhigh
    have hlow := le_of_rounded hround isFinite_one hlow
    have hhigh := le_of_rounded' hround (z := aboveCounts) rfl hhigh
    exact ⟨hlow, hhigh, isFinite_of_between isFinite_one rfl hlow hhigh⟩
  by_cases hsmall : n < 2 ^ 53
  · obtain ⟨hlow, hhigh, hfin⟩ := hbetween (rounded_toFloat hsmall) hone hlarge
    have hmul : (Scalar.ofNat n : Float) = n.toUInt64.toFloat * 1 := dif_pos ⟨hsmall, by decide⟩
    have hround := rounded_float_mul hfin isFinite_one
    rw [toRat_one, mul_one] at hround
    rw [hmul]
    obtain ⟨hlow', -, hfin'⟩ :=
      hbetween hround ((le_iff_toRat isFinite_one hfin).1 hlow) ((le_iff_toRat hfin rfl).1 hhigh)
    exact ⟨hlow', hfin'⟩
  · have hscientific : (Scalar.ofNat n : Float).toModel.unpack = UnpackedFloat.unpack .binary64
        (UnpackedFloat.pack .binary64 (UnpackedFloat.ofScientific .binary64 n 0)) := by
      change (Float.ofScientific n false 0).toModel.unpack = _
      rw [Float.ofScientific, dif_neg fun h => hsmall h.1]
      rfl
    have hround := rounded_ofScientific (not_lt.1 hsmall)
    rw [← hscientific] at hround
    obtain ⟨hlow, -, hfin⟩ := hbetween hround hone hlarge
    exact ⟨hlow, hfin⟩

/-! ## Intervals around a double -/

/-- Three times a double is at least the double. -/
theorem le_three_mul (hs : 0 ≤ s) (hsfin : s.isFinite = true) : s ≤ Scalar.ofNat 3 * s := by
  have hs : 0 ≤ toRat s := (le_iff_toRat isFinite_zero hsfin).1 hs
  have hthree : toRat (Scalar.ofNat 3) = 3 := by
    change ((3 * 2 ^ 51 : ℕ) : ℚ) * 2 ^ (-51 : ℤ) = 3
    norm_num
  refine le_of_rounded (rounded_float_mul (x := Scalar.ofNat 3) rfl hsfin) hsfin ?_
  rw [hthree]
  linarith

/-- Three deviations that do not reach below zero are finite. -/
theorem isFinite_three_mul (hs : 0 < s) (hsfin : s.isFinite = true) (hx : x.isFinite = true)
    (hreach : ¬ x < Scalar.ofNat 3 * s) :
    0 < Scalar.ofNat 3 * s ∧ Scalar.ofNat 3 * s ≤ x ∧ (Scalar.ofNat 3 * s).isFinite = true := by
  have hle := le_three_mul (OrderedScalar.le_of_lt hs) hsfin
  have hpos := OrderedScalar.lt_of_lt_of_le hs hle
  have hbelow := OrderedScalar.le_of_not_lt (le_self_of_isFinite hx) (OrderedScalar.ordered_of_le hle).2 hreach
  exact ⟨hpos, hbelow, isFinite_of_between isFinite_zero hx (OrderedScalar.le_of_lt hpos) hbelow⟩

/-- The interval of three deviations around a value is not turned around, unless
it reaches below zero. -/
theorem spread_le (hs : 0 < s) (hsfin : s.isFinite = true) (hx : x.isFinite = true)
    (hreach : ¬ x < Scalar.ofNat 3 * s) : x - Scalar.ofNat 3 * s ≤ x + Scalar.ofNat 3 * s := by
  obtain ⟨hpos, -, hfin⟩ := isFinite_three_mul hs hsfin hx hreach
  have hnonneg := OrderedScalar.le_of_lt hpos
  exact OrderedScalar.trans (sub_le_self hnonneg hfin hx) (le_add_self hnonneg hfin hx)

end Inflow.Double
