import Mathlib
import Inflow.Proofs.Apportion.Draws
import Inflow.Proofs.Sampling.Lookup
import Inflow.Proofs.Scalar.Exact
import Inflow.Proofs.Scalar.Rational
/-!
# Sampling in proportion to weight

Read as exact, the entries of a table are the partial sums themselves, and scaled
to `[0, 1]` they cut this interval into one piece for each element, as long as the
element's share of the total weight. The search for a draw finds the piece that the
draw lies in: it is open at its lower end and closed at its upper one.
-/

namespace Inflow

variable {α : Type} [ExactScalar α]

/-! ## Exact sums -/

theorem sum_take_le {ws : List α} (h : ∀ w ∈ ws, 0 ≤ w) {i j : Nat} (hij : i ≤ j) :
    (ws.take i).sum ≤ (ws.take j).sum := by
  obtain ⟨vs, hvs⟩ := List.take_prefix_take_left (l := ws) hij
  have hnonneg : 0 ≤ vs.sum := by
    refine List.sum_nonneg fun v hv => h v (List.mem_of_mem_take (i := j) ?_)
    rw [← hvs]
    exact List.mem_append_right _ hv
  rw [← hvs, List.sum_append]
  exact le_add_of_nonneg_right hnonneg

/-- Exact sums lose nothing, and weights that are not negative never make them step back. -/
theorem RunningSum.after_eq {ws : List α} (h : ∀ w ∈ ws, 0 ≤ w) : after ws = ⟨ws.sum, 0, ws.sum⟩ := by
  induction ws using List.reverseRecOn with
  | nil => rfl
  | append_singleton ws w ih =>
    have hw : 0 ≤ w := h w (by simp)
    rw [after_concat, ih fun v hv => h v (by simp [hv]), List.sum_append, List.sum_singleton]
    unfold add
    split
    · rename_i hzero
      rw [ExactScalar.isZero_iff_eq.1 hzero, add_zero]
    · rename_i hne
      have hpos : 0 < w := lt_of_le_of_ne hw fun h0 => hne (ExactScalar.isZero_iff_eq.2 h0.symm)
      simp only [sub_zero, add_sub_cancel_left, sub_self]
      rw [Scalar.larger, if_pos (lt_add_of_pos_right _ hpos)]

namespace Cumulative

variable {ws : List α}

/-- The part of the total weight that stands before element `i`. -/
def shareBefore (ws : List α) (i : Nat) : α := (ws.take i).sum / ws.sum

theorem shareBefore_zero (ws : List α) : shareBefore ws 0 = 0 := by simp [shareBefore]

theorem shareBefore_of_length_le (hpos : 0 < ws.sum) {i : Nat} (hi : ws.length ≤ i) : shareBefore ws i = 1 := by
  rw [shareBefore, List.take_of_length_le hi, div_self hpos.ne']

theorem shareBefore_le (hws : ∀ w ∈ ws, 0 ≤ w) (hpos : 0 < ws.sum) {i j : Nat} (hij : i ≤ j) :
    shareBefore ws i ≤ shareBefore ws j :=
  div_le_div_of_nonneg_right (sum_take_le hws hij) hpos.le

/-- The piece of an element is as long as its share of the total weight. -/
theorem shareBefore_succ_sub {i : Nat} {w : α} (hw : ws[i]? = some w) :
    shareBefore ws (i + 1) - shareBefore ws i = w / ws.sum := by
  rw [shareBefore, shareBefore, List.take_add_one, hw, Option.toList_some, List.sum_append, List.sum_singleton,
    ← sub_div, add_sub_cancel_left]

/-! ## Tables -/

theorem entry_eq_sum (hws : ∀ w ∈ ws, 0 ≤ w) {i : Nat} (hi : i < ws.length) :
    (ofWeights ws).entries[i]? = some (ws.take (i + 1)).sum := by
  rw [entry_eq ws hi, RunningSum.after_eq fun w hw => hws w (List.mem_of_mem_take hw)]

theorem total_eq_sum (hws : ∀ w ∈ ws, 0 ≤ w) : (ofWeights ws).total = ws.sum := by
  rw [total_eq, RunningSum.after_eq hws]

theorem toList_entries (hws : ∀ w ∈ ws, 0 ≤ w) :
    (ofWeights ws).entries.toList = (List.range ws.length).map fun i => (ws.take (i + 1)).sum := by
  refine List.ext_getElem? fun i => ?_
  rw [Array.getElem?_toList, List.getElem?_map]
  rcases lt_or_ge i ws.length with hi | hi
  · rw [entry_eq_sum hws hi, List.getElem?_range hi, Option.map_some]
  · rw [Array.getElem?_eq_none (by rwa [size_entries]), List.getElem?_eq_none (by rwa [List.length_range]),
      Option.map_none]

/-! ## Normalized tables -/

variable (hws : ∀ w ∈ ws, 0 ≤ w) (hpos : 0 < ws.sum)

include hws hpos in
theorem entry_normalize {i : Nat} (hi : i < ws.length) :
    (ofWeights ws).normalize.entries[i]? = some (shareBefore ws (i + 1)) := by
  have htotal := total_eq_sum hws
  rw [entries_normalize (htotal ▸ hpos), Array.getElem?_map, entry_eq_sum hws hi, htotal, Option.map_some, shareBefore,
    mul_one_div]

include hws hpos in
theorem lt_of_entry_normalize {i : Nat} {v : α} (h : (ofWeights ws).normalize.entries[i]? = some v) :
    i < ws.length ∧ v = shareBefore ws (i + 1) := by
  obtain ⟨hlt, -⟩ := Array.getElem?_eq_some_iff.1 h
  rw [size_normalize, size_entries] at hlt
  rw [entry_normalize hws hpos hlt, Option.some.injEq] at h
  exact ⟨hlt, h.symm⟩

include hws hpos in
theorem climbs_normalize : Climbs (ofWeights ws).normalize.entries where
  zero_le v hv := by
    obtain ⟨i, hi⟩ := Array.mem_iff_getElem?.1 hv
    obtain ⟨-, rfl⟩ := lt_of_entry_normalize hws hpos hi
    exact shareBefore_zero ws ▸ shareBefore_le hws hpos (Nat.zero_le _)
  le hij hu hv := by
    obtain ⟨-, rfl⟩ := lt_of_entry_normalize hws hpos hu
    obtain ⟨-, rfl⟩ := lt_of_entry_normalize hws hpos hv
    exact shareBefore_le hws hpos (by omega)

include hws hpos in
theorem size_normalize_pos : 0 < (ofWeights ws).normalize.entries.size := by
  rw [size_normalize]
  exact entries_pos (total_eq_sum hws ▸ hpos)

include hws hpos in
theorem lastEntry_normalize : lastEntry (ofWeights ws).normalize.entries = 1 := by
  have hlast := getElem?_lastEntry (size_normalize_pos hws hpos)
  rw [(lt_of_entry_normalize hws hpos hlast).2]
  exact shareBefore_of_length_le hpos (by rw [size_normalize, size_entries]; omega)

include hws hpos in
/-- A draw first reaches the entry of the element whose piece it lies in. -/
theorem firstReaching_iff {x : α} (hx : 0 < x) (hone : x ≤ 1) {i : Nat} :
    FirstReaching (ofWeights ws).normalize.entries x i ↔ x ∈ Set.Ioc (shareBefore ws i) (shareBefore ws (i + 1)) := by
  constructor
  · intro h
    obtain ⟨v, hv, hxv⟩ := h.reached
    obtain ⟨hi, rfl⟩ := lt_of_entry_normalize hws hpos hv
    refine ⟨?_, hxv⟩
    cases i with
    | zero => rwa [shareBefore_zero]
    | succ j => exact not_le.1 (h.before j (Nat.lt_succ_self j) _ (entry_normalize hws hpos (by omega)))
  · rintro ⟨hlow, hup⟩
    have hi : i < ws.length := by
      by_contra hge
      rw [shareBefore_of_length_le hpos (not_lt.1 hge)] at hlow
      exact absurd hone (not_le.2 hlow)
    refine ⟨⟨_, entry_normalize hws hpos hi, hup⟩, fun j hj u hu => ?_⟩
    obtain ⟨-, rfl⟩ := lt_of_entry_normalize hws hpos hu
    exact not_le.2 ((shareBefore_le hws hpos hj).trans_lt hlow)

include hws hpos in
theorem position_normalize_iff {x : α} (hx : 0 < x) (hone : x ≤ 1) {i : Nat} :
    position (ofWeights ws).normalize.entries x = i ↔ x ∈ Set.Ioc (shareBefore ws i) (shareBefore ws (i + 1)) := by
  have hsize := size_normalize_pos hws hpos
  have hfirst := (climbs_normalize hws hpos).firstReaching hsize x
  rw [lastEntry_normalize hws hpos, OrderedScalar.smaller_eq_left hone] at hfirst
  rw [← firstReaching_iff hws hpos hx hone]
  exact ⟨fun h => h ▸ hfirst, fun h => hfirst.eq_scan.trans h.eq_scan.symm⟩

/-! ## Draws -/

/-- What sampling by the weights `ws` comes to, without rounding. -/
structure InProportion (ws : List α) (c : Cumulative α) : Prop where
  entries : c.entries.toList = (List.range ws.length).map fun i => (ws.take (i + 1)).sum
  /-- On the way through the weights nothing was ever lost. -/
  lost : ∀ k, (RunningSum.after (ws.take k)).lost = 0
  /-- A draw selects the element whose piece it lies in, and is no overshoot. -/
  selects : ∀ u, 0 ≤ u → u < 1 → ∀ i, c.normalize.sample u = .ok (i, c.normalize) ↔
    max u Scalar.tiny ∈ Set.Ioc (shareBefore ws i) (shareBefore ws (i + 1))
  /-- Every draw selects an element. -/
  always : ∀ u, 0 ≤ u → u < 1 → ∃ i < ws.length, c.normalize.sample u = .ok (i, c.normalize)
  /-- The piece of an element is as long as its share of the total weight. -/
  piece : ∀ i w, ws[i]? = some w → shareBefore ws (i + 1) - shareBefore ws i = w / ws.sum

include hws hpos in
theorem sample_normalize {u : α} (hu : u ≤ 1) (htiny : (Scalar.tiny : α) ≤ 1) : (ofWeights ws).normalize.sample u =
    .ok (position (ofWeights ws).normalize.entries (max u Scalar.tiny), (ofWeights ws).normalize) := by
  have hsize := size_normalize_pos hws hpos
  have hlast := lastEntry_normalize hws hpos
  generalize (ofWeights ws).normalize = c at hsize hlast ⊢
  have hback : c.entries.back? = some 1 := by
    rw [← hlast, ← getElem?_lastEntry hsize]
    rfl
  have htolerance : (0 : α) ≤ overshootTolerance := by
    rw [overshootTolerance, Scalar.ratio, ExactScalar.ofNat_eq, ExactScalar.ofNat_eq]
    exact div_nonneg (Nat.cast_nonneg _) (Nat.cast_nonneg _)
  have hwithin : ¬ 1 * (1 + overshootTolerance) < max u (Scalar.tiny : α) := by
    rw [one_mul, not_lt]
    exact (max_le hu htiny).trans (le_add_of_nonneg_right htolerance)
  rw [sample, if_neg (by simpa using Array.ne_empty_of_size_pos hsize), select, ExactScalar.larger_eq_max, overshoots?,
    hback]
  simp only [hwithin, decide_false, Bool.false_eq_true, if_false, Nat.add_zero]

theorem inProportion_ofWeights {ws : List α} (htiny : (Scalar.tiny : α) ≤ 1) (hws : ∀ w ∈ ws, 0 ≤ w)
    (hpos : 0 < ws.sum) : InProportion ws (ofWeights ws) where
  entries := toList_entries hws
  lost k := by rw [RunningSum.after_eq fun w hw => hws w (List.mem_of_mem_take hw)]
  selects u _ hu i := by
    rw [sample_normalize hws hpos hu.le htiny, ← position_normalize_iff hws hpos
      (lt_max_of_lt_right ExactScalar.tiny_pos) (max_le hu.le htiny)]
    simp only [Except.ok.injEq, Prod.mk.injEq, and_true]
  always u _ hu := by
    refine ⟨_, ?_, sample_normalize hws hpos hu.le htiny⟩
    have hlt := (position_boundary _ (max u Scalar.tiny) (size_normalize_pos hws hpos)).1
    rwa [size_normalize, size_entries] at hlt
  piece _ _ := shareBefore_succ_sub

/-- Without rounding, a table of weights that are not negative and not all zero holds
their partial sums, and each draw selects an element in proportion to its weight. -/
theorem sampled_in_proportion (htiny : (Scalar.tiny : α) ≤ 1) (weights : Array α) (profile : Option (Array α))
    (hsize : ∀ values ∈ profile, values.size = weights.size) (hws : ∀ w ∈ summands weights.toList profile, 0 ≤ w)
    (hpos : 0 < (summands weights.toList profile).sum) :
    ∃ c, build weights profile = .ok c ∧ InProportion (summands weights.toList profile) c :=
  ⟨_, build_eq hsize, inProportion_ofWeights htiny hws hpos⟩

local instance : ExactScalar ℚ where
  __ := instScalarRat
  __ := Rat.instField
  __ := Rat.linearOrder
  __ := Rat.instIsStrictOrderedRing
  ofNat_eq _ := rfl
  tiny_pos := OrderedScalar.zero_lt_tiny

/-- Of the weights 0, 3, 0 and 1 the second has the draws up to three quarters, and the last all others. -/
theorem sampled_in_proportion_quarters : ∃ c : Cumulative ℚ, build #[0, 1, 0, 1] (some #[5, 3, 2, 1]) = .ok c ∧
    c.entries = #[0, 3, 3, 4] ∧ c.normalize.sample 0 = .ok (1, c.normalize) ∧
    c.normalize.sample (3 / 4) = .ok (1, c.normalize) ∧ c.normalize.sample (4 / 5) = .ok (3, c.normalize) := by
  obtain ⟨c, hc, h⟩ := sampled_in_proportion (α := ℚ) (by decide +kernel) #[0, 1, 0, 1] (some #[5, 3, 2, 1])
    (by rintro values ⟨⟩; rfl) (by decide +kernel) (by decide +kernel)
  rw [show summands [0, 1, 0, 1] (some #[5, 3, 2, 1]) = [(0 : ℚ), 3, 0, 1] by decide +kernel] at h
  refine ⟨c, hc, ?_, (h.selects 0 ?_ ?_ 1).2 ?_, (h.selects _ ?_ ?_ 1).2 ?_, (h.selects _ ?_ ?_ 3).2 ?_⟩
  · rw [← Array.toList_inj, h.entries]
    decide +kernel
  all_goals decide +kernel

end Cumulative

end Inflow
