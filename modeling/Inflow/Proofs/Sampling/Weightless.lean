import Mathlib
import Inflow.Proofs.Apportion.Draws
import Inflow.Proofs.Sampling.Lookup
import Inflow.Proofs.Scalar.Reciprocal
/-!
# Elements without weight

An element without weight repeats the entry before it, so a draw does not stop
there; and a leading one has an entry of zero, which every draw passes. Both go by
the entries after they have been scaled. As long as the total weight has a finite
reciprocal, scaling keeps them so, even where the total itself is infinite. Of a
total that is too small for that, scaling leaves no entry below any draw: then each
draw selects the first element, with weight or without.
-/

namespace Inflow

open Double (reciprocalLimit)

/-- Where no entry is below anything, all draws go to the first one. -/
theorem position_eq_zero {α : Type} [Scalar α] {entries : Array α} (h : 0 < entries.size)
    (hnone : ∀ v ∈ entries, ∀ y, ¬ v < y) (x : α) : position entries x = 0 := by
  obtain ⟨-, hlow, -⟩ := position_boundary entries x h
  refine hlow.resolve_right fun hbelow => ?_
  unfold isBelow at hbelow
  split at hbelow
  · rename_i v hv
    exact hnone v (Array.mem_of_getElem? hv) _ (of_decide_eq_true hbelow)
  · cases hbelow

namespace Cumulative

/-- What draws in a table for the weights `ws` have to do with those that are zero:
an element without weight is selected if the total has no finite reciprocal and the
first element is without weight, and never else. -/
def PassesWeightless (ws : List Float) (c : Cumulative Float) : Prop :=
  ∀ u, ∃ i w d, c.normalize.sample u = .ok (i, d) ∧ ws[i]? = some w ∧ (c.total ≤ reciprocalLimit → i = 0) ∧
    (Scalar.isZero w = true ↔ c.total ≤ reciprocalLimit ∧ ∃ v, ws[0]? = some v ∧ Scalar.isZero v = true)

theorem not_isZero_of_isFinite {ws : List Float} (h : 0 < (ofWeights ws).total)
    (hinv : (1 / (ofWeights ws).total).isFinite = true) {i : Nat} (hi : Selects (ofWeights ws).normalize.entries i)
    {w : Float} (hw : ws[i]? = some w) : ¬ Scalar.isZero w = true := by
  obtain ⟨hlast, hzero⟩ := Double.scales_of_isFinite_inverse h hinv
  exact fun hz => not_selects_of_isZero h hlast hzero hw hz hi

theorem eq_zero_of_not_isFinite {ws : List Float} (h : 0 < (ofWeights ws).total)
    (hinv : ¬ (1 / (ofWeights ws).total).isFinite = true) {i : Nat}
    (hi : Selects (ofWeights ws).normalize.entries i) : i = 0 := by
  obtain ⟨u, rfl⟩ := hi
  refine position_eq_zero (by rw [size_normalize]; exact entries_pos h) (fun v hv y => ?_) _
  rw [entries_normalize h, Array.mem_map] at hv
  obtain ⟨entry, hentry, rfl⟩ := hv
  exact Double.not_mul_inverse_lt h hinv ((climbs_ofWeights ws).zero_le entry hentry)

theorem passesWeightless_ofWeights {ws : List Float} (h : 0 < (ofWeights ws).total) :
    PassesWeightless ws (ofWeights ws) := by
  intro u
  have hsize : 0 < (ofWeights ws).normalize.entries.size := by
    rw [size_normalize]
    exact entries_pos h
  have hsample : (ofWeights ws).normalize.sample u = .ok ((ofWeights ws).normalize.select u) :=
    if_neg (by simpa using Array.ne_empty_of_size_pos hsize)
  have hselects : Selects (ofWeights ws).normalize.entries ((ofWeights ws).normalize.select u).1 := ⟨u, rfl⟩
  have hlt := selects_lt hselects hsize
  rw [size_normalize, size_entries] at hlt
  have hw := List.getElem?_eq_getElem hlt
  have hlimit := Double.isFinite_inverse_iff h
  refine ⟨_, _, _, hsample, hw, ?_⟩
  by_cases hinv : (1 / (ofWeights ws).total).isFinite = true
  · have hlarge := hlimit.1 hinv
    have hweight := not_isZero_of_isFinite h hinv hselects hw
    exact ⟨fun hle => absurd hle hlarge, iff_of_false hweight fun hle => hlarge hle.1⟩
  · have hsmall : (ofWeights ws).total ≤ reciprocalLimit := by
      by_contra hlarge
      exact hinv (hlimit.2 hlarge)
    have hfirst := eq_zero_of_not_isFinite h hinv hselects
    refine ⟨fun _ => hfirst, fun hz => ⟨hsmall, _, hfirst ▸ hw, hz⟩, ?_⟩
    rintro ⟨-, v, hv, hz⟩
    rw [← hfirst, hw, Option.some.injEq] at hv
    rwa [hv]

/-- Draws pass elements without weight, wherever they stand and whatever the other
weights are, as long as the total has a finite reciprocal; where it has none, the first
element is selected each time. The weights may be those of a list, or taken from a
larger table, each times its profile value if there is a profile. -/
theorem weightless_selected_iff (profile : Option (Array Float)) :
    (∀ weights : Array Float, (∀ values ∈ profile, values.size = weights.size) →
      ∃ c, build weights profile = .ok c ∧
        (0 < c.total → PassesWeightless (summands weights.toList profile) c)) ∧
    ∀ (parents : Array Float) (elements : Array Nat), (∀ e ∈ elements, e < parents.size) →
      (∀ values ∈ profile, values.size = elements.size) →
      ∃ c, buildIndexed parents elements profile = .ok c ∧
        (0 < c.total → PassesWeightless (summands (elements.toList.map fun e => parents[e]?.getD 0) profile) c) :=
  ⟨fun _ hsize => ⟨_, build_eq hsize, passesWeightless_ofWeights⟩,
    fun _ _ hrange hsize => ⟨_, buildIndexed_eq hrange hsize, passesWeightless_ofWeights⟩⟩

/-- A weight between two elements that have none. -/
def heavyMiddle : Array Float := #[0, 3, 0]

/-- The smallest positive double, behind an element without weight. -/
def faintSecond : Array Float := #[0, Float.ofBits 1]

/-- Of the heavy table the middle element is selected, and of the faint one the first, which has no weight. -/
theorem weightless_selected_iff_faint :
    (∃ c i w d, build heavyMiddle (some #[1, 2, 1]) = .ok c ∧ 0 < c.total ∧ c.normalize.sample 0 = .ok (i, d) ∧
      (summands heavyMiddle.toList (some #[1, 2, 1]))[i]? = some w ∧ Scalar.isZero w = false) ∧
    ∃ c i w d, buildIndexed faintSecond #[0, 1, 0] none = .ok c ∧ 0 < c.total ∧
      c.normalize.sample (1 / 2) = .ok (i, d) ∧ i = 0 ∧
      (summands (#[0, 1, 0].toList.map fun e => faintSecond[e]?.getD 0) none)[i]? = some w ∧ Scalar.isZero w = true := by
  obtain ⟨c, hc, hpasses⟩ := (weightless_selected_iff (some #[1, 2, 1])).1 heavyMiddle (by rintro values ⟨⟩; rfl)
  obtain ⟨c', hc', hpasses'⟩ := (weightless_selected_iff none).2 faintSecond #[0, 1, 0] (by decide) nofun
  have hlarge : 0 < c.total ∧ ¬ c.total ≤ reciprocalLimit := by
    cases hc
    decide +kernel
  have hsmall : 0 < c'.total ∧ c'.total ≤ reciprocalLimit := by
    cases hc'
    decide +kernel
  obtain ⟨i, w, d, hsample, hw, -, hiff⟩ := hpasses hlarge.1 0
  obtain ⟨i', w', d', hsample', hw', hfirst, hiff'⟩ := hpasses' hsmall.1 (1 / 2)
  refine ⟨⟨c, i, w, d, hc, hlarge.1, hsample, hw, ?_⟩, c', i', w', d', hc', hsmall.1, hsample', hfirst hsmall.2, hw', ?_⟩
  · exact Bool.eq_false_iff.2 fun hz => hlarge.2 (hiff.1 hz).1
  · exact hiff'.2 ⟨hsmall.2, 0, rfl, by decide +kernel⟩

/-- Weights that are finite and not negative, and of which one is positive, and a draw
that selects an element without weight. -/
theorem weightless_element_selected : (∀ w ∈ faintSecond, 0 ≤ w ∧ w.isFinite = true) ∧ faintSecond[0]? = some 0 ∧
    ∃ c d, build faintSecond none = .ok c ∧ 0 < c.total ∧ c.normalize.sample (1 / 2) = .ok (0, d) := by
  have hselect : ((ofWeights faintSecond.toList).normalize.select (1 / 2)).1 = 0 := by decide +kernel
  refine ⟨by decide +kernel, rfl, _, ((ofWeights faintSecond.toList).normalize.select (1 / 2)).2, rfl,
    by decide +kernel, ?_⟩
  rw [sample, if_neg (by decide +kernel)]
  exact congrArg Except.ok (Prod.ext hselect rfl)

end Cumulative
end Inflow
