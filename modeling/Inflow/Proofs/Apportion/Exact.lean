import Mathlib
import Inflow.Proofs.Apportion.Group
import Inflow.Proofs.Sampling.Lookup
import Inflow.Proofs.Scalar.Double
import Inflow.Proofs.Scalar.Exact
import Inflow.Random.ChaCha
/-!
# Exact apportionment

However a zone is split over the ranks and whatever their streams hold, the
particles that are asked for are laid out, all of them, as soon as one part has
any weight, and a part without weight gets none. The two tables of a particle's
way, over the ranks and over the elements, agree on what has weight: an entry
that only repeats the one before is never selected.
-/

namespace Inflow.Apportion

variable {α γ : Type}

/-- A rank's part of a zone, with the stream that the rank draws from. -/
structure Part (α γ : Type) where
  elements : Array Nat
  weights : Array α
  profile : Option (Array α)
  stream : RandomStream γ

namespace Part

/-- The elements are in the mesh, and a profile has one factor for each. -/
structure Fits (p : Part α γ) : Prop where
  element_lt : ∀ e ∈ p.elements, e < p.weights.size
  profile_size : ∀ values ∈ p.profile, values.size = p.elements.size

variable [Scalar α]

/-- The weights of the elements, each times its factor if there is a profile. -/
def effective (p : Part α γ) : List α :=
  let own := p.elements.toList.map fun e => p.weights[e]?.getD 0
  match p.profile with
  | none => own
  | some values => List.zipWith (· * ·) own values.toList

/-- The weight of the part as a whole. -/
def total (p : Part α γ) : α := (Cumulative.ofWeights p.effective).total

/-- The weight of all parts together, as the coordinator adds it up. -/
def sumTotals {ranks : Nat} (parts : Fin ranks → Part α γ) : α :=
  (Cumulative.ofWeights (List.ofFn fun i => (parts i).total)).total

theorem buildIndexed_eq {p : Part α γ} (h : p.Fits) :
    Cumulative.buildIndexed p.weights p.elements p.profile = .ok (Cumulative.ofWeights p.effective) :=
  Cumulative.buildIndexed_eq h.element_lt h.profile_size

variable [Generator γ]

/-- What the rank at a seat does to lay out its share of `n` particles. -/
def layOut (p : Part α γ) (n : Nat) (seat : Seat) : Program α (Checked (Layout γ)) :=
  overZone n p.elements p.weights p.profile seat p.stream

theorem run_layOut {ranks : Nat} (n : Nat) {parts : Fin ranks → Part α γ} (h : ∀ i, (parts i).Fits) :
    Group.run (List.ofFn fun i => (parts i).layOut n { rank := i, size := ranks }) =
      some (List.ofFn fun i => .ok (rankLayout n (fun i => Cumulative.ofWeights (parts i).effective)
        (fun i => (parts i).stream) i)) := by
  obtain ⟨layouts, hrun, rfl⟩ :=
    (ends_overZone n (fun i => (parts i).stream) fun i => buildIndexed_eq (h i)).run_eq
  exact hrun

end Part

section Exactly

variable [ExactScalar α] [Generator γ] {ranks : Nat}

/-- Without rounding, all particles that are asked for are laid out if some part
has weight, on any number of ranks. -/
theorem sum_placed_of_pos (n : Nat) {tables : Fin ranks → Cumulative α}
    (htables : ∀ i, ∃ ws, tables i = Cumulative.ofWeights ws) (streams : Fin ranks → RandomStream γ) {i : Fin ranks}
    (hi : 0 < (tables i).total) : ∑ j, (rankLayout n tables streams j).placed = n := by
  choose ws hws using htables
  obtain rfl : tables = fun j => Cumulative.ofWeights (ws j) := funext hws
  have hsome : 0 < (Cumulative.ofWeights (List.ofFn fun j => (Cumulative.ofWeights (ws j)).total)).total := by
    refine Cumulative.total_pos (fun w _ hw => by rwa [sub_zero, zero_add]) ?_ ⟨_, List.mem_ofFn.2 ⟨i, rfl⟩, hi⟩
    intro w hw
    obtain ⟨j, rfl⟩ := List.mem_ofFn.1 hw
    exact Cumulative.zero_le_total _
  have hcount : ∀ j, (rankLayout n (fun j => Cumulative.ofWeights (ws j)) streams j).placed =
      (rankShare n (fun j => (Cumulative.ofWeights (ws j)).total) streams j).count := by
    intro j
    rw [placed_rankLayout]
    by_cases hj : 0 < (Cumulative.ofWeights (ws j)).total
    · rw [placeable_ofWeights _ hj]
    · -- A part without weight is not the only one.
      have hranks : 2 ≤ ranks := by
        have hne : (i : Nat) ≠ j := fun heq => hj (Fin.ext heq ▸ hi)
        omega
      have hzero : Scalar.isZero (Cumulative.ofWeights (ws j)).total = true :=
        ExactScalar.isZero_iff_eq.2 (le_antisymm (not_lt.1 hj) (Cumulative.zero_le_total _))
      rw [placeable_of_not_pos _ hj, count_rankShare_of_isZero hranks n streams ?_ hzero]
      intro total htotal
      rw [mul_one_div_cancel htotal.ne', zero_mul]
      exact ⟨zero_lt_one, OrderedScalar.isZero_zero⟩
  rw [Finset.sum_congr rfl fun j _ => hcount j]
  by_cases hranks : 2 ≤ ranks
  · rw [sum_rankShare hranks, sum_drawShares n _ hsome]
  · obtain rfl : ranks = 1 := by
      have := i.pos
      omega
    rw [Fin.sum_univ_one, count_rankShare, if_pos le_rfl]

end Exactly

section Doubles

variable {ranks : Nat}

theorem sumTotals_pos {parts : Fin ranks → Part Float γ} {i : Fin ranks} (hi : 0 < (parts i).total) :
    0 < Part.sumTotals parts := by
  refine Cumulative.total_pos (fun w _ hw => Double.pos_zero_add (Double.pos_sub_zero hw)) ?_ ⟨_, ?_, hi⟩
  · intro w hw
    obtain ⟨j, rfl⟩ := List.mem_ofFn.1 hw
    exact Cumulative.zero_le_total _
  · exact List.mem_ofFn.2 ⟨i, rfl⟩

variable [Generator γ]

/-- A part without weight gets no particles to lay out. -/
theorem count_of_not_pos (hranks : 2 ≤ ranks) (n : Nat) (parts : Fin ranks → Part Float γ)
    (hfinite : 0 < Part.sumTotals parts →
      (Part.sumTotals parts).isFinite = true ∧ (1 / Part.sumTotals parts).isFinite = true)
    {i : Fin ranks} (hi : ¬ 0 < (parts i).total) :
    (rankShare n (fun j => (parts j).total) (fun j => (parts j).stream) i).count = 0 := by
  refine count_rankShare_of_isZero hranks n _ (fun hsum => ?_) ?_
  · obtain ⟨hfin, hinv⟩ := hfinite hsum
    exact ⟨Double.pos_mul_inverse hsum hfin hinv, Double.isZero_zero_mul_inverse hsum hfin hinv⟩
  · rw [← Bool.not_eq_false]
    exact fun hz => hi ((OrderedScalar.pos_iff_not_isZero (Cumulative.zero_le_total _)).2 hz)

/-- The ranks of a group lay out exactly as many particles as they are asked for
if some part has weight, and none otherwise; a part without weight, so also one
without elements, gets none. -/
theorem placed_exactly (hranks : 2 ≤ ranks) (n : Nat) (parts : Fin ranks → Part Float γ) (hfits : ∀ i, (parts i).Fits)
    (hfinite : 0 < Part.sumTotals parts →
      (Part.sumTotals parts).isFinite = true ∧ (1 / Part.sumTotals parts).isFinite = true) :
    ∃ layouts : Fin ranks → Layout γ,
      Group.run (List.ofFn fun i => (parts i).layOut n { rank := i, size := ranks }) =
        some (List.ofFn fun i => .ok (layouts i)) ∧
      ((∃ i, 0 < (parts i).total) → ∑ i, (layouts i).placed = n) ∧
      ((∀ i, ¬ 0 < (parts i).total) → ∑ i, (layouts i).placed = 0) ∧
      (∀ i, ¬ 0 < (parts i).total → (layouts i).placed = 0) ∧
      ∀ i, (∀ w ∈ (parts i).effective, Scalar.isZero w = true) → ¬ 0 < (parts i).total := by
  have hnone : ∀ i, ¬ 0 < (parts i).total →
      (rankLayout n (fun i => Cumulative.ofWeights (parts i).effective) (fun i => (parts i).stream) i).placed = 0 := by
    intro i hi
    rw [placed_rankLayout, placeable_of_not_pos _ hi]
  refine ⟨_, Part.run_layOut n hfits, ?_, fun hall => Finset.sum_eq_zero fun i _ => hnone i (hall i), hnone, ?_⟩
  · rintro ⟨i, hi⟩
    have hcount : ∀ j, (rankLayout n (fun i => Cumulative.ofWeights (parts i).effective)
        (fun i => (parts i).stream) j).placed =
        (rankShare n (fun j => (parts j).total) (fun j => (parts j).stream) j).count := by
      intro j
      by_cases hj : 0 < (parts j).total
      · rw [placed_rankLayout, placeable_ofWeights _ hj]
        rfl
      · rw [hnone j hj, count_of_not_pos hranks n parts hfinite hj]
    rw [Finset.sum_congr rfl fun j _ => hcount j, sum_rankShare hranks]
    exact sum_drawShares n _ (sumTotals_pos hi)
  · intro i hzero
    rw [Part.total, Cumulative.total_of_isZero hzero]
    exact OrderedScalar.not_lt_self

end Doubles

/-- A zone of two faces, both on rank 0; one of them has no weight. -/
def onFirstRank (i : Fin 2) : Part Float ChaCha.State :=
  { elements := if i.val = 0 then #[1, 0] else #[]
    weights := #[3, 0]
    profile := none
    stream := .ofSeed 7 }

theorem placed_exactly_onFirstRank : ∃ layouts : Fin 2 → Layout ChaCha.State,
    Group.run (List.ofFn fun i => (onFirstRank i).layOut 5 { rank := i, size := 2 }) =
      some (List.ofFn fun i => .ok (layouts i)) ∧
    ∑ i, (layouts i).placed = 5 ∧ (layouts 1).placed = 0 := by
  have hfits : ∀ i, (onFirstRank i).Fits := by
    intro i
    refine ⟨?_, fun values hvalues => by cases hvalues⟩
    fin_cases i <;> decide
  obtain ⟨layouts, hrun, hsum, -, hnone, -⟩ :=
    placed_exactly (Nat.le_refl 2) 5 onFirstRank hfits fun _ => by decide +kernel
  exact ⟨layouts, hrun, hsum ⟨0, by decide +kernel⟩, hnone 1 (by decide +kernel)⟩

end Inflow.Apportion
