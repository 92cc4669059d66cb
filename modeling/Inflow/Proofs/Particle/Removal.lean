import Inflow.Proofs.Particle.Positions
/-!
# Removing particles by their positions

Particles are taken out of the end part of a population by their positions in that part.
The tables that go with the part lose the same positions in another way. Both keep what
stands at the positions that stay, so what belongs together stays side by side.
-/

namespace Inflow

/-- The positions that stay, and those that there are among the lost ones. -/
theorem length_staying_add (n : Nat) (lost : List Nat) :
    (staying n lost).length + (lost.toFinset.filter (· < n)).card = n := by
  have hgone : ((List.range n).filter (· ∈ lost)).toFinset = lost.toFinset.filter (· < n) := by
    ext k
    simp [and_comm]
  have hsplit := List.length_eq_length_filter_add (l := List.range n) (· ∈ lost)
  rw [← hgone, List.toFinset_card_of_nodup (List.nodup_range.filter _)]
  rw [List.length_range] at hsplit
  simp only [staying, decide_not]
  omega

namespace Population

variable {α : Type} (pop : Population α)

/-! ## The end part -/

@[simp] theorem size_tail (start : Nat) : (pop.tail start).size = pop.size - start := by
  simp [tail, size]

theorem size_withTail (start : Nat) (ps : Array (Particle α)) :
    (pop.withTail start ps).size = min start pop.size + ps.size := by
  simp [withTail, size]

theorem size_withTail_of_size (start : Nat) {ps : Array (Particle α)} (h : ps.size = (pop.tail start).size) :
    (pop.withTail start ps).size = pop.size := by
  rw [size_withTail, h, size_tail]
  omega

theorem withTail_tail (start : Nat) : pop.withTail start (pop.tail start) = pop := by
  have hsame : pop.particles.shrink start ++ pop.particles.extract start pop.particles.size = pop.particles := by
    rw [← Array.toList_inj]
    simp
  simp only [withTail, tail, hsame]

/-- After the tail is exchanged there are only the exchanged particles in it. -/
theorem mem_of_mem_tail_withTail {start : Nat} {ps : Array (Particle α)} {p : Particle α}
    (h : p ∈ (pop.withTail start ps).tail start) : p ∈ ps := by
  unfold tail withTail at h
  obtain ⟨k, hk, rfl⟩ := Array.mem_iff_getElem.1 h
  have hshrink : (pop.particles.shrink start).size ≤ start := by simp
  rw [Array.getElem_extract, Array.getElem_append_right (by omega)]
  exact Array.getElem_mem _

theorem getElem?_tail (start k : Nat) : (pop.tail start)[k]? = pop.particles[start + k]? := by
  rw [tail, Array.getElem?_extract, Nat.min_self]
  split
  · rfl
  · rename_i hk
    exact (Array.getElem?_eq_none (by omega)).symm

theorem tail_eq_empty {start : Nat} (h : pop.size ≤ start) : pop.tail start = #[] :=
  Array.eq_empty_of_size_eq_zero (by rw [size_tail]; omega)

/-! ## Taking particles out of it -/

/-- Whatever is lost, the end part is exchanged for what stays of it. -/
theorem removeFrom_eq (start : Nat) (lost : List Nat) :
    (pop.removeFrom start lost).2 = pop.withTail start (dropPositions (pop.tail start) lost) := by
  unfold removeFrom
  split
  · -- Where nothing is done, dropping the positions would drop nothing.
    rename_i hnone
    rw [Bool.or_eq_true, List.isEmpty_iff, decide_eq_true_eq] at hnone
    have hall : dropPositions (pop.tail start) lost = pop.tail start := by
      rcases hnone with rfl | hsize
      · exact dropPositions_nil _
      · rw [pop.tail_eq_empty hsize, dropPositions_empty]
    rw [hall, withTail_tail]
  · rfl

theorem mem_of_mem_tail_removeFrom {start : Nat} {lost : List Nat} {p : Particle α}
    (h : p ∈ (pop.removeFrom start lost).2.tail start) : p ∈ pop.tail start := by
  rw [removeFrom_eq] at h
  have hkept := mem_of_mem_tail_withTail _ h
  rw [← Array.mem_toList_iff, toList_dropPositions, List.mem_map] at hkept
  obtain ⟨entry, hentry, rfl⟩ := hkept
  rw [← Array.mem_toList_iff]
  exact List.fst_mem_of_mem_zipIdx (List.mem_of_mem_filter hentry)

theorem size_removeFrom (start : Nat) (lost : List Nat) :
    (pop.removeFrom start lost).2.size = min start pop.size + (staying (pop.size - start) lost).length := by
  rw [removeFrom_eq, size_withTail, size_dropPositions, size_tail]

/-- What is gone and what is left are all there was, whatever indices are given. -/
theorem removeFrom_spec (start : Nat) (lost : List Nat) :
    (pop.removeFrom start lost).1 + (pop.removeFrom start lost).2.size = pop.size ∧
      (start ≤ pop.size → start ≤ (pop.removeFrom start lost).2.size) ∧
      (pop.removeFrom start lost).2.released = pop.released := by
  have hstaying := length_staying_add (pop.size - start) lost
  have hsize := pop.size_removeFrom start lost
  refine ⟨?_, fun _ => by omega, by rw [removeFrom_eq]; rfl⟩
  unfold removeFrom at hsize ⊢
  split
  · exact Nat.zero_add _
  · rename_i hsome
    rw [if_neg hsome] at hsize
    simp only at hsize ⊢
    omega

/-- Repeated indices count once, and indices past the end not at all. -/
theorem removeFrom_count (start : Nat) (lost : List Nat) :
    (pop.removeFrom start lost).1 = (lost.toFinset.filter (· < pop.size - start)).card := by
  have hstaying := length_staying_add (pop.size - start) lost
  have hsum := (pop.removeFrom_spec start lost).1
  rw [size_removeFrom] at hsum
  omega

theorem toList_removeFrom (start : Nat) (lost : List Nat) :
    (pop.removeFrom start lost).2.particles.toList =
      pop.particles.toList.take start ++ (dropPositions (pop.tail start) lost).toList := by
  rw [removeFrom_eq, withTail, Array.toList_append, Array.toList_shrink]

/-- Particles before the end part stay where they are. -/
theorem getElem?_removeFrom_of_lt {start k : Nat} (lost : List Nat) (h : k < start) :
    (pop.removeFrom start lost).2.particles[k]? = pop.particles[k]? := by
  rw [← Array.getElem?_toList, ← Array.getElem?_toList, toList_removeFrom]
  by_cases hsize : start ≤ pop.size
  · rw [List.getElem?_append_left, List.getElem?_take_of_lt h]
    simpa using ⟨h, h.trans_le hsize⟩
  · rw [pop.tail_eq_empty (by omega), dropPositions_empty, List.append_nil, List.getElem?_take_of_lt h]

/-- The particle in each place of the end part comes from the position that stays in this place. -/
theorem getElem?_removeFrom_add (start : Nat) (lost : List Nat) (j : Nat) :
    (pop.removeFrom start lost).2.particles[start + j]? =
      (staying (pop.size - start) lost)[j]?.bind fun k => pop.particles[start + k]? := by
  rw [← Array.getElem?_toList, toList_removeFrom]
  by_cases hsize : start ≤ pop.size
  · have hbefore : (pop.particles.toList.take start).length = start := List.length_take_of_le hsize
    rw [List.getElem?_append_right (by omega), hbefore, Nat.add_sub_cancel_left, Array.getElem?_toList,
      getElem?_dropPositions, size_tail]
    congr 1
    funext k
    exact pop.getElem?_tail start k
  · -- The end part is empty and stays so.
    rw [pop.tail_eq_empty (by omega), dropPositions_empty, List.append_nil, Nat.sub_eq_zero_of_le (by omega)]
    exact List.getElem?_eq_none ((List.length_take_le _ _).trans (Nat.le_add_right _ _))

/-! ## Tables beside the end part -/

/-- Particles are taken out of the end part that begins at `start`, and a table with one
entry for each particle of the part loses the same positions: whatever is lost, in whatever
order, repeated or not there at all. Older particles stay where they are. What is left of
the part and of the table is, place by place, what stood at one and the same position that
is not lost, in the old order. As many are gone as there are different positions among the
lost ones. -/
theorem removed_in_step {β : Type} (start : Nat) (lost : List Nat) {table : Array β}
    (h : table.size = (pop.tail start).size) :
    let left := (pop.removeFrom start lost).2
    left = { pop with particles := left.particles } ∧
    (∀ k < start, left.particles[k]? = pop.particles[k]?) ∧
    (∀ j : Nat, left.particles[start + j]? = (staying table.size lost)[j]?.bind (pop.particles[start + ·]?) ∧
      (strikePositions table lost)[j]? = (staying table.size lost)[j]?.bind (table[·]?)) ∧
    (pop.removeFrom start lost).1 = (lost.toFinset.filter (· < table.size)).card ∧
    (pop.size ≤ start → (pop.removeFrom start lost).1 = 0) := by
  rw [size_tail] at h
  refine ⟨by rw [removeFrom_eq]; rfl, fun k => pop.getElem?_removeFrom_of_lt lost, fun j => ⟨?_, ?_⟩, ?_, ?_⟩
  · rw [h, getElem?_removeFrom_add]
  · rw [strikePositions_eq, getElem?_dropPositions]
  · rw [h, removeFrom_count]
  · intro hpast
    rw [removeFrom_count, Nat.sub_eq_zero_of_le hpast]
    simp

/-- Six particles with their numbers for masses. -/
def sixParticles : Population ℕ where
  particles := Array.ofFn fun i : Fin 6 => { Particle.blank with mass := i }
  capacity := 8
  releasedWeight := 0

/-- A table beside the last four of them. -/
def besideLastFour : Array ℕ := #[20, 21, 22, 23]

/-- The first and the third of the last four are lost, the third twice, and one that there is not. -/
theorem removed_in_step_scattered :
    let lost := [2, 99, 0, 2]
    let left := (sixParticles.removeFrom 2 lost).2
    (besideLastFour.size = (sixParticles.tail 2).size ∧ left.particles.toList.map (·.mass) = [0, 1, 3, 5] ∧
      strikePositions besideLastFour lost = #[21, 23]) ∧
      ∀ j : Nat, left.particles[2 + j]? = (staying 4 lost)[j]?.bind (sixParticles.particles[2 + ·]?) ∧
        (strikePositions besideLastFour lost)[j]? = (staying 4 lost)[j]?.bind (besideLastFour[·]?) := by
  have hsize : besideLastFour.size = (sixParticles.tail 2).size := by decide +kernel
  exact ⟨⟨hsize, by decide +kernel, by decide +kernel⟩, (sixParticles.removed_in_step 2 [2, 99, 0, 2] hsize).2.2.1⟩

end Population
end Inflow
