import Mathlib
import Inflow.Particle.Population
/-!
# Positions that stay

Dropping positions from a table keeps the entries at all others, in their
order. Which positions these are depends on the size of the table and on the
lost positions only, so tables of one size keep entries that belong together.
-/

namespace Inflow

variable {β : Type}

/-- The positions of a table with `n` entries that are not lost, in their order. -/
def staying (n : Nat) (lost : List Nat) : List Nat := (List.range n).filter (· ∉ lost)

theorem mem_staying {n k : Nat} {lost : List Nat} : k ∈ staying n lost ↔ k < n ∧ k ∉ lost := by
  simp [staying]

@[simp] theorem staying_nil (n : Nat) : staying n [] = List.range n := by simp [staying]

/-- A flag is up where it was before, and at each position of the list that there is. -/
theorem getElem?_raiseFlags (lost : List Nat) (flags : Array Bool) (k : Nat) :
    (lost.foldl (fun flags i => flags.setIfInBounds i true) flags)[k]? =
      flags[k]?.map fun flag => flag || decide (k ∈ lost) := by
  induction lost generalizing flags with
  | nil => simp
  | cons i lost ih =>
    rw [List.foldl_cons, ih, Array.getElem?_setIfInBounds]
    by_cases hik : i = k
    · subst hik
      by_cases hi : i < flags.size
      · simp [hi]
      · simp [hi]
    · rw [if_neg hik]
      simp [Ne.symm hik]

theorem toList_lostFlags (n : Nat) (lost : List Nat) :
    (lostFlags n lost).toList = (List.range n).map fun i => decide (i ∈ lost) := by
  apply List.ext_getElem?
  intro k
  rw [Array.getElem?_toList, lostFlags, getElem?_raiseFlags, Array.getElem?_replicate, List.getElem?_map]
  by_cases hk : k < n
  · rw [if_pos hk, List.getElem?_range hk]
    simp
  · rw [if_neg hk, List.getElem?_eq_none (by simpa using hk)]
    rfl

/-- The entries at all positions that are not lost. -/
theorem toList_dropPositions (xs : Array β) (lost : List Nat) :
    (dropPositions xs lost).toList = (xs.toList.zipIdx.filter fun entry => entry.2 ∉ lost).map (·.1) := by
  have hpairs : xs.toList.zip ((List.range xs.size).map fun i => decide (i ∈ lost)) =
      xs.toList.zipIdx.map (Prod.map id fun i => decide (i ∈ lost)) := by
    rw [List.zip_map_right, List.zipIdx_eq_zip_range', Array.length_toList, List.range_eq_range']
  rw [dropPositions, Array.toList_map, Array.toList_filter, Array.toList_zip, toList_lostFlags, hpairs,
    List.filter_map, List.map_map]
  congr 1
  apply List.filter_congr
  rintro ⟨x, i⟩ -
  simp

theorem dropPositions_nil (xs : Array β) : dropPositions xs [] = xs := by
  rw [← Array.toList_inj, toList_dropPositions]
  simp [List.zipIdx_map_fst]

@[simp] theorem dropPositions_empty (lost : List Nat) : dropPositions (#[] : Array β) lost = #[] := by
  rw [← Array.toList_inj, toList_dropPositions]
  rfl

theorem staying_size_eq (xs : Array β) (lost : List Nat) :
    staying xs.size lost = (xs.toList.zipIdx.filter fun entry => entry.2 ∉ lost).map (·.2) := by
  rw [staying, ← Array.length_toList, List.range_eq_range', ← List.zipIdx_map_snd 0, List.filter_map]
  rfl

theorem size_dropPositions (xs : Array β) (lost : List Nat) :
    (dropPositions xs lost).size = (staying xs.size lost).length := by
  rw [← Array.length_toList, toList_dropPositions, staying_size_eq, List.length_map, List.length_map]

theorem size_dropPositions_le (xs : Array β) (lost : List Nat) : (dropPositions xs lost).size ≤ xs.size := by
  rw [size_dropPositions, staying]
  exact (List.length_filter_le _ _).trans_eq List.length_range

/-- The entry in each place of what is left comes from the position that stays in this place. -/
theorem getElem?_dropPositions (xs : Array β) (lost : List Nat) (j : Nat) :
    (dropPositions xs lost)[j]? = (staying xs.size lost)[j]?.bind (xs[·]?) := by
  rw [← Array.getElem?_toList, toList_dropPositions, staying_size_eq, List.getElem?_map, List.getElem?_map]
  cases hentry : (xs.toList.zipIdx.filter fun entry => entry.2 ∉ lost)[j]? with
  | none => rfl
  | some entry =>
    have hmem := (List.mem_filter.1 (List.mem_of_getElem? hentry)).1
    have hget := List.mem_zipIdx_iff_getElem?.1 hmem
    simpa using hget.symm

/-- A walk with a flag for each entry keeps those whose flag is down. -/
theorem toList_foldl_strike (xs : List β) {flags : List Bool} (h : xs.length ≤ flags.length) (kept : Array β) :
    (xs.foldl strike (kept, flags)).1.toList =
      kept.toList ++ ((xs.zip flags).filter fun (_, l) => !l).map (·.1) := by
  induction xs generalizing flags kept with
  | nil => simp
  | cons x xs ih =>
    cases flags with
    | nil => cases h
    | cons flag flags =>
      rw [List.foldl_cons, strike, List.tail_cons, ih (Nat.le_of_succ_le_succ h)]
      cases flag <;> simp

/-- Both ways of dropping positions keep the same entries. -/
theorem strikePositions_eq (xs : Array β) (lost : List Nat) : strikePositions xs lost = dropPositions xs lost := by
  have hlength : xs.toList.length ≤ (lostFlags xs.size lost).toList.length := by simp [toList_lostFlags]
  rw [← Array.toList_inj, strikePositions, ← Array.foldl_toList, toList_foldl_strike _ hlength, dropPositions,
    Array.toList_map, Array.toList_filter, Array.toList_zip]
  rfl

theorem mem_positions (test : β → Bool) (xs : List β) (i : Nat) :
    (i ∈ xs.zipIdx.filterMap fun (x, i) => if test x then some i else none) ↔ ∃ x, xs[i]? = some x ∧ test x = true := by
  simp only [List.mem_filterMap, Prod.exists, List.mk_mem_zipIdx_iff_getElem?, Option.ite_none_right_eq_some,
    Option.some.injEq]
  constructor
  · rintro ⟨x, _, hx, htest, rfl⟩
    exact ⟨x, hx, htest⟩
  · rintro ⟨x, hx, htest⟩
    exact ⟨x, i, hx, htest, rfl⟩

/-- An entry for which `f` gives nothing is dropped, and every other becomes what `f` gives. -/
theorem dropPositions_map_getD (f : β → Option β) {test : β → Bool} (htest : ∀ x, test x = (f x).isNone) (xs : Array β) :
    (dropPositions (xs.map fun x => (f x).getD x)
      (xs.toList.zipIdx.filterMap fun (x, i) => if test x then some i else none)).toList = xs.toList.filterMap f := by
  have hstays : ∀ entry ∈ xs.toList.zipIdx, decide (entry.2 ∉ xs.toList.zipIdx.filterMap
      fun (x, i) => if test x then some i else none) = (f entry.1).isSome := by
    rintro ⟨x, i⟩ hentry
    rw [List.mk_mem_zipIdx_iff_getElem?] at hentry
    rw [Bool.eq_iff_iff, decide_eq_true_iff]
    refine (not_congr (mem_positions test xs.toList i)).trans ?_
    simp [hentry, htest, Option.isSome_iff_ne_none]
  have hgives : ∀ ys : List β, (ys.filter fun x => (f x).isSome).map (fun x => (f x).getD x) = ys.filterMap f := by
    intro ys
    induction ys with
    | nil => rfl
    | cons y ys ih => cases hy : f y <;> simp [hy, ih]
  calc _ = (xs.toList.zipIdx.filter fun entry => (f entry.1).isSome).map fun entry => (f entry.1).getD entry.1 := by
        rw [toList_dropPositions, Array.toList_map, List.zipIdx_map, List.filter_map, List.map_map,
          ← List.filter_congr hstays]
        rfl
    _ = ((xs.toList.zipIdx.map (·.1)).filter fun x => (f x).isSome).map fun x => (f x).getD x := by
        rw [List.filter_map, List.map_map]
        rfl
    _ = xs.toList.filterMap f := by rw [List.zipIdx_map_fst, hgives]

end Inflow
