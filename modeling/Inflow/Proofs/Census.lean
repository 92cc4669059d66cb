import Inflow.Census
import Inflow.Proofs.Fault
import Inflow.Proofs.Ranks.Lockstep
/-!
# The census over a group

All ranks enter the same sums. An entry that stays in range adds what was
released and lost, over all ranks, to what was counted before.
-/

namespace Inflow.Census

variable {α : Type} [Scalar α]

/-- The census after sums over all ranks are entered. -/
def committed (c : Census α) (totals : List (StepTotals α)) : Attempt (Census α) :=
  match Count.sum (totals.map (·.released)) with
  | .error f => { state := c, fault := some f }
  | .ok released =>
    match Count.sum (totals.map (·.failed)) with
    | .error f => { state := c, fault := some f }
    | .ok failed => c.enter released (Scalar.sum (totals.map (·.weight))) failed

theorem ends_commit {ranks : Nat} (cs : Fin ranks → Census α) (totals : Fin ranks → StepTotals α) :
    Group.Ends (fun _ => False) (· = fun i => (cs i).committed (List.ofFn totals)) fun i =>
      (cs i).commit (totals i) := by
  have hreleased : ∀ rank, Collective.answer (α := α) .sumCounts (List.ofFn fun i => (totals i).released) rank =
      Count.sum ((List.ofFn totals).map (·.released)) := by
    intro rank
    rw [List.map_ofFn]
    rfl
  have hfailed : ∀ rank, Collective.answer (α := α) .sumCounts (List.ofFn fun i => (totals i).failed) rank =
      Count.sum ((List.ofFn totals).map (·.failed)) := by
    intro rank
    rw [List.map_ofFn]
    rfl
  unfold commit committed
  refine .call ?_
  simp only [hreleased]
  cases Count.sum ((List.ofFn totals).map (·.released)) with
  | error f => exact .done rfl
  | ok released =>
    refine .call ?_
    simp only [hfailed]
    cases Count.sum ((List.ofFn totals).map (·.failed)) with
    | error f => exact .done rfl
    | ok failed =>
      refine .call (.done ?_)
      rw [List.map_ofFn]
      rfl

/-- A census that has counted what was released and lost in one more step. -/
structure Counts (c c' : Census α) (kept lost : Nat) : Prop where
  released : c'.released = kept
  failed : c'.failed = lost
  total : Count.add c.total kept = .ok c'.total
  cumulativeTotal : c'.cumulativeTotal = c.cumulativeTotal + kept
  cumulativeFailed : c'.cumulativeFailed = c.cumulativeFailed + lost
  version : c'.version = c.version + 1

theorem counts_enter {c : Census α} {released failed : Nat} {weight : α}
    (h : (c.enter released weight failed).fault = none) :
    Counts c (c.enter released weight failed).state released failed := by
  cases htotal : Count.add c.total released with
  | error f => simp [enter, htotal] at h
  | ok total =>
    cases hcumulative : Count.add c.cumulativeTotal released with
    | error f => simp [enter, htotal, hcumulative] at h
    | ok cumulativeTotal =>
      cases hfailed : Count.add c.cumulativeFailed failed with
      | error f => simp [enter, htotal, hcumulative, hfailed] at h
      | ok cumulativeFailed =>
        cases hversion : Count.add c.version 1 with
        | error f => simp [enter, htotal, hcumulative, hfailed, hversion] at h
        | ok version =>
          simp only [enter, htotal, hcumulative, hfailed, hversion]
          exact ⟨rfl, rfl, htotal, (Count.add_eq_ok.1 hcumulative).1, (Count.add_eq_ok.1 hfailed).1,
            (Count.add_eq_ok.1 hversion).1⟩

theorem counts_committed {c : Census α} {totals : List (StepTotals α)} (h : (c.committed totals).fault = none) :
    Counts c (c.committed totals).state (totals.map (·.released)).sum (totals.map (·.failed)).sum := by
  unfold committed at h ⊢
  cases hreleased : Count.sum (totals.map (·.released)) with
  | error f => simp [hreleased] at h
  | ok released =>
    cases hfailed : Count.sum (totals.map (·.failed)) with
    | error f => simp [hreleased, hfailed] at h
    | ok failed =>
      simp only [hreleased, hfailed] at h ⊢
      rw [← (Count.sum_eq_ok.1 hreleased).1, ← (Count.sum_eq_ok.1 hfailed).1]
      exact counts_enter h

/-- Sums that are in range reach the entries. -/
theorem committed_eq_enter {c : Census α} {totals : List (StepTotals α)}
    (hreleased : (totals.map (·.released)).sum ≤ Count.limit) (hfailed : (totals.map (·.failed)).sum ≤ Count.limit) :
    c.committed totals = c.enter (totals.map (·.released)).sum (Scalar.sum (totals.map (·.weight)))
      (totals.map (·.failed)).sum := by
  rw [committed, Count.sum_eq_ok.2 ⟨rfl, hreleased⟩, Count.sum_eq_ok.2 ⟨rfl, hfailed⟩]

/-- A total that stays in range is entered, even if a later entry does not stay in its own. -/
theorem total_enter {c : Census α} {released failed total : Nat} {weight : α} (h : Count.add c.total released = .ok total) :
    (c.enter released weight failed).state.total = total := by
  unfold enter
  simp only [h]
  -- One case for each entry after the total.
  cases Count.add c.cumulativeTotal released with
  | error => rfl
  | ok =>
    cases Count.add c.cumulativeFailed failed with
    | error => rfl
    | ok => cases Count.add c.version 1 <;> rfl

/-! ## Entries that leave their range -/

theorem fault_enter {c : Census α} {released failed : Nat} {weight : α} {f : Fault}
    (h : (c.enter released weight failed).fault = some f) : f = .overflow := by
  unfold enter at h
  simp only at h
  -- One split for each of the entries that are made.
  split at h
  · rename_i hentry
    cases h
    exact Count.checked_eq_error hentry
  · split at h
    · rename_i hentry
      cases h
      exact Count.checked_eq_error hentry
    · split at h
      · rename_i hentry
        cases h
        exact Count.checked_eq_error hentry
      · split at h
        · rename_i hentry
          cases h
          exact Count.checked_eq_error hentry
        · cases h

/-- Whatever the other ranks bring, a census stops at nothing but a count that is too large. -/
theorem fault_commit {c : Census α} {own : StepTotals α} {entered : Attempt (Census α)}
    (h : (c.commit own).Comes entered) {f : Fault} (hf : entered.fault = some f) : f = .overflow := by
  unfold commit at h
  obtain ⟨released, ⟨counts, _, hreleased⟩, h⟩ := (Program.comes_bind _ _ _).1 h
  cases released with
  | error e =>
    obtain rfl := h
    cases hf
    exact Count.checked_eq_error hreleased.symm
  | ok released =>
    obtain ⟨failed, ⟨counts, _, hfailed⟩, h⟩ := (Program.comes_bind _ _ _).1 h
    cases failed with
    | error e =>
      obtain rfl := h
      cases hf
      exact Count.checked_eq_error hfailed.symm
    | ok failed =>
      obtain ⟨weight, -, h⟩ := (Program.comes_bind _ _ _).1 h
      obtain rfl := h
      exact fault_enter hf

end Inflow.Census
