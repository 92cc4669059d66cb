import Inflow.InjectionSet
import Inflow.Proofs.Fault
/-!
# When sets are due

A periodic set is due at the multiples of its period. A set without a period is made
to fit in by a period of its own: the number of the step where it is due, and a number
beyond it elsewhere. Step zero is a multiple of that one too.
-/

namespace Inflow.InjectionSet

variable {α : Type} {s : InjectionSet α} {step start released : Nat}

/-- A set that asks for one release is due at the first step of a run that has released
nothing yet, and at step zero. -/
def FirstStepOnly (s : InjectionSet α) : Prop := s.frequency ≤ 0

theorem FirstStepOnly.due_iff (h : s.FirstStepOnly) {due : Bool} (hdue : s.isDue step start released = .ok due) :
    due = true ↔ step = start + 1 ∧ released = 0 ∨ step = 0 := by
  obtain ⟨p, hperiod, hresult⟩ := bind_eq_ok.1 hdue
  rw [period, if_neg (Int.not_lt.2 h)] at hperiod
  obtain ⟨first, hfirst, hperiod⟩ := bind_eq_ok.1 hperiod
  obtain ⟨rfl, -⟩ := Count.add_eq_ok.1 hfirst
  cases pure_eq_ok.1 hresult
  split at hperiod
  · rename_i hstarts
    cases pure_eq_ok.1 hperiod
    obtain ⟨rfl, hnone⟩ : step = start + 1 ∧ released = 0 := by simpa using hstarts
    simp [hnone]
  · rename_i hlater
    obtain ⟨rfl, -⟩ := Count.add_eq_ok.1 hperiod
    -- A number is never a multiple of the one after it, unless it is zero.
    have hlater : ¬ (step = start + 1 ∧ released = 0) := by simpa using hlater
    simp [hlater, Nat.mod_eq_of_lt (Nat.lt_succ_self step)]

theorem due_iff_of_periodic (h : 0 < s.frequency) {due : Bool} (hdue : s.isDue step start released = .ok due) :
    due = true ↔ s.frequency.toNat ∣ step := by
  obtain ⟨p, hperiod, hresult⟩ := bind_eq_ok.1 hdue
  rw [period, if_pos h] at hperiod
  cases hperiod
  cases pure_eq_ok.1 hresult
  have hpositive : 0 < s.frequency.toNat := by omega
  simp [hpositive, Nat.dvd_iff_mod_eq_zero]

/-- A set is due by its period, or by the steps of a set without one. -/
theorem due_iff {due : Bool} (hdue : s.isDue step start released = .ok due) :
    due = true ↔ if 0 < s.frequency then s.frequency.toNat ∣ step
      else step = start + 1 ∧ released = 0 ∨ step = 0 := by
  split
  · exact due_iff_of_periodic ‹_› hdue
  · exact FirstStepOnly.due_iff (Int.not_lt.1 ‹_›) hdue

/-- Whether a set is due can be told unless a step number is the last that there is. -/
theorem exists_isDue (s : InjectionSet α) (released : Nat) (hstart : start < Count.limit) (hstep : step < Count.limit) :
    ∃ due, s.isDue step start released = .ok due := by
  have hfirst : Count.add start 1 = .ok (start + 1) := Count.add_eq_ok.2 ⟨rfl, hstart⟩
  have hnext : Count.add step 1 = .ok (step + 1) := Count.add_eq_ok.2 ⟨rfl, hstep⟩
  have hperiod : ∃ period, s.period step start released = .ok period := by
    unfold period
    split
    · exact ⟨_, rfl⟩
    · rw [hfirst, hnext]
      simp only [bind, Except.bind]
      split <;> exact ⟨_, rfl⟩
  obtain ⟨p, hperiod⟩ := hperiod
  exact ⟨_, bind_eq_ok.2 ⟨p, hperiod, rfl⟩⟩

end Inflow.InjectionSet
