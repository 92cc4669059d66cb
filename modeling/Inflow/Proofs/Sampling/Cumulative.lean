import Inflow.Sampling.Cumulative
import Inflow.Proofs.Scalar.Order
import Mathlib.Algebra.Order.Ring.Int
import Mathlib.Algebra.Group.Nat.Even
import Mathlib.Data.List.Induction
import Mathlib.Tactic.Common
/-!
# Tables of partial sums

Whatever the weights are, their partial sums start at zero at the least, never
step back, and stay exactly where they are at a weight of zero. The search
stops between an entry below the draw and one that is not below it, so it never
selects an element whose entry only repeats the one before.
-/

namespace Inflow

variable {α : Type} [Scalar α]

/-! ## Running sums -/

namespace RunningSum

@[simp] theorem add_of_isZero (s : RunningSum α) {w : α} (h : Scalar.isZero w = true) : s.add w = s := by
  simp [add, h]

/-- The running sum after a list of weights. -/
def after (ws : List α) : RunningSum α := ws.foldl add zero

@[simp] theorem after_nil : after ([] : List α) = zero := rfl

theorem after_append (ws vs : List α) : after (ws ++ vs) = vs.foldl add (after ws) := List.foldl_append

@[simp] theorem after_concat (ws : List α) (w : α) : after (ws ++ [w]) = (after ws).add w := by
  simp [after_append]

@[simp] theorem length_tops (s : RunningSum α) (ws : List α) : (s.tops ws).length = ws.length := by
  induction ws generalizing s with
  | nil => rfl
  | cons w ws ih => simp [tops, ih]

theorem getElem?_tops (s : RunningSum α) (ws : List α) (i : Nat) (h : i < ws.length) :
    (s.tops ws)[i]? = some ((ws.take (i + 1)).foldl add s).top := by
  induction ws generalizing s i with
  | nil => simp at h
  | cons w ws ih =>
    cases i with
    | zero => simp [tops]
    | succ i => simpa [tops] using ih (s.add w) i (by simpa using h)

variable [OrderedScalar α]

theorem ordered_zero : (zero : RunningSum α).top ≤ (zero : RunningSum α).top := OrderedScalar.zero_le_zero

theorem top_le_add {s : RunningSum α} (w : α) (h : s.top ≤ s.top) : s.top ≤ (s.add w).top := by
  unfold add
  split
  · exact h
  · exact OrderedScalar.le_larger h

/-- The largest value never steps back. -/
theorem top_le_foldl {s : RunningSum α} (ws : List α) (h : s.top ≤ s.top) : s.top ≤ (ws.foldl add s).top := by
  induction ws generalizing s with
  | nil => exact h
  | cons w ws ih =>
    have hw := top_le_add w h
    exact OrderedScalar.trans hw (ih (OrderedScalar.ordered_of_le hw).2)

theorem zero_le_top (ws : List α) : 0 ≤ (after ws).top := top_le_foldl ws ordered_zero

theorem top_after_le (ws vs : List α) : (after ws).top ≤ (after (ws ++ vs)).top := by
  rw [after_append]
  exact top_le_foldl vs (OrderedScalar.ordered_of_le (zero_le_top ws)).2

omit [OrderedScalar α] in
/-- Without a weight nothing is added. -/
theorem after_of_isZero {ws : List α} (h : ∀ w ∈ ws, Scalar.isZero w = true) : after ws = zero := by
  induction ws using List.reverseRecOn with
  | nil => rfl
  | append_singleton ws w ih =>
    rw [after_concat, ih fun v hv => h v (by simp [hv]), add_of_isZero zero (h w (by simp))]

end RunningSum

/-! ## Entries -/

namespace Cumulative

open RunningSum

theorem size_entries (ws : List α) : (ofWeights ws).entries.size = ws.length := by simp [ofWeights]

theorem entry_eq (ws : List α) {i : Nat} (h : i < ws.length) :
    (ofWeights ws).entries[i]? = some (after (ws.take (i + 1))).top := by
  simp [ofWeights, getElem?_tops _ _ _ h, after]

theorem total_eq (ws : List α) : (ofWeights ws).total = (after ws).top := by
  rcases ws.eq_nil_or_concat with rfl | ⟨vs, w, rfl⟩
  · rfl
  · rw [List.concat_eq_append]
    have h := getElem?_tops (zero : RunningSum α) (vs ++ [w]) vs.length (by simp)
    rw [List.take_of_length_le (by simp)] at h
    simp only [ofWeights, lastEntry, Array.back?, List.size_toArray, length_tops, List.getElem?_toArray,
      List.length_append, List.length_singleton, Nat.add_sub_cancel, h]
    simp [after]

variable [OrderedScalar α]

theorem zero_le_total (ws : List α) : 0 ≤ (ofWeights ws).total := by
  rw [total_eq]
  exact zero_le_top ws

omit [OrderedScalar α] in
/-- The total is zero if no weight is anything else. -/
theorem total_of_isZero {ws : List α} (h : ∀ w ∈ ws, Scalar.isZero w = true) : (ofWeights ws).total = 0 := by
  rw [total_eq, after_of_isZero h]
  rfl

/-- One positive weight makes the total positive, if it does as a first summand. -/
theorem total_pos {ws : List α} (hfirst : ∀ w ∈ ws, 0 < w → 0 < (0 : α) + (w - 0))
    (hws : ∀ w ∈ ws, 0 ≤ w) (h : ∃ w ∈ ws, 0 < w) : 0 < (ofWeights ws).total := by
  rw [total_eq]
  have key : ∀ vs : List α, (∀ w ∈ vs, w ∈ ws) → (∃ w ∈ vs, 0 < w) → 0 < (after vs).top := by
    intro vs hsub hpos
    induction vs using List.reverseRecOn with
    | nil => simp at hpos
    | append_singleton vs w ih =>
      by_cases hvs : ∃ v ∈ vs, 0 < v
      · exact OrderedScalar.lt_of_lt_of_le (ih (fun v hv => hsub v (by simp [hv])) hvs) (top_after_le vs [w])
      · -- All weights before `w` are zero, so `w` is the first summand.
        have hzero : after vs = zero := after_of_isZero fun v hv => by
          by_contra hz
          exact hvs ⟨v, hv, (OrderedScalar.pos_iff_not_isZero (hws v (hsub v (by simp [hv])))).2 (by simpa using hz)⟩
        have hw : 0 < w := by
          obtain ⟨v, hv, hpos⟩ := hpos
          rcases List.mem_append.1 hv with hv | hv
          · exact absurd ⟨v, hv, hpos⟩ hvs
          · simpa [List.mem_singleton.1 hv] using hpos
        have hsum := hfirst w (hsub w (by simp)) hw
        rw [after_concat, hzero, add, OrderedScalar.not_isZero_of_pos hw]
        exact OrderedScalar.lt_of_lt_of_le hsum
          (OrderedScalar.le_larger_right (OrderedScalar.ordered_of_le (OrderedScalar.le_of_lt hsum)).2)
  exact key ws (fun _ hw => hw) h

end Cumulative

/-! ## Search -/

/-- The search stops at a boundary: after an entry below `x`, if it has moved at
all, and before one that is not, unless it has come to the end. -/
theorem search_boundary (entries : Array α) (x : α) (base size n : Nat) (hsize : 0 < size) (hn : base + size ≤ n)
    (hlow : base = 0 ∨ isBelow entries x base = true)
    (hup : base + size = n ∨ isBelow entries x (base + size) = false ∨
      1 < size ∧ isBelow entries x (base + size - 1) = false) :
    search entries x base size ≤ n ∧
      (search entries x base size = 0 ∨ isBelow entries x (search entries x base size - 1) = true) ∧
      (search entries x base size = n ∨ isBelow entries x (search entries x base size) = false) := by
  -- The interval may come to overlap entries that are known not to be below `x`;
  -- `hup` says how far it can.
  induction size using Nat.strong_induction_on generalizing base with
  | _ size ih =>
    rw [search]
    by_cases hone : 1 < size
    · simp only [if_pos hone]
      by_cases hmid : isBelow entries x (base + size / 2) = true
      · rw [if_pos hmid]
        have hend : base + size / 2 + (size - size / 2) = base + size := by omega
        refine ih _ (by omega) _ (by omega) (by omega) (.inr hmid) ?_
        rw [hend]
        rcases hup with h | h | ⟨-, h⟩
        · exact .inl h
        · exact .inr (.inl h)
        · refine .inr (.inr ⟨?_, h⟩)
          by_contra hlt
          obtain rfl : size = 2 := by omega
          simp [hmid] at h
      · rw [if_neg hmid]
        rw [Bool.not_eq_true] at hmid
        refine ih _ (by omega) _ (by omega) (by omega) hlow (.inr ?_)
        rcases Nat.even_or_odd' size with ⟨k, rfl | rfl⟩
        · left
          rwa [show base + (2 * k - 2 * k / 2) = base + 2 * k / 2 by omega]
        · right
          exact ⟨by omega, by rwa [show base + (2 * k + 1 - (2 * k + 1) / 2) - 1 = base + (2 * k + 1) / 2 by omega]⟩
    · obtain rfl : size = 1 := by omega
      simp only [Nat.lt_irrefl, if_false, decide_true, Bool.true_and]
      by_cases hb : isBelow entries x base = true
      · rw [if_pos hb]
        exact ⟨hn, .inr (by simpa using hb), hup.imp id (by simp)⟩
      · rw [if_neg hb]
        exact ⟨by omega, .inl (hlow.resolve_right hb), .inr (by simpa using hb)⟩

/-- `position` stops at a boundary, where the last entry stands for all draws beyond it. -/
theorem position_boundary (entries : Array α) (x : α) (h : 0 < entries.size) :
    position entries x < entries.size ∧
      (position entries x = 0 ∨
        isBelow entries (Scalar.smaller x (lastEntry entries)) (position entries x - 1) = true) ∧
      (position entries x = entries.size - 1 ∨
        isBelow entries (Scalar.smaller x (lastEntry entries)) (position entries x) = false) := by
  unfold position
  rcases Nat.eq_zero_or_pos (entries.size - 1) with h0 | h0
  · rw [h0, search]
    simp only [Nat.not_lt_zero, if_false, Nat.zero_ne_one, decide_false, Bool.false_and, Bool.false_eq_true]
    exact ⟨h, .inl trivial, .inl trivial⟩
  · obtain ⟨hle, hlow, hup⟩ := search_boundary entries (Scalar.smaller x (lastEntry entries)) 0 (entries.size - 1)
      (entries.size - 1) h0 (by omega) (.inl rfl) (.inl (by omega))
    exact ⟨by omega, hlow, hup⟩

/-- A positive draw selects neither a leading entry of zero nor one that repeats
the entry before it. The last entry may be positive, or no number at all. -/
theorem position_advances [OrderedScalar α] (entries : Array α) {x : α} (h : 0 < entries.size) (hx : 0 < x)
    (hlast : 0 < lastEntry entries ∨ ¬ lastEntry entries ≤ lastEntry entries) :
    (position entries x = 0 → ∀ v, entries[0]? = some v → Scalar.isZero v = false) ∧
      ∀ i, position entries x = i + 1 → entries[i]? ≠ entries[i + 1]? := by
  obtain ⟨-, hlow, hup⟩ := position_boundary entries x h
  have hy : 0 < Scalar.smaller x (lastEntry entries) ∧ ¬ lastEntry entries < Scalar.smaller x (lastEntry entries) := by
    rcases hlast with hpos | hnone
    · have hself := (OrderedScalar.ordered_of_le (OrderedScalar.le_of_lt hpos)).2
      exact ⟨OrderedScalar.lt_smaller hx hpos, OrderedScalar.not_lt_of_le (OrderedScalar.smaller_le hself)⟩
    · rw [OrderedScalar.smaller_eq_left_of_unordered (OrderedScalar.ordered_of_le (OrderedScalar.le_of_lt hx)).2 hnone]
      exact ⟨hx, fun hlt => hnone (OrderedScalar.ordered_of_le (OrderedScalar.le_of_lt hlt)).1⟩
  generalize Scalar.smaller x (lastEntry entries) = y at hlow hup hy
  -- The last entry is not below the draw either, so the search stops at one that is not.
  have hstop : isBelow entries y (position entries x) = false := by
    rcases hup with hend | hnot
    · have back : entries[entries.size - 1]? = some (lastEntry entries) := by
        rw [lastEntry, Array.back?, Array.getElem?_eq_getElem (by omega)]
        rfl
      rw [hend, isBelow, back]
      exact decide_eq_false hy.2
    · exact hnot
  constructor
  · intro hp v hv
    rw [hp, isBelow, hv] at hstop
    rw [Bool.eq_false_iff]
    intro hz
    exact of_decide_eq_false hstop (OrderedScalar.lt_of_le_of_lt (OrderedScalar.isZero_iff.1 hz).1 hy.1)
  · intro i hp heq
    rw [hp] at hlow hstop
    have hbelow := hlow.resolve_left (by omega)
    rw [Nat.add_sub_cancel, isBelow, heq] at hbelow
    rw [isBelow, hbelow] at hstop
    cases hstop

end Inflow
