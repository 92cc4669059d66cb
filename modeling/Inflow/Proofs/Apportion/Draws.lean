import Inflow.Apportion
import Inflow.Proofs.Fault
import Inflow.Proofs.Sampling.Cumulative
/-!
# Draws

Every draw adds one particle to one element, so what comes out of a number of
draws adds up to that number as long as no draw selects anything beyond the
last element. An element that no draw can select keeps its count.
-/

namespace Inflow

variable {α γ : Type} [Scalar α] [Generator γ]

/-- Some draw selects element `i`. -/
def Selects (entries : Array α) (i : Nat) : Prop := ∃ u, position entries (Scalar.larger u Scalar.tiny) = i

theorem selects_lt {entries : Array α} {i : Nat} (h : Selects entries i) (hsize : 0 < entries.size) :
    i < entries.size := by
  obtain ⟨u, rfl⟩ := h
  exact (position_boundary entries _ hsize).1

/-! ## Tallies -/

theorem sum_modify_succ (cs : List Nat) (i : Nat) :
    (cs.modify i (· + 1)).sum = cs.sum + if i < cs.length then 1 else 0 := by
  induction cs generalizing i with
  | nil => simp
  | cons c cs ih =>
    cases i with
    | zero => simp; omega
    | succ i => simp [ih]; omega

namespace Tally

/-- The number of particles in a tally. -/
def placed (t : Tally α γ) : Nat := t.counts.toList.sum

/-- A tally after one draw: the element it selects has one particle more. -/
theorem draw_succ (n : Nat) (t : Tally α γ) : ∃ i t', draw (n + 1) t = draw n t' ∧ Selects t.table.entries i ∧
    t'.counts = t.counts.modify i (· + 1) ∧ t'.table.entries = t.table.entries :=
  ⟨_, _, rfl, ⟨_, rfl⟩, rfl, rfl⟩

/-- What one draw keeps, any number of draws keeps. -/
theorem draw_induction {motive : Tally α γ → Prop} {entries : Array α}
    (step : ∀ t t' i, Selects entries i → t'.counts = t.counts.modify i (· + 1) → motive t → motive t')
    {n : Nat} {t : Tally α γ} (ht : t.table.entries = entries) (h : motive t) : motive (draw n t) := by
  induction n generalizing t with
  | zero => exact h
  | succ n ih =>
    obtain ⟨i, t', heq, hi, hcounts, hentries⟩ := draw_succ n t
    rw [heq]
    exact ih (hentries.trans ht) (step t t' i (ht ▸ hi) hcounts h)

theorem size_draw (n : Nat) (t : Tally α γ) : (draw n t).counts.size = t.counts.size :=
  draw_induction (motive := fun t' => t'.counts.size = t.counts.size)
    (fun _ _ _ _ hcounts h => by rw [hcounts, Array.size_modify, h]) rfl rfl

theorem placed_draw (n : Nat) (t : Tally α γ) (hsel : ∀ i, Selects t.table.entries i → i < t.counts.size) :
    (draw n t).placed = t.placed + n := by
  induction n generalizing t with
  | zero => rfl
  | succ n ih =>
    obtain ⟨i, t', heq, hi, hcounts, hentries⟩ := draw_succ n t
    have hone : t'.placed = t.placed + 1 := by
      rw [placed, hcounts, Array.toList_modify, sum_modify_succ, if_pos (by simpa using hsel i hi), placed]
    rw [heq, ih t' (by simpa [hcounts, hentries] using hsel), hone]
    omega

theorem placed_draw_le (n : Nat) (t : Tally α γ) : (draw n t).placed ≤ t.placed + n := by
  induction n generalizing t with
  | zero => exact Nat.le_refl _
  | succ n ih =>
    obtain ⟨i, t', heq, -, hcounts, -⟩ := draw_succ n t
    have hone : t'.placed ≤ t.placed + 1 := by
      rw [placed, hcounts, Array.toList_modify, sum_modify_succ, placed]
      split <;> omega
    rw [heq]
    exact (ih t').trans (by omega)

theorem draw_unselected (n : Nat) (t : Tally α γ) {i : Nat} (hi : ¬ Selects t.table.entries i) :
    (draw n t).counts[i]? = t.counts[i]? := by
  refine draw_induction (motive := fun t' => t'.counts[i]? = t.counts[i]?) ?_ rfl rfl
  intro t₁ t₂ j hj hcounts h
  rw [hcounts, Array.getElem?_modify, if_neg (by rintro rfl; exact hi hj), h]

end Tally

/-! ## Normalized tables -/

namespace Cumulative

theorem exists_ofWeights_of_buildIndexed {parents : Array α} {elements : Array Nat} {profile : Option (Array α)}
    {c : Cumulative α} (h : buildIndexed parents elements profile = .ok c) : ∃ ws, c = ofWeights ws := by
  unfold buildIndexed at h
  split at h
  · obtain ⟨ws, -, h⟩ := bind_eq_ok.1 h
    exact ⟨_, pure_eq_ok.1 h⟩
  · split at h
    · obtain ⟨ws, -, h⟩ := bind_eq_ok.1 h
      exact ⟨_, pure_eq_ok.1 h⟩
    · cases h

/-- The table of a zone has an entry for each of its elements. -/
theorem size_buildIndexed {parents : Array α} {elements : Array Nat} {profile : Option (Array α)} {c : Cumulative α}
    (h : buildIndexed parents elements profile = .ok c) : c.entries.size = elements.size := by
  unfold buildIndexed at h
  split at h
  · obtain ⟨ws, hws, h⟩ := bind_eq_ok.1 h
    rw [pure_eq_ok.1 h, size_entries, ← (mapM_eq_ok.1 hws).length_eq, Array.length_toList]
  · split at h
    · rename_i values hvalues
      obtain ⟨ws, hws, h⟩ := bind_eq_ok.1 h
      rw [pure_eq_ok.1 h, size_entries, List.length_zipWith, ← (mapM_eq_ok.1 hws).length_eq, Array.length_toList,
        Array.length_toList, hvalues, Nat.min_self]
    · cases h

theorem size_normalize (c : Cumulative α) : c.normalize.entries.size = c.entries.size := by
  unfold normalize
  split <;> simp

theorem entries_normalize {c : Cumulative α} (h : 0 < c.total) :
    c.normalize.entries = c.entries.map (· * (1 / c.total)) := by
  rw [normalize, if_pos h]

theorem lastEntry_map {entries : Array α} (f : α → α) (h : 0 < entries.size) :
    lastEntry (entries.map f) = f (lastEntry entries) := by
  have hlt : entries.size - 1 < entries.size := by omega
  simp [lastEntry, Array.back?, hlt]

theorem selects_normalize {c : Cumulative α} {i : Nat} (h : Selects c.normalize.entries i)
    (hsize : 0 < c.entries.size) : i < c.entries.size := by
  rw [← c.size_normalize] at hsize ⊢
  exact selects_lt h hsize

variable [OrderedScalar α]

theorem entries_pos {ws : List α} (h : 0 < (ofWeights ws).total) : 0 < (ofWeights ws).entries.size := by
  rw [size_entries]
  rcases ws with _ | ⟨w, ws⟩
  · exact absurd h (OrderedScalar.not_lt_self (x := (0 : α)))
  · simp

/-- Where scaling leaves zero at zero, and the total positive or no number, no draw selects a weight of zero. -/
theorem not_selects_of_isZero {ws : List α} (h : 0 < (ofWeights ws).total)
    (hlast : let last := (ofWeights ws).total * (1 / (ofWeights ws).total)
      0 < last ∨ ¬ last ≤ last)
    (hzero : Scalar.isZero (0 * (1 / (ofWeights ws).total) : α) = true) {i : Nat} {w : α}
    (hi : ws[i]? = some w) (hw : Scalar.isZero w = true) : ¬ Selects (ofWeights ws).normalize.entries i := by
  rintro ⟨u, hu⟩
  have hsize := entries_pos h
  have hlen : i < ws.length := (List.getElem?_eq_some_iff.1 hi).1
  -- The sum does not move at a weight of zero, so its entry repeats the one before.
  have hsame : RunningSum.after (ws.take (i + 1)) = RunningSum.after (ws.take i) := by
    rw [List.take_add_one, hi, Option.toList_some, RunningSum.after_concat, RunningSum.add_of_isZero _ hw]
  have htiny : (Scalar.tiny : α) ≤ Scalar.tiny :=
    (OrderedScalar.ordered_of_le (OrderedScalar.le_of_lt OrderedScalar.zero_lt_tiny)).2
  have hdraw : (0 : α) < Scalar.larger u Scalar.tiny :=
    OrderedScalar.lt_of_lt_of_le OrderedScalar.zero_lt_tiny (OrderedScalar.le_larger_right htiny)
  have hscaled : lastEntry (ofWeights ws).normalize.entries =
      (ofWeights ws).total * (1 / (ofWeights ws).total) := by
    rw [entries_normalize h, lastEntry_map _ hsize]
    rfl
  obtain ⟨hfirst, hnext⟩ := position_advances (ofWeights ws).normalize.entries (by rwa [size_normalize]) hdraw
    (hscaled ▸ hlast)
  rw [hu] at hfirst hnext
  have hentry (j : Nat) (hj : j < ws.length) : (ofWeights ws).normalize.entries[j]? =
      some ((RunningSum.after (ws.take (j + 1))).top * (1 / (ofWeights ws).total)) := by
    rw [entries_normalize h, Array.getElem?_map, entry_eq ws hj]
    rfl
  cases i with
  | zero =>
    have hnot := hfirst rfl _ (hentry 0 hlen)
    rw [hsame] at hnot
    exact Bool.false_ne_true (hnot.symm.trans hzero)
  | succ j => exact hnext j rfl (by rw [hentry j (by omega), hentry (j + 1) hlen, hsame])

end Cumulative

/-! ## Shares and layouts -/

namespace Apportion

theorem counts_of_pos (n : Nat) {ws : List α} (s : RandomStream γ) (h : 0 < (Cumulative.ofWeights ws).total) :
    (drawShares n ws s).1 = (Tally.draw n {
      counts := Array.replicate ws.length 0
      table := (Cumulative.ofWeights ws).normalize
      stream := s }).counts.toList := by
  simp [drawShares, h]

theorem counts_of_not_pos (n : Nat) {ws : List α} (s : RandomStream γ) (h : ¬ 0 < (Cumulative.ofWeights ws).total) :
    (drawShares n ws s).1 = List.replicate ws.length 0 := by
  simp [drawShares, h]

theorem length_drawShares (n : Nat) (ws : List α) (s : RandomStream γ) : (drawShares n ws s).1.length = ws.length := by
  by_cases h : 0 < (Cumulative.ofWeights ws).total
  · simp [counts_of_pos n s h, Tally.size_draw]
  · simp [counts_of_not_pos n s h]

theorem sum_drawShares_le (n : Nat) (ws : List α) (s : RandomStream γ) : (drawShares n ws s).1.sum ≤ n := by
  by_cases h : 0 < (Cumulative.ofWeights ws).total
  · rw [counts_of_pos n s h]
    refine (Tally.placed_draw_le n _).trans ?_
    simp [Tally.placed]
  · simp [counts_of_not_pos n s h]

/-- The offset after the last element: the number of particles that are laid out. -/
def Layout.placed (l : Layout γ) : Nat := l.index.getLastD 0

omit [Generator γ] in
theorem getLastD_offsets (start : Nat) (cs : List Nat) (d : Nat) : (offsets start cs).getLastD d = start + cs.sum := by
  induction cs generalizing start d with
  | nil => rfl
  | cons c cs ih => rw [offsets, List.getLastD_cons, ih, List.sum_cons, Nat.add_assoc]

omit [Generator γ] in
/-- A table without entries takes no particles. -/
theorem placeable_of_empty (n : Nat) {c : Cumulative α} (h : c.entries.size = 0) : placeable n c = (0, []) := by
  rw [placeable, if_pos (by simp [Array.eq_empty_of_size_eq_zero h])]

/-- All particles that a table can take are laid out. -/
theorem placed_overElements (n : Nat) (c : Cumulative α) (s : RandomStream γ) :
    (overElements n c s).placed = (placeable n c).1 := by
  rw [Layout.placed, overElements, getLastD_offsets, Nat.zero_add]
  change Tally.placed _ = _
  by_cases hsize : 0 < c.entries.size
  · rw [Tally.placed_draw]
    · simp [Tally.placed]
    · intro i hi
      simpa using Cumulative.selects_normalize hi hsize
  · rw [placeable_of_empty n (Nat.eq_zero_of_not_pos hsize)]
    simp [Tally.draw, Tally.placed]

/-- A layout has an offset for each entry of its table, and one more. -/
theorem index_overElements (n : Nat) (c : Cumulative α) (s : RandomStream γ) :
    ∃ cs, (overElements n c s).index = offsets 0 cs ∧ cs.length = c.entries.size :=
  ⟨_, rfl, by rw [Array.length_toList, Tally.size_draw, Array.size_replicate]⟩

theorem placeable_le (n : Nat) (c : Cumulative α) : (placeable n c).1 ≤ n := by
  unfold placeable
  split
  · exact Nat.zero_le n
  · split
    · exact Nat.zero_le n
    · exact Nat.le_refl n

variable [OrderedScalar α]

theorem sum_drawShares (n : Nat) {ws : List α} (s : RandomStream γ) (h : 0 < (Cumulative.ofWeights ws).total) :
    (drawShares n ws s).1.sum = n := by
  rw [counts_of_pos n s h]
  refine (Tally.placed_draw n _ fun i hi => ?_).trans ?_
  · simpa [Cumulative.size_entries] using Cumulative.selects_normalize hi (Cumulative.entries_pos h)
  · simp [Tally.placed]

theorem placeable_ofWeights (n : Nat) {ws : List α} (h : 0 < (Cumulative.ofWeights ws).total) :
    (placeable n (Cumulative.ofWeights ws)).1 = n := by
  have hempty : (Cumulative.ofWeights ws).entries.isEmpty = false := by
    rw [Array.isEmpty_eq_false_iff, ← Array.size_pos_iff]
    exact Cumulative.entries_pos h
  have hle : ¬ (Cumulative.ofWeights ws).total ≤ 0 := fun hle => OrderedScalar.not_lt_of_le hle h
  rw [placeable, hempty, Bool.or_false]
  split
  · simp_all
  · rfl

theorem placeable_of_not_pos (n : Nat) {ws : List α} (h : ¬ 0 < (Cumulative.ofWeights ws).total) :
    (placeable n (Cumulative.ofWeights ws)).1 = 0 := by
  have hle : (Cumulative.ofWeights ws).total ≤ 0 :=
    OrderedScalar.le_of_not_lt OrderedScalar.zero_le_zero
      (OrderedScalar.ordered_of_le (Cumulative.zero_le_total ws)).2 h
  rw [placeable, if_pos hle]
  split <;> rfl

end Apportion
end Inflow
