import Mathlib
import Inflow.Proofs.Apportion.Draws
/-!
# Layouts are histograms

Laying particles out counts, for each element of a table, the draws that select it.
The counts end up as offsets, so the number of particles of an element is what its
offset and the next one differ by, and a stream is left exactly as many values
further on as there are particles.
-/

namespace Inflow

variable {α γ : Type} [Scalar α]

/-! ## Draws -/

namespace RandomStream

variable [Generator γ]

/-- The next `n` uniform values of a stream, and the stream after them. -/
def uniforms : Nat → RandomStream γ → List α × RandomStream γ
  | 0, s => ([], s)
  | n + 1, s =>
    let drawn : α × RandomStream γ := s.uniform
    let others := uniforms n drawn.2
    (drawn.1 :: others.1, others.2)

theorem length_uniforms (n : Nat) (s : RandomStream γ) : (s.uniforms n : List α × _).1.length = n := by
  induction n generalizing s with
  | zero => rfl
  | succ n ih => rw [uniforms, List.length_cons, ih]

theorem draws_uniforms (n : Nat) (s : RandomStream γ) : (s.uniforms n : List α × _).2.draws = s.draws + n := by
  induction n generalizing s with
  | zero => rfl
  | succ n ih =>
    rw [uniforms, ih, Nat.add_comm n 1, ← Nat.add_assoc]
    rfl

end RandomStream

namespace Cumulative

/-- The elements that a normalized table selects at some draws, in their order. -/
def selections (c : Cumulative α) (us : List α) : Checked (List Nat) := us.mapM fun u => return (← c.sample u).1

theorem selections_eq {c : Cumulative α} {us : List α} (h : us ≠ [] → 0 < c.entries.size) :
    c.selections us = .ok (us.map fun u => (c.select u).1) := by
  rw [selections, mapM_eq_ok, List.forall₂_map_right_iff, List.forall₂_same]
  intro u hu
  have hsize := h (List.ne_nil_of_mem hu)
  have hsample : c.sample u = .ok (c.select u) := if_neg (by simpa using Array.ne_empty_of_size_pos hsize)
  rw [hsample]
  rfl

/-- Tables are built from a list of weights, or from those that elements have in a
larger table, each times its profile value if there is a profile. -/
inductive Built : Cumulative α → Prop
  | direct {weights : Array α} {profile : Option (Array α)} {c : Cumulative α} (h : build weights profile = .ok c) :
    Built c
  | indexed {parents : Array α} {elements : Array Nat} {profile : Option (Array α)} {c : Cumulative α}
    (h : buildIndexed parents elements profile = .ok c) : Built c

theorem Built.exists_ofWeights {c : Cumulative α} (h : Built c) : ∃ ws, c = ofWeights ws := by
  cases h with
  | @direct weights profile _ h =>
    cases profile with
    | none => exact ⟨_, (Except.ok.inj h).symm⟩
    | some values =>
      simp only [build] at h
      split at h
      · exact ⟨_, (Except.ok.inj h).symm⟩
      · exact absurd h nofun
  | indexed h => exact exists_ofWeights_of_buildIndexed h

end Cumulative

/-! ## Tallies -/

namespace Tally

variable [Generator γ]

theorem stream_draw (n : Nat) (t : Tally α γ) : (draw n t).stream = (t.stream.uniforms n : List α × _).2 := by
  induction n generalizing t with
  | zero => rfl
  | succ n ih =>
    rw [draw, ih]
    rfl

/-- Every draw goes to the count of the element it selects. -/
theorem counts_draw (n : Nat) (t : Tally α γ) (i : Nat) : (draw n t).counts[i]? =
    t.counts[i]?.map (· + ((t.stream.uniforms n).1.map fun u => (t.table.select u).1).count i) := by
  induction n generalizing t with
  | zero => simp [draw, RandomStream.uniforms]
  | succ n ih =>
    rw [draw, ih, RandomStream.uniforms, List.map_cons, List.count_cons, Array.getElem?_modify]
    -- A draw leaves the entries of the table as they are, and so all later selections.
    change _ = t.counts[i]?.map fun k => k + (_ + _)
    simp only [beq_iff_eq]
    split
    · rw [Option.map_map]
      congr 1
      funext k
      simp only [Function.comp_apply]
      rw [Nat.add_right_comm, Nat.add_assoc]
      rfl
    · rfl

end Tally

/-! ## Offsets -/

namespace Apportion

theorem length_offsets (a : Nat) (cs : List Nat) : (offsets a cs).length = cs.length + 1 := by
  induction cs generalizing a with
  | nil => rfl
  | cons c cs ih => rw [offsets, List.length_cons, ih, List.length_cons]

/-- An offset is the number of particles of all elements before. -/
theorem getElem?_offsets (a : Nat) {cs : List Nat} {i : Nat} (hi : i ≤ cs.length) :
    (offsets a cs)[i]? = some (a + (cs.take i).sum) := by
  induction cs generalizing a i with
  | nil =>
    obtain rfl := Nat.le_zero.1 hi
    rfl
  | cons c cs ih =>
    cases i with
    | zero => rfl
    | succ i =>
      rw [offsets, List.getElem?_cons_succ, ih (a + c) (Nat.le_of_succ_le_succ hi), List.take_succ_cons, List.sum_cons,
        Nat.add_assoc]

theorem pairwise_offsets (a : Nat) (cs : List Nat) : (offsets a cs).Pairwise (· ≤ ·) := by
  rw [List.pairwise_iff_getElem]
  intro i j hi hj hij
  rw [length_offsets] at hi hj
  have hat {k : Nat} (hk : k < (offsets a cs).length) : (offsets a cs)[k] = a + (cs.take k).sum := by
    have hle : k ≤ cs.length := by
      rw [length_offsets] at hk
      omega
    rw [← Option.some.injEq, ← List.getElem?_eq_getElem hk, getElem?_offsets a hle]
  rw [hat, hat]
  exact Nat.add_le_add_left (List.monotone_sum_take cs hij.le) a

theorem getLast?_offsets (a : Nat) (cs : List Nat) : (offsets a cs).getLast? = some (a + cs.sum) := by
  rw [List.getLast?_eq_getElem?, length_offsets, Nat.add_sub_cancel, getElem?_offsets a le_rfl, List.take_length]

/-! ## Layouts -/

variable [Generator γ]

/-- The layout of `m` particles counts the draws that select each element of a table. -/
structure IsHistogram (c : Cumulative α) (s : RandomStream γ) (m : Nat) (l : Layout γ) : Prop where
  length : l.index.length = c.entries.size + 1
  first : l.index[0]? = some 0
  sorted : l.index.Pairwise (· ≤ ·)
  last : l.index.getLast? = some m
  /-- The stream is `m` values further on. -/
  stream : l.stream = (s.uniforms m : List α × _).2
  draws : l.stream.draws = s.draws + m
  /-- Those values select elements, each as often as its offsets say. -/
  counts : ∃ selected, c.normalize.selections (s.uniforms m).1 = .ok selected ∧ selected.length = m ∧
    ∀ i < c.entries.size, ∃ a b, l.index[i]? = some a ∧ l.index[i + 1]? = some b ∧ b = a + selected.count i

theorem isHistogram_overElements (n : Nat) (c : Cumulative α) (s : RandomStream γ) :
    IsHistogram c s (placeable n c).1 (overElements n c s) := by
  let t : Tally α γ := { counts := Array.replicate c.entries.size 0, table := c.normalize, stream := s }
  obtain ⟨m, hm⟩ : ∃ m, m = (placeable n c).1 := ⟨_, rfl⟩
  have hstream := Tally.stream_draw m t
  have hindex : (overElements n c s).index = offsets 0 (Tally.draw m t).counts.toList := by rw [hm]; rfl
  have hleft : (overElements n c s).stream = (Tally.draw m t).stream := by rw [hm]; rfl
  have hlength : (Tally.draw m t).counts.toList.length = c.entries.size := by
    rw [Array.length_toList, Tally.size_draw, Array.size_replicate]
  have hsum : (Tally.draw m t).counts.toList.sum = m := by
    have hplaced := placed_overElements n c s
    rwa [Layout.placed, hindex, getLastD_offsets, Nat.zero_add, ← hm] at hplaced
  rw [← hm]
  refine ⟨?_, ?_, ?_, ?_, hleft.trans hstream, ?_, ?_⟩
  · rw [hindex, length_offsets, hlength]
  · rw [hindex, getElem?_offsets 0 (Nat.zero_le _)]
    rfl
  · rw [hindex]
    exact pairwise_offsets 0 _
  · rw [hindex, getLast?_offsets, hsum, Nat.zero_add]
  · rw [hleft, hstream, RandomStream.draws_uniforms]
  · have hentries : (s.uniforms m : List α × RandomStream γ).1 ≠ [] → 0 < c.normalize.entries.size := by
      intro hne
      have hm0 : m ≠ 0 := fun h0 => hne (List.eq_nil_of_length_eq_zero (by rw [RandomStream.length_uniforms, h0]))
      rw [Cumulative.size_normalize]
      refine Nat.pos_of_ne_zero fun hempty => hm0 ?_
      rw [hm, placeable_of_empty n hempty]
    refine ⟨_, Cumulative.selections_eq hentries, ?_, fun i hi => ?_⟩
    · rw [List.length_map, RandomStream.length_uniforms]
    have hlt : i < (Tally.draw m t).counts.toList.length := by rwa [hlength]
    refine ⟨_, _, by rw [hindex, getElem?_offsets 0 hlt.le], by rw [hindex, getElem?_offsets 0 hlt], ?_⟩
    have hcount : (Tally.draw m t).counts.toList[i] =
        ((s.uniforms m).1.map fun u => (c.normalize.select u).1).count i := by
      have hget := Tally.counts_draw m t i
      rw [← Array.getElem?_toList, List.getElem?_eq_getElem hlt] at hget
      simpa [t, hi] using hget
    rw [List.sum_take_succ _ _ hlt, hcount, Nat.add_assoc]

end Apportion
end Inflow
