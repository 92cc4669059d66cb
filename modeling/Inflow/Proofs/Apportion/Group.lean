import Inflow.Proofs.Apportion.Draws
import Inflow.Proofs.Ranks.Lockstep
import Mathlib.Algebra.BigOperators.Fin
import Mathlib.Algebra.Order.BigOperators.Group.Finset
/-!
# Apportioning over a group

What the ranks of a group get when they share particles out together: the
coordinator's draws decide the shares of all ranks, and each rank lays its own
share out. No group ever lays out more particles than it was asked for.
-/

namespace Inflow.Apportion

variable {α γ : Type} [Scalar α] [Generator γ] {ranks : Nat}

/-! ## Shares -/

/-- The share of a rank that knows its count and has seen what was gathered, if it was to see it. -/
def shareFrom (n : Nat) (stream : RandomStream γ) (gathered : Option (List α)) (count : Nat) : Share γ :=
  match gathered with
  | some weights =>
    let drawn := drawShares n weights stream
    { count, stream := drawn.2.1, messages := drawn.2.2 }
  | none => { count, stream }

theorem overRanks_eq (n : Nat) (weight : α) (seat : Seat) (stream : RandomStream γ) (h : ¬ seat.size ≤ 1) :
    overRanks n weight seat stream = .call .gather weight fun (gathered : Option (List α)) =>
      .call .scatter (gathered.map fun weights => (drawShares n weights stream).1 : Option (List Nat))
        fun (count : Nat) => .done (shareFrom n stream gathered count) := by
  rw [overRanks, if_neg h]
  refine congrArg (Program.call .gather weight) (funext fun (gathered : Option (List α)) => ?_)
  cases gathered <;> rfl

/-- What `rank` sees of the weights that were gathered. -/
def seen (weights : List α) (rank : Nat) : Option (List α) := if rank = 0 then some weights else none

/-- The share of each rank of a group. -/
def rankShare (n : Nat) (weights : Fin ranks → α) (streams : Fin ranks → RandomStream γ) (i : Fin ranks) : Share γ :=
  if ranks ≤ 1 then { count := n, stream := streams i }
  else
    shareFrom n (streams i) (seen (List.ofFn weights) i)
      ((drawShares n (List.ofFn weights) (streams ⟨0, i.pos⟩)).1[(i : Nat)]?.getD 0)

/-- Every rank gets its entry of the coordinator's list. -/
theorem answer_scatter {m : Nat} (lists : Fin (m + 1) → Option (List Nat)) {counts : List Nat}
    (h : lists 0 = some counts) (rank : Nat) :
    Collective.answer (α := α) .scatter (List.ofFn lists) rank = counts[rank]?.getD 0 := by
  have hcons : List.ofFn lists = some counts :: List.ofFn fun i => lists i.succ := by rw [List.ofFn_succ, h]
  exact congrArg (fun (lists : List (Option (List Nat))) => Collective.answer (α := α) .scatter lists rank) hcons

theorem ends_overRanks (n : Nat) (weights : Fin ranks → α) (streams : Fin ranks → RandomStream γ) :
    Group.Ends (fun _ => False) (· = rankShare n weights streams)
      fun i => overRanks n (weights i) { rank := i, size := ranks } (streams i) := by
  by_cases hone : ranks ≤ 1
  · have halone : (fun i : Fin ranks => overRanks n (weights i) { rank := i, size := ranks } (streams i)) =
        fun i => .done (rankShare n weights streams i) := by
      funext i
      rw [overRanks, if_pos hone, rankShare, if_pos hone]
      rfl
    rw [halone]
    exact .done rfl
  · obtain ⟨m, rfl⟩ : ∃ m, ranks = m + 1 := ⟨ranks - 1, by omega⟩
    simp only [fun i : Fin (m + 1) => overRanks_eq n (weights i) { rank := i, size := m + 1 } (streams i) hone]
    refine .call (.call (.done (funext fun i => ?_)))
    rw [rankShare, if_neg hone]
    exact congrArg (shareFrom n (streams i) _) (answer_scatter _ rfl i)

theorem count_rankShare (n : Nat) (weights : Fin ranks → α) (streams : Fin ranks → RandomStream γ) (i : Fin ranks) :
    (rankShare n weights streams i).count = if ranks ≤ 1 then n
      else (drawShares n (List.ofFn weights) (streams ⟨0, i.pos⟩)).1[(i : Nat)]?.getD 0 := by
  unfold rankShare shareFrom
  split
  · rfl
  · split <;> rfl

/-- The ranks' entries of a list add up to the list, if it has one for each rank. -/
theorem sum_entries (cs : List Nat) (h : cs.length = ranks) : ∑ i : Fin ranks, cs[(i : Nat)]?.getD 0 = cs.sum := by
  subst h
  rw [← List.sum_ofFn]
  congr 1
  apply List.ext_getElem <;> simp

/-- The shares of a group of several ranks are what the coordinator has drawn. -/
theorem sum_rankShare (hranks : 2 ≤ ranks) (n : Nat) (weights : Fin ranks → α)
    (streams : Fin ranks → RandomStream γ) : ∑ i, (rankShare n weights streams i).count =
      (drawShares n (List.ofFn weights) (streams ⟨0, by omega⟩)).1.sum := by
  simp only [count_rankShare, if_neg (show ¬ ranks ≤ 1 by omega)]
  refine sum_entries (drawShares n (List.ofFn weights) (streams ⟨0, by omega⟩)).1 ?_
  rw [length_drawShares, List.length_ofFn]

theorem sum_rankShare_le (n : Nat) (weights : Fin ranks → α) (streams : Fin ranks → RandomStream γ) :
    ∑ i, (rankShare n weights streams i).count ≤ n := by
  by_cases hone : ranks ≤ 1
  · simp only [count_rankShare, if_pos hone]
    rw [Finset.sum_const, Finset.card_univ, Fintype.card_fin, smul_eq_mul]
    exact Nat.le_trans (Nat.mul_le_mul_right n hone) (by rw [Nat.one_mul])
  · rw [sum_rankShare (by omega)]
    exact sum_drawShares_le n _ (streams ⟨0, _⟩)

/-- Where scaling leaves zero at zero and the total positive, a rank whose part has no weight gets no share. -/
theorem count_rankShare_of_isZero [OrderedScalar α] (hranks : 2 ≤ ranks) (n : Nat) {weights : Fin ranks → α}
    (streams : Fin ranks → RandomStream γ)
    (hscale : let total := (Cumulative.ofWeights (List.ofFn weights)).total
      0 < total → 0 < total * (1 / total) ∧ Scalar.isZero (0 * (1 / total)) = true)
    {i : Fin ranks} (hi : Scalar.isZero (weights i) = true) : (rankShare n weights streams i).count = 0 := by
  rw [count_rankShare, if_neg (by omega)]
  by_cases htotal : 0 < (Cumulative.ofWeights (List.ofFn weights)).total
  · obtain ⟨hpos, hzero⟩ := hscale htotal
    have hskip := Cumulative.not_selects_of_isZero htotal (.inl hpos) hzero (i := i) (by simp) hi
    rw [counts_of_pos n _ htotal, Array.getElem?_toList, Tally.draw_unselected n _ hskip]
    simp
  · rw [counts_of_not_pos n _ htotal]
    simp

/-! ## Layouts -/

/-- What a rank lays out of a zone, given the tables of all ranks. -/
def rankLayout (n : Nat) (tables : Fin ranks → Cumulative α) (streams : Fin ranks → RandomStream γ) (i : Fin ranks) :
    Layout γ :=
  let share := rankShare n (fun j => (tables j).total) streams i
  let layout := overElements share.count (tables i) share.stream
  { layout with messages := share.messages ++ layout.messages }

/-- Ranks that all have a table share the particles out in step. -/
theorem ends_overZone (n : Nat) {elements : Fin ranks → Array Nat} {weights : Fin ranks → Array α}
    {profiles : Fin ranks → Option (Array α)} (streams : Fin ranks → RandomStream γ) {tables : Fin ranks → Cumulative α}
    (htables : ∀ i, Cumulative.buildIndexed (weights i) (elements i) (profiles i) = .ok (tables i)) :
    Group.Ends (fun _ => False) (· = fun i => .ok (rankLayout n tables streams i)) fun i =>
      overZone n (elements i) (weights i) (profiles i) { rank := i, size := ranks } (streams i) := by
  simp only [overZone, htables]
  refine (ends_overRanks n (fun i => (tables i).total) streams).bind (fun _ _ h => h.elim) ?_
  rintro _ - rfl
  exact .done rfl

theorem placed_rankLayout (n : Nat) (tables : Fin ranks → Cumulative α) (streams : Fin ranks → RandomStream γ)
    (i : Fin ranks) : (rankLayout n tables streams i).placed =
      (placeable (rankShare n (fun j => (tables j).total) streams i).count (tables i)).1 :=
  placed_overElements _ _ _

/-- A group lays out no more particles than it was asked for. -/
theorem sum_placed_le (n : Nat) (tables : Fin ranks → Cumulative α) (streams : Fin ranks → RandomStream γ) :
    ∑ i, (rankLayout n tables streams i).placed ≤ n := by
  refine le_trans (Finset.sum_le_sum fun i _ => ?_) (sum_rankShare_le n (fun j => (tables j).total) streams)
  rw [placed_rankLayout]
  exact placeable_le _ _

/-- Whatever the others reply, a rank lays particles out over the elements that it has of the zone. -/
theorem index_of_overZone {n : Nat} {elements : Array Nat} {weights : Array α} {profile : Option (Array α)}
    {seat : Seat} {stream : RandomStream γ} {layout : Layout γ}
    (h : (overZone n elements weights profile seat stream).Can (.ok layout)) :
    ∃ cs, layout.index = offsets 0 cs ∧ cs.length = elements.size := by
  unfold overZone at h
  split at h
  · cases h
  · rename_i table htable
    simp only [Program.can_bind, Program.pure_eq_done, Program.can_done, Except.ok.injEq] at h
    obtain ⟨share, -, rfl⟩ := h
    obtain ⟨cs, hindex, hcs⟩ := index_overElements share.count table share.stream
    exact ⟨cs, hindex, hcs.trans (Cumulative.size_buildIndexed htable)⟩

end Inflow.Apportion
