import Inflow.Proofs.Mesh
import Inflow.Proofs.Scalar.Rational
/-!
# Numbers of cells and faces

The cells of a box are numbered row by row and plane by plane, its faces side by side
and on each side row by row. The tables of its mesh are filled in this order. So what
stands at a number belongs to the layers that can be read off the number, and the
faces of a side are in front of the cells of its outermost layer, one each.
-/

namespace Inflow

/-! ## Rows and blocks -/

section Tables

variable {β σ : Type}

/-- A table that is filled row by row has at `k` what belongs to column `k % n` of row `k / n`. -/
theorem grid_eq (f : Nat → Nat → β) (n m : Nat) : ((List.range m).flatMap fun j => (List.range n).map fun i => f i j) =
    (List.range (n * m)).map fun k => f (k % n) (k / n) := by
  induction m with
  | zero => rfl
  | succ m ih =>
    have hrow : ∀ i ∈ List.range n, f i m = f ((n * m + i) % n) ((n * m + i) / n) := by
      intro i hi
      have hi := List.mem_range.1 hi
      rw [Nat.mul_add_mod, Nat.mod_eq_of_lt hi, Nat.mul_add_div (Nat.zero_lt_of_lt hi), Nat.div_eq_of_lt hi, Nat.add_zero]
    rw [List.range_succ, List.flatMap_append, ih, Nat.mul_succ, List.range_add, List.map_append, List.map_map,
      List.flatMap_singleton]
    exact congrArg _ (List.map_congr_left hrow)

/-- A table that is filled block by block has each block behind those before it. -/
theorem getElem?_flatMap_block (g : σ → List β) (before : List σ) (s : σ) (after : List σ) {k : Nat}
    (hk : k < (g s).length) :
    ((before ++ s :: after).flatMap g)[(before.map fun t => (g t).length).sum + k]? = (g s)[k]? := by
  rw [List.flatMap_append, List.flatMap_cons, ← List.length_flatMap, List.getElem?_append_right (Nat.le_add_right _ k),
    Nat.add_sub_cancel_left, List.getElem?_append_left hk]

end Tables

namespace Box

variable {α : Type} (b : Box α)

/-! ## Cells -/

/-- The layer of an axis that the cell with number `c` lies in. -/
def cellLayer (c : Nat) : Axis → Nat
  | .x => c % b.layers.along .x
  | .y => c / b.layers.along .x % b.layers.along .y
  | .z => c / b.layers.along .x / b.layers.along .y

/-- A cell is in the layers that its number is made of. -/
theorem cellLayer_cellAt {layer : Axis → Nat} (h : ∀ axis, layer axis < b.layers.along axis) (axis : Axis) :
    b.cellLayer (b.cellAt (layer .x) (layer .y) (layer .z)) axis = layer axis := by
  have hx := h .x
  have hy := h .y
  have hrest : b.cellAt (layer .x) (layer .y) (layer .z) / b.layers.along .x =
      layer .y + b.layers.along .y * layer .z := by
    rw [cellAt, Nat.add_mul_div_left _ _ (Nat.zero_lt_of_lt hx), Nat.div_eq_of_lt hx, Nat.zero_add]
  cases axis with
  | x => rw [cellLayer, cellAt, Nat.add_mul_mod_self_left, Nat.mod_eq_of_lt hx]
  | y => rw [cellLayer, hrest, Nat.add_mul_mod_self_left, Nat.mod_eq_of_lt hy]
  | z =>
    rw [cellLayer, hrest, Nat.add_mul_div_left _ _ (Nat.zero_lt_of_lt hy), Nat.div_eq_of_lt hy, Nat.zero_add]

theorem cellAt_cellLayer (c : Nat) : b.cellAt (b.cellLayer c .x) (b.cellLayer c .y) (b.cellLayer c .z) = c := by
  simp only [cellAt, cellLayer, Nat.mod_add_div]

theorem cellLayer_lt {c : Nat} (hc : c < b.cells) (axis : Axis) : b.cellLayer c axis < b.layers.along axis := by
  have hpos : 0 < b.cells := Nat.zero_lt_of_lt hc
  simp only [cells, Nat.pos_iff_ne_zero, ne_eq, Nat.mul_eq_zero, not_or] at hpos
  obtain ⟨⟨hx, hy⟩, -⟩ := hpos
  cases axis with
  | x => exact Nat.mod_lt _ (Nat.pos_of_ne_zero hx)
  | y => exact Nat.mod_lt _ (Nat.pos_of_ne_zero hy)
  | z =>
    rw [cellLayer, Nat.div_div_eq_div_mul]
    exact Nat.div_lt_of_lt_mul hc

/-- A box with layers along every axis is one that has cells. -/
theorem layered_iff : b.Layered ↔ 0 < b.cells := by
  constructor
  · intro h
    exact Nat.mul_pos (Nat.mul_pos (h .x) (h .y)) (h .z)
  · intro h axis
    exact Nat.zero_lt_of_lt (b.cellLayer_lt h axis)

/-! ## Faces -/

/-- The number of faces on a side, whatever its size. -/
def sideSize (s : Side) : Nat := b.layers.along s.along.1 * b.layers.along s.along.2

/-- The number of faces on the sides before a side. -/
def sideStart (s : Side) : Nat := (s.before.map b.sideSize).sum

/-- The number of faces, whatever its size. -/
def faces : Nat := (Side.all.map b.sideSize).sum

/-- The numbers of the faces on a side, whatever their size. -/
def facesOn (s : Side) : List Nat := List.range' (b.sideStart s) (b.sideSize s)

theorem Side.before_eq {s : Side} {before after : List Side} (h : before ++ s :: after = Side.all) :
    s.before = before := by
  have hnodup : (before ++ s :: after).Nodup := h ▸ (by decide : Side.all.Nodup)
  have hbefore : ∀ t ∈ before, (t != s) = true := by
    rintro t ht
    rw [bne_iff_ne]
    rintro rfl
    exact List.disjoint_of_nodup_append hnodup ht List.mem_cons_self
  rw [Side.before, ← h, List.takeWhile_append_of_pos hbefore, List.takeWhile_cons_of_neg (by simp), List.append_nil]

theorem Side.exists_after (s : Side) : ∃ after, Side.all = s.before ++ s :: after := by
  cases s <;> exact ⟨_, rfl⟩

/-- The numbers of a side end where those of the next begin. -/
theorem flatMap_facesOn_from {before after : List Side} (h : before ++ after = Side.all) :
    after.flatMap b.facesOn = List.range' (before.map b.sideSize).sum (after.map b.sideSize).sum := by
  induction after generalizing before with
  | nil => rfl
  | cons s after ih =>
    have hrest := @ih (before ++ [s]) (by rw [List.append_assoc, List.singleton_append, h])
    rw [List.map_append, List.sum_append, List.map_singleton, List.sum_singleton] at hrest
    rw [List.flatMap_cons, hrest, facesOn, sideStart, Side.before_eq h, List.range'_append_1, List.map_cons,
      List.sum_cons]

theorem flatMap_facesOn : Side.all.flatMap b.facesOn = List.range b.faces := by
  have hall := b.flatMap_facesOn_from (List.nil_append Side.all)
  rw [hall, List.range_eq_range']
  rfl

theorem sideStart_add_le (s : Side) : b.sideStart s + b.sideSize s ≤ b.faces := by
  obtain ⟨after, hall⟩ := s.exists_after
  rw [faces, hall, List.map_append, List.map_cons, List.sum_append, List.sum_cons, sideStart]
  omega

/-- Column and row of a place on a side. -/
theorem lt_of_lt_sideSize {b : Box α} {s : Side} {k : Nat} (hk : k < b.sideSize s) :
    k % b.layers.along s.along.1 < b.layers.along s.along.1 ∧
      k / b.layers.along s.along.1 < b.layers.along s.along.2 := by
  have hpos : 0 < b.layers.along s.along.1 := Nat.pos_of_ne_zero fun hzero => by
    rw [sideSize, hzero, Nat.zero_mul] at hk
    exact Nat.not_lt_zero k hk
  exact ⟨Nat.mod_lt k hpos, Nat.div_lt_of_lt_mul hk⟩

theorem mem_facesOn {b : Box α} {s : Side} {g : Nat} : g ∈ b.facesOn s ↔ ∃ k < b.sideSize s, g = b.sideStart s + k := by
  rw [facesOn, List.mem_range'_1]
  constructor
  · rintro ⟨hle, hlt⟩
    exact ⟨g - b.sideStart s, by omega, by omega⟩
  · rintro ⟨k, hk, rfl⟩
    omega

/-- Every face is on some side. -/
theorem exists_side {g : Nat} (hg : g < b.faces) : ∃ s, ∃ k < b.sideSize s, g = b.sideStart s + k := by
  have hmem : g ∈ Side.all.flatMap b.facesOn := b.flatMap_facesOn ▸ List.mem_range.2 hg
  obtain ⟨s, -, hs⟩ := List.mem_flatMap.1 hmem
  exact ⟨s, mem_facesOn.1 hs⟩

/-! ## Counting -/

theorem mapM_sideFaceCount {sides : List Side} {ns : List Nat} : sides.mapM b.sideFaceCount = .ok ns ↔
    ns = sides.map b.sideSize ∧ ∀ s ∈ sides, b.sideSize s ≤ Count.limit := by
  induction sides generalizing ns with
  | nil => simp [pure_eq_ok]
  | cons s sides ih =>
    simp only [List.mapM_cons, bind_eq_ok, pure_eq_ok, ih, List.forall_mem_cons, List.map_cons]
    constructor
    · rintro ⟨_, hs, _, ⟨rfl, hrest⟩, rfl⟩
      obtain ⟨rfl, hlimit⟩ := Count.checked_eq_ok.1 hs
      exact ⟨rfl, hlimit, hrest⟩
    · rintro ⟨rfl, hlimit, hrest⟩
      exact ⟨_, Count.checked_eq_ok.2 ⟨rfl, hlimit⟩, _, ⟨rfl, hrest⟩, rfl⟩

theorem sum_sideFaceCount {sides : List Side} {n : Nat} :
    (do Count.sum (← sides.mapM b.sideFaceCount)) = .ok n ↔
      n = (sides.map b.sideSize).sum ∧ (sides.map b.sideSize).sum ≤ Count.limit := by
  simp only [bind_eq_ok, mapM_sideFaceCount, Count.sum_eq_ok]
  constructor
  · rintro ⟨_, ⟨rfl, -⟩, hsum⟩
    exact hsum
  · rintro ⟨rfl, hlimit⟩
    exact ⟨_, ⟨rfl, fun s hs => (List.le_sum_of_mem (List.mem_map_of_mem hs)).trans hlimit⟩, rfl, hlimit⟩

theorem faceCount_eq_ok {n : Nat} : b.faceCount = .ok n ↔ n = b.faces ∧ b.faces ≤ Count.limit := b.sum_sideFaceCount

variable {b}

/-- Where all faces can be counted, the numbers of each side are known. -/
theorem sideOffset_eq (h : b.faces ≤ Count.limit) (s : Side) : b.sideOffset s = .ok (b.sideStart s) := by
  have hle := b.sideStart_add_le s
  exact b.sum_sideFaceCount.2 ⟨rfl, by change b.sideStart s ≤ Count.limit; omega⟩

theorem sideFaceCount_eq (h : b.faces ≤ Count.limit) (s : Side) : b.sideFaceCount s = .ok (b.sideSize s) := by
  have hle := b.sideStart_add_le s
  exact Count.checked_eq_ok.2 ⟨rfl, by change b.sideSize s ≤ Count.limit; omega⟩

/-- The numbers of a side's faces are listed if there is storage for them. -/
theorem sideFaces_eq (h : b.faces ≤ Count.limit) (s : Side) : b.sideFaces s =
    if b.sideSize s * numberBytes ≤ Count.byteLimit then .ok (b.facesOn s) else .error .tooLarge := by
  have hadd : Count.add (b.sideStart s) (b.sideSize s) = .ok (b.sideStart s + b.sideSize s) :=
    Count.add_eq_ok.2 ⟨rfl, (b.sideStart_add_le s).trans h⟩
  have hlist : b.sideFaces s = (Count.store (b.sideSize s) numberBytes >>= fun _ => pure (b.facesOn s)) := by
    rw [sideFaces, sideOffset_eq h, sideFaceCount_eq h]
    change (Count.add (b.sideStart s) (b.sideSize s) >>= _) = _
    rw [hadd]
    rfl
  rw [hlist, Count.store]
  split <;> rfl

end Box
end Inflow
