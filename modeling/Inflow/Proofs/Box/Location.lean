import Mathlib
import Inflow.Proofs.Box.Tables
import Inflow.Proofs.Scalar.Exact
/-!
# Finding the cell of a point

A point has a layer along each axis exactly if its coordinate is from zero to the length
of the box. Read as exact, the coordinate is within the bounds of this layer, and a
coordinate strictly inside a layer has no other. So centres of cells and faces are found
in the cells that they belong to.
-/

namespace Inflow

/-- Exact scalars whose whole part is what counts are rounded down to. -/
class FlooredScalar (α : Type) extends ExactScalar α where
  toIndex_le : ∀ {x : α}, 0 ≤ x → (Scalar.toIndex x : α) ≤ x
  lt_toIndex_add_one : ∀ {x : α}, 0 ≤ x → x < Scalar.toIndex x + 1

theorem FlooredScalar.toIndex_eq {α : Type} [FlooredScalar α] {x : α} {n : Nat} (hle : (n : α) ≤ x) (hlt : x < n + 1) :
    Scalar.toIndex x = n := by
  have hpos : 0 ≤ x := (Nat.cast_nonneg n).trans hle
  have hbelow := (FlooredScalar.toIndex_le hpos).trans_lt hlt
  have habove := hle.trans_lt (FlooredScalar.lt_toIndex_add_one hpos)
  norm_cast at hbelow habove
  omega

namespace Box

/-! ## Layers and cells -/

section Cells

variable {α : Type} [Scalar α] (b : Box α)

/-- The coordinate is from zero to the length of the box. -/
def Spans (axis : Axis) (x : α) : Prop := Scalar.between 0 (b.lengths.along axis) x = true

theorem isSome_layerOf_iff {axis : Axis} {x : α} : (∃ i, b.layerOf axis x = some i) ↔ b.Spans axis x := by
  simp only [layerOf, Spans]
  split <;> simp [*]

/-- A point is found in a cell if it has a layer along each axis. -/
theorem locate_eq_some_iff {point : Vec3 α} {c : Nat} : b.locate point = some c ↔ ∃ layer : Axis → Nat,
    (∀ axis, b.layerOf axis (point.along axis) = some (layer axis)) ∧ c = b.cellAt (layer .x) (layer .y) (layer .z) := by
  simp only [locate, Option.bind_eq_bind, Option.bind_eq_some_iff, Option.pure_def, Option.some.injEq]
  constructor
  · rintro ⟨i, hi, j, hj, k, hk, rfl⟩
    exact ⟨Vec3.along #v[i, j, k], fun axis => by cases axis <;> assumption, rfl⟩
  · rintro ⟨layer, hlayer, rfl⟩
    exact ⟨_, hlayer .x, _, hlayer .y, _, hlayer .z, rfl⟩

theorem exists_locate_iff {point : Vec3 α} :
    (∃ c, b.locate point = some c) ↔ ∀ axis, b.Spans axis (point.along axis) := by
  simp only [← isSome_layerOf_iff, locate_eq_some_iff]
  constructor
  · rintro ⟨_, layer, hlayer, -⟩ axis
    exact ⟨layer axis, hlayer axis⟩
  · intro h
    choose layer hlayer using h
    exact ⟨_, layer, hlayer, rfl⟩

end Cells

/-! ## Layers read as exact -/

variable {α : Type} [FlooredScalar α] {b : Box α} {axis : Axis} {x : α}

theorem spans_iff : b.Spans axis x ↔ 0 ≤ x ∧ x ≤ b.lengths.along axis := by
  simp [Spans, Scalar.between]

/-- The box has an extent along every axis. -/
def Extended (b : Box α) : Prop := ∀ axis, 0 < b.lengths.along axis

theorem spacing_eq (h : b.Layered) (axis : Axis) : b.spacing axis = b.lengths.along axis / (b.layers.along axis : α) := by
  rw [spacing, ExactScalar.ofNat_eq, Nat.max_eq_left (h axis)]

theorem middle_eq (axis : Axis) (i : Nat) : b.middle axis i = (i + 1 / 2) * b.spacing axis := by
  simp only [middle, Scalar.ratio, ExactScalar.ofNat_eq, Nat.cast_one, Nat.cast_ofNat]

theorem spacing_pos (h : b.Layered) (hb : b.Extended) (axis : Axis) : 0 < b.spacing axis := by
  rw [spacing_eq h]
  exact div_pos (hb axis) (Nat.cast_pos.2 (h axis))

/-- So many layers together are as long as the box. -/
theorem layers_mul_spacing (h : b.Layered) (axis : Axis) :
    (b.layers.along axis : α) * b.spacing axis = b.lengths.along axis := by
  rw [spacing_eq h, mul_div_cancel₀]
  exact Nat.cast_ne_zero.2 (h axis).ne'

/-- How many layers, and parts of one, a coordinate is from zero. -/
theorem depth_eq (h : b.Layered) (hb : b.Extended) (axis : Axis) (x : α) :
    x / b.lengths.along axis * (b.layers.along axis : α) = x / b.spacing axis := by
  have hlength := (hb axis).ne'
  have hlayers : (b.layers.along axis : α) ≠ 0 := Nat.cast_ne_zero.2 (h axis).ne'
  rw [spacing_eq h]
  field_simp

theorem layerOf_eq (h : b.Layered) (hb : b.Extended) (hx : b.Spans axis x) : b.layerOf axis x =
    some (min (Scalar.toIndex (x / b.spacing axis)) (b.layers.along axis - 1)) := by
  rw [Spans] at hx
  rw [layerOf, if_pos hx, ExactScalar.ofNat_eq, depth_eq h hb]

/-- A coordinate is within the bounds of its layer. -/
theorem bounds_of_layerOf (h : b.Layered) (hb : b.Extended) {i : Nat} (hi : b.layerOf axis x = some i) :
    i < b.layers.along axis ∧ i * b.spacing axis ≤ x ∧ x ≤ (i + 1) * b.spacing axis := by
  have hlt := b.layerOf_lt h hi
  have hspans := b.isSome_layerOf_iff.1 ⟨i, hi⟩
  have hspacing := spacing_pos h hb axis
  rw [layerOf_eq h hb hspans, Option.some.injEq] at hi
  obtain ⟨hzero, hlength⟩ := spans_iff.1 hspans
  have hpos : 0 ≤ x / b.spacing axis := div_nonneg hzero hspacing.le
  have hle := FlooredScalar.toIndex_le hpos
  have hlt' := FlooredScalar.lt_toIndex_add_one hpos
  refine ⟨hlt, (le_div_iff₀ hspacing).1 ?_, (div_le_iff₀ hspacing).1 ?_⟩
  · exact (Nat.cast_le.2 (hi ▸ Nat.min_le_left _ _)).trans hle
  · by_cases hinside : Scalar.toIndex (x / b.spacing axis) ≤ b.layers.along axis - 1
    · rw [Nat.min_eq_left hinside] at hi
      exact hi ▸ hlt'.le
    · -- The upper end of the box belongs to the last layer.
      rw [Nat.min_eq_right (not_le.1 hinside).le] at hi
      have hlast : (i : α) + 1 = b.layers.along axis := by
        rw [← hi]
        exact_mod_cast Nat.sub_add_cancel (h axis)
      rw [hlast, div_le_iff₀ hspacing, layers_mul_spacing h]
      exact hlength

/-- A coordinate in a layer, and not at its upper end, has this layer. -/
theorem layerOf_of_inside (h : b.Layered) (hb : b.Extended) {i : Nat} (hi : i < b.layers.along axis)
    (hlow : i * b.spacing axis ≤ x) (hhigh : x < (i + 1) * b.spacing axis) : b.layerOf axis x = some i := by
  have hspacing := spacing_pos h hb axis
  have hlast : ((i : α) + 1) * b.spacing axis ≤ b.lengths.along axis := by
    rw [← layers_mul_spacing h]
    exact mul_le_mul_of_nonneg_right (by exact_mod_cast hi) hspacing.le
  have hspans : b.Spans axis x :=
    spans_iff.2 ⟨(mul_nonneg (Nat.cast_nonneg i) hspacing.le).trans hlow, hhigh.le.trans hlast⟩
  rw [layerOf_eq h hb hspans,
    FlooredScalar.toIndex_eq ((le_div_iff₀ hspacing).2 hlow) ((div_lt_iff₀ hspacing).2 hhigh),
    Nat.min_eq_left (Nat.le_sub_one_of_lt hi)]

theorem layerOf_middle (h : b.Layered) (hb : b.Extended) {i : Nat} (hi : i < b.layers.along axis) :
    b.layerOf axis (b.middle axis i) = some i := by
  have hspacing := spacing_pos h hb axis
  rw [middle_eq]
  exact layerOf_of_inside h hb hi (mul_le_mul_of_nonneg_right (by norm_num) hspacing.le)
    (mul_lt_mul_of_pos_right (by norm_num) hspacing)

theorem layerOf_length (h : b.Layered) (hb : b.Extended) :
    b.layerOf axis (b.lengths.along axis) = some (b.layers.along axis - 1) := by
  have hspacing := (spacing_pos h hb axis).ne'
  have hdepth : b.lengths.along axis / b.spacing axis = b.layers.along axis := by
    rw [← layers_mul_spacing h, mul_div_cancel_right₀ _ hspacing]
  have hindex : Scalar.toIndex (b.lengths.along axis / b.spacing axis) = b.layers.along axis :=
    FlooredScalar.toIndex_eq hdepth.ge (by rw [hdepth]; exact lt_add_one _)
  rw [layerOf_eq h hb (spans_iff.2 ⟨(hb axis).le, le_rfl⟩), hindex, Nat.min_eq_right (Nat.sub_le _ _)]

/-! ## Points of the mesh -/

theorem locate_cellCenter (h : b.Layered) (hb : b.Extended) {c : Nat} (hc : c < b.cells) :
    b.locate (b.cellCenter c) = some c := by
  refine b.locate_eq_some_iff.2 ⟨b.cellLayer c, fun axis => ?_, (b.cellAt_cellLayer c).symm⟩
  rw [cellCenter, Vec3.along_ofAxes, layerOf_middle h hb (b.cellLayer_lt hc axis)]

/-- The end of the box that a side is at, as a coordinate. -/
theorem layerOf_end (h : b.Layered) (hb : b.Extended) (s : Side) :
    b.layerOf s.axis (if s.isUpper then b.lengths.along s.axis else 0) = some (b.endLayer s) := by
  unfold endLayer
  split
  · exact layerOf_length h hb
  · have hspacing := spacing_pos h hb s.axis
    exact layerOf_of_inside h hb (h s.axis) (by simp) (by simpa using hspacing)

theorem along_center_faceAt (s : Side) (i j : Nat) (axis : Axis) : (b.faceAt s i j).center.along axis =
    if axis = s.axis then (if s.isUpper then b.lengths.along s.axis else 0)
    else b.middle axis (b.faceLayer s i j axis) := by
  rw [faceAt, Vec3.along_ofAxes]
  rfl

theorem locate_faceCenter (h : b.Layered) (hb : b.Extended) {s : Side} {i j : Nat}
    (hi : i < b.layers.along s.along.1) (hj : j < b.layers.along s.along.2) :
    b.locate (b.faceAt s i j).center = some (b.faceAt s i j).cell := by
  refine b.locate_eq_some_iff.2 ⟨b.faceLayer s i j, fun axis => ?_, b.cell_faceAt s i j⟩
  rw [along_center_faceAt]
  split
  · rename_i hacross
    subst hacross
    rw [layerOf_end h hb, (b.faceLayer_eq s i j).2.2]
  · exact layerOf_middle h hb (faceLayer_lt h hi hj axis)

/-- A point that is found is in the closed cell that it is found in. -/
theorem bounds_of_locate (h : b.Layered) (hb : b.Extended) {point : Vec3 α} {c : Nat} (hc : b.locate point = some c)
    (axis : Axis) : b.cellLayer c axis * b.spacing axis ≤ point.along axis ∧
      point.along axis ≤ (b.cellLayer c axis + 1) * b.spacing axis := by
  obtain ⟨layer, hlayer, rfl⟩ := b.locate_eq_some_iff.1 hc
  rw [b.cellLayer_cellAt fun axis => (bounds_of_layerOf h hb (hlayer axis)).1]
  exact (bounds_of_layerOf h hb (hlayer axis)).2

/-- A point is found nowhere exactly if it is outside the closed box. -/
theorem locate_eq_none_iff {point : Vec3 α} : b.locate point = none ↔
    ∃ axis, point.along axis < 0 ∨ b.lengths.along axis < point.along axis := by
  rw [← not_iff_not, ← ne_eq, Option.ne_none_iff_exists']
  rw [exists_locate_iff]
  simp only [spans_iff, not_exists, not_or, not_lt]

end Box
end Inflow
