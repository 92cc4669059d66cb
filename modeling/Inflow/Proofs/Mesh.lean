import Inflow.Mesh
import Inflow.Proofs.Fault
/-!
# The mesh of a box

A box that has layers along every axis gives a mesh whose tables go together: each
has an entry for every cell or for every face, the cell behind a face is one of the
mesh, and so is the cell that a point is found in.
-/

namespace Inflow

variable {α : Type}

namespace Box

variable (b : Box α)

/-- The box has layers along every axis. -/
def Layered : Prop := ∀ axis, 0 < b.layers.along axis

/-- The number of cells, whatever its size. -/
def cells : Nat := b.layers.along .x * b.layers.along .y * b.layers.along .z

theorem cellCount_eq_ok {n : Nat} (h : b.cellCount = .ok n) : n = b.cells := by
  unfold cellCount at h
  obtain ⟨xy, hxy, hn⟩ := bind_eq_ok.1 h
  rw [(Count.checked_eq_ok.1 hn).1, (Count.checked_eq_ok.1 hxy).1]
  rfl

theorem cellAt_lt {i j k : Nat} (hi : i < b.layers.along .x) (hj : j < b.layers.along .y)
    (hk : k < b.layers.along .z) : b.cellAt i j k < b.cells := by
  unfold cellAt cells
  -- A full row is below the rows that there are, and a full plane below the planes.
  have hplane : j + b.layers.along .y * k < b.layers.along .y * b.layers.along .z := by
    calc j + b.layers.along .y * k < b.layers.along .y * (k + 1) := by rw [Nat.mul_succ]; omega
      _ ≤ b.layers.along .y * b.layers.along .z := Nat.mul_le_mul_left _ hk
  calc i + b.layers.along .x * (j + b.layers.along .y * k)
      < b.layers.along .x * (j + b.layers.along .y * k + 1) := by rw [Nat.mul_succ]; omega
    _ ≤ b.layers.along .x * (b.layers.along .y * b.layers.along .z) := Nat.mul_le_mul_left _ hplane
    _ = b.layers.along .x * b.layers.along .y * b.layers.along .z := (Nat.mul_assoc ..).symm

variable [Scalar α]

theorem length_cellCenterList : b.cellCenterList.length = b.cells := by
  unfold cellCenterList cells
  simp only [List.length_flatMap, List.length_map, List.length_range, List.map_const', List.sum_replicate,
    smul_eq_mul]
  ring

/-- The cell behind a face lies in the layer at the face's side. -/
theorem cell_faceAt_lt (h : b.Layered) {s : Side} {i j : Nat} (hi : i < b.layers.along s.along.1)
    (hj : j < b.layers.along s.along.2) : (b.faceAt s i j).cell < b.cells := by
  have hx := h .x
  have hy := h .y
  have hz := h .z
  cases s <;> exact b.cellAt_lt (by simp_all [Side.along, Side.axis, Side.isUpper])
    (by simp_all [Side.along, Side.axis, Side.isUpper]) (by simp_all [Side.along, Side.axis, Side.isUpper])

theorem cell_lt_of_mem_faceList (h : b.Layered) {face : Face α} (hface : face ∈ b.faceList) : face.cell < b.cells := by
  unfold faceList at hface
  simp only [List.mem_flatMap, List.mem_map, List.mem_range] at hface
  obtain ⟨s, -, j, hj, i, hi, rfl⟩ := hface
  exact b.cell_faceAt_lt h hi hj

theorem layerOf_lt (h : b.Layered) {axis : Axis} {x : α} {i : Nat} (hi : b.layerOf axis x = some i) :
    i < b.layers.along axis := by
  have hpos := h axis
  unfold layerOf at hi
  simp only at hi
  split at hi
  · cases hi
    omega
  · cases hi

theorem locate_lt (h : b.Layered) {point : Vec3 α} {cell : Nat} (hcell : b.locate point = some cell) :
    cell < b.cells := by
  unfold locate at hcell
  simp only [Option.bind_eq_bind, Option.bind_eq_some_iff, Option.pure_def, Option.some.injEq] at hcell
  obtain ⟨i, hi, j, hj, k, hk, rfl⟩ := hcell
  exact b.cellAt_lt (b.layerOf_lt h hi) (b.layerOf_lt h hj) (b.layerOf_lt h hk)

end Box

namespace Mesh

variable [Scalar α]

/-- The tables of a mesh go together, and name only cells that there are. -/
structure Regular (m : Mesh α) : Prop where
  cellCenters : m.cellCenters.size = m.cellCount
  faceCenters : m.faceCenters.size = m.faceCount
  faceNormals : m.faceNormals.size = m.faceCount
  faceCells : m.faceCells.size = m.faceCount
  behind : ∀ cell ∈ m.faceCells, cell < m.cellCount
  located : ∀ {point cell}, m.locate point = some cell → cell < m.cellCount

theorem regular_ofBox {b : Box α} {m : Mesh α} (h : b.Layered) (hm : ofBox b = .ok m) : m.Regular := by
  unfold ofBox at hm
  obtain ⟨n, hn, hm⟩ := bind_eq_ok.1 hm
  obtain rfl := b.cellCount_eq_ok hn
  obtain ⟨_, -, hm⟩ := bind_eq_ok.1 hm
  obtain ⟨_, -, hm⟩ := bind_eq_ok.1 hm
  obtain ⟨_, -, hm⟩ := bind_eq_ok.1 hm
  rw [pure_eq_ok.1 hm]
  refine ⟨?_, ?_, ?_, ?_, ?_, ?_⟩
  · simp [cellCount, b.length_cellCenterList]
  · simp [faceCount]
  · simp [faceCount]
  · simp [faceCount]
  · intro cell hcell
    simp only [Array.mem_map, List.mem_toArray] at hcell
    obtain ⟨face, hface, rfl⟩ := hcell
    simpa [cellCount] using b.cell_lt_of_mem_faceList h hface
  · intro point cell hcell
    simpa [cellCount] using b.locate_lt h hcell

end Mesh
end Inflow
