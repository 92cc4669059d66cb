import Mathlib
import Inflow.Proofs.Box.Numbering
/-!
# The tables of a box

Every number of a cell or face has its entry in the tables of the mesh, and the entry
is that of the layers which the number stands for. On each side of a box that has
cells, the faces and the cells of the outermost layer go together one by one.
-/

namespace Inflow

variable {α : Type} [Scalar α]

namespace Box

variable (b : Box α)

/-! ## Entries by number -/

/-- The centre of the cell with number `c`. -/
def cellCenter (c : Nat) : Vec3 α := .ofAxes fun axis => b.middle axis (b.cellLayer c axis)

theorem cellCenterList_eq : b.cellCenterList = (List.range b.cells).map b.cellCenter := by
  unfold cellCenterList
  simp only [grid_eq]
  rw [cells]
  refine List.map_congr_left fun c hc => ?_
  rw [cellCenter]
  congr 1
  funext axis
  -- What is left of a number within its plane gives row and column as the number does.
  cases axis with
  | x => rw [cellLayer, Nat.mod_mul_right_mod]
  | y => rw [cellLayer, Nat.mod_mul_right_div_self]
  | z => rw [cellLayer, Nat.div_div_eq_div_mul]

/-- The `k`-th face of a side. -/
def sideFace (s : Side) (k : Nat) : Face α :=
  b.faceAt s (k % b.layers.along s.along.1) (k / b.layers.along s.along.1)

theorem faceList_eq : b.faceList = Side.all.flatMap fun s => (List.range (b.sideSize s)).map (b.sideFace s) := by
  simp only [faceList, grid_eq]
  rfl

theorem length_faceList : b.faceList.length = b.faces := by
  simp only [faceList_eq, List.length_flatMap, List.length_map, List.length_range, faces]

theorem getElem?_faceList {s : Side} {k : Nat} (hk : k < b.sideSize s) :
    b.faceList[b.sideStart s + k]? = some (b.sideFace s k) := by
  obtain ⟨after, hall⟩ := s.exists_after
  have hblock := getElem?_flatMap_block (fun s => (List.range (b.sideSize s)).map (b.sideFace s)) s.before s after
    (by rwa [List.length_map, List.length_range])
  simp only [List.length_map, List.length_range, List.getElem?_map, List.getElem?_range hk] at hblock
  rw [faceList_eq, hall]
  exact hblock

/-- Where the face at column `i` and row `j` of a side stands. -/
theorem sideFace_eq {s : Side} {i j : Nat} (hi : i < b.layers.along s.along.1) (hj : j < b.layers.along s.along.2) :
    i + b.layers.along s.along.1 * j < b.sideSize s ∧
      b.sideFace s (i + b.layers.along s.along.1 * j) = b.faceAt s i j := by
  constructor
  · calc i + b.layers.along s.along.1 * j < b.layers.along s.along.1 * (j + 1) := by rw [Nat.mul_succ]; omega
      _ ≤ b.sideSize s := Nat.mul_le_mul_left _ hj
  · rw [sideFace, Nat.add_mul_mod_self_left, Nat.mod_eq_of_lt hi,
      Nat.add_mul_div_left _ _ (Nat.zero_lt_of_lt hi), Nat.div_eq_of_lt hi, Nat.zero_add]

/-! ## The cells behind a side -/

omit [Scalar α] in
/-- The outermost layer at a side. -/
def endLayer (s : Side) : Nat := if s.isUpper then b.layers.along s.axis - 1 else 0

omit [Scalar α] in
/-- The layers of the cell behind the face at column `i` and row `j` of a side. -/
def faceLayer (s : Side) (i j : Nat) (axis : Axis) : Nat :=
  if axis = s.along.1 then i else if axis = s.along.2 then j else b.endLayer s

theorem cell_faceAt (s : Side) (i j : Nat) : (b.faceAt s i j).cell =
    b.cellAt (b.faceLayer s i j .x) (b.faceLayer s i j .y) (b.faceLayer s i j .z) := rfl

omit [Scalar α] in
theorem faceLayer_eq (s : Side) (i j : Nat) : b.faceLayer s i j s.along.1 = i ∧ b.faceLayer s i j s.along.2 = j ∧
    b.faceLayer s i j s.axis = b.endLayer s := by
  cases s <;> exact ⟨rfl, rfl, rfl⟩

/-- Every axis is across a side or along it. -/
theorem Side.axis_cases (s : Side) (axis : Axis) : axis = s.along.1 ∨ axis = s.along.2 ∨ axis = s.axis := by
  cases s <;> cases axis <;> simp [Side.along, Side.axis]

variable {b}

omit [Scalar α] in
theorem faceLayer_lt (h : b.Layered) {s : Side} {i j : Nat} (hi : i < b.layers.along s.along.1)
    (hj : j < b.layers.along s.along.2) (axis : Axis) : b.faceLayer s i j axis < b.layers.along axis := by
  obtain ⟨hfirst, hsecond, hacross⟩ := b.faceLayer_eq s i j
  rcases s.axis_cases axis with rfl | rfl | rfl
  · rwa [hfirst]
  · rwa [hsecond]
  · have hpos := h s.axis
    rw [hacross, endLayer]
    split <;> omega

/-- The cell behind a face has its column and row, and is outermost. -/
theorem cellLayer_faceAt (h : b.Layered) {s : Side} {i j : Nat} (hi : i < b.layers.along s.along.1)
    (hj : j < b.layers.along s.along.2) (axis : Axis) :
    b.cellLayer (b.faceAt s i j).cell axis = b.faceLayer s i j axis := by
  rw [cell_faceAt]
  exact b.cellLayer_cellAt (faceLayer_lt h hi hj) axis

/-- An outermost cell is the one behind the face at its column and row. -/
theorem cell_faceAt_of_outermost {s : Side} {c : Nat} (h : b.cellLayer c s.axis = b.endLayer s) :
    (b.faceAt s (b.cellLayer c s.along.1) (b.cellLayer c s.along.2)).cell = c := by
  have hsame : ∀ axis, b.faceLayer s (b.cellLayer c s.along.1) (b.cellLayer c s.along.2) axis = b.cellLayer c axis := by
    intro axis
    obtain ⟨hfirst, hsecond, hacross⟩ := b.faceLayer_eq s (b.cellLayer c s.along.1) (b.cellLayer c s.along.2)
    rcases s.axis_cases axis with rfl | rfl | rfl
    · exact hfirst
    · exact hsecond
    · rw [hacross, h]
  rw [cell_faceAt, hsame, hsame, hsame, cellAt_cellLayer]

/-- Each outermost cell is behind exactly one face of the side. -/
theorem existsUnique_sideFace (h : b.Layered) {s : Side} {c : Nat} (hc : c < b.cells)
    (hend : b.cellLayer c s.axis = b.endLayer s) : ∃! k, k < b.sideSize s ∧ (b.sideFace s k).cell = c := by
  have hi := b.cellLayer_lt hc s.along.1
  have hj := b.cellLayer_lt hc s.along.2
  obtain ⟨hk, hface⟩ := b.sideFace_eq hi hj
  refine ⟨_, ⟨hk, by rw [hface, cell_faceAt_of_outermost hend]⟩, ?_⟩
  rintro k ⟨hk', rfl⟩
  -- Column and row can be read off the cell, and the place off them.
  obtain ⟨hcolumn, hrow⟩ := lt_of_lt_sideSize hk'
  obtain ⟨hfirst, hsecond, -⟩ := b.faceLayer_eq s (k % b.layers.along s.along.1) (k / b.layers.along s.along.1)
  rw [sideFace, cellLayer_faceAt h hcolumn hrow, cellLayer_faceAt h hcolumn hrow, hfirst, hsecond, Nat.mod_add_div]

/-- The cell behind a face of a side is there, and outermost. -/
theorem outermost_sideFace (h : b.Layered) {s : Side} {k : Nat} (hk : k < b.sideSize s) :
    (b.sideFace s k).cell < b.cells ∧ b.cellLayer (b.sideFace s k).cell s.axis = b.endLayer s := by
  obtain ⟨hcolumn, hrow⟩ := lt_of_lt_sideSize hk
  exact ⟨b.cell_faceAt_lt h hcolumn hrow,
    (cellLayer_faceAt h hcolumn hrow s.axis).trans (b.faceLayer_eq s _ _).2.2⟩

end Box

namespace Mesh

open Box

/-- The tables of a box, whether or not there is storage for them. -/
def tables (b : Box α) : Mesh α where
  cellCenters := b.cellCenterList.toArray
  cellVolumes := Array.replicate b.cells (b.spacing .x * b.spacing .y * b.spacing .z)
  faceCenters := b.faceList.toArray.map (·.center)
  faceNormals := b.faceList.toArray.map (·.normal)
  faceSurfaces := b.faceList.toArray.map (·.surface)
  faceCells := b.faceList.toArray.map (·.cell)
  box := some b

variable {b : Box α} {m : Mesh α}

/-- A box whose cells and faces can be counted has a mesh if there is storage for the points of its tables. -/
theorem ofBox_eq_ok : ofBox b = .ok m ↔ (∃ n, b.cellCount = .ok n) ∧ b.faces ≤ Count.limit ∧
    b.cells * pointBytes ≤ Count.byteLimit ∧ b.faces * pointBytes ≤ Count.byteLimit ∧ m = tables b := by
  have hstore : ∀ {n : Nat} {u : Unit}, Count.store n pointBytes = .ok u ↔ n * pointBytes ≤ Count.byteLimit := by
    intro n u
    unfold Count.store
    split <;> simp [*]
  unfold ofBox
  simp only [bind_eq_ok, hstore, pure_eq_ok, faceCount_eq_ok]
  constructor
  · rintro ⟨n, hn, -, hcells, f, ⟨rfl, hlimit⟩, -, hfaces, rfl⟩
    obtain rfl := b.cellCount_eq_ok hn
    exact ⟨⟨_, hn⟩, hlimit, hcells, hfaces, rfl⟩
  · rintro ⟨⟨n, hn⟩, hlimit, hcells, hfaces, rfl⟩
    obtain rfl := b.cellCount_eq_ok hn
    exact ⟨_, hn, (), hcells, _, ⟨rfl, hlimit⟩, (), hfaces, rfl⟩

/-- Where there is no storage for the points, that is what it fails for. -/
theorem ofBox_eq_tooLarge {n f : Nat} (hcells : b.cellCount = .ok n) (hfaces : b.faceCount = .ok f)
    (h : ¬ (n * pointBytes ≤ Count.byteLimit ∧ f * pointBytes ≤ Count.byteLimit)) : ofBox b = .error .tooLarge := by
  have hstore : ∀ {k : Nat}, Count.byteLimit < k * pointBytes → Count.store k pointBytes = .error .tooLarge :=
    fun hk => Count.store_eq_error.2 ⟨rfl, hk⟩
  unfold ofBox
  refine bind_eq_error.2 (.inr ⟨n, hcells, bind_eq_error.2 ?_⟩)
  by_cases hn : n * pointBytes ≤ Count.byteLimit
  · refine .inr ⟨(), if_pos hn, bind_eq_error.2 (.inr ⟨f, hfaces, bind_eq_error.2 (.inl (hstore ?_))⟩)⟩
    exact Nat.lt_of_not_le fun hf => h ⟨hn, hf⟩
  · exact .inl (hstore (Nat.lt_of_not_le hn))

/-- The tables have one entry for each of `n` cells or of `f` faces. -/
structure Sized (m : Mesh α) (n f : Nat) : Prop where
  cellCenters : m.cellCenters.size = n
  cellVolumes : m.cellVolumes.size = n
  faceCenters : m.faceCenters.size = f
  faceNormals : m.faceNormals.size = f
  faceSurfaces : m.faceSurfaces.size = f
  faceCells : m.faceCells.size = f

theorem sized_tables (b : Box α) : (tables b).Sized b.cells b.faces := by
  constructor <;> simp [tables, b.length_cellCenterList, b.length_faceList]

/-- The mesh of a box has an entry in each table for every cell or face that it counts. -/
theorem sized_of_ofBox (h : ofBox b = .ok m) : m.Sized m.cellCount m.faceCount := by
  obtain ⟨-, -, -, -, rfl⟩ := ofBox_eq_ok.1 h
  have hsized := sized_tables b
  rwa [cellCount, faceCount, hsized.cellVolumes, hsized.faceSurfaces]

/-- The entries of the tables at the number of a face. -/
theorem getElem?_tables {s : Side} {k : Nat} (hk : k < b.sideSize s) :
    (tables b).faceCenters[b.sideStart s + k]? = some (b.sideFace s k).center ∧
    (tables b).faceNormals[b.sideStart s + k]? = some (b.sideFace s k).normal ∧
    (tables b).faceCells[b.sideStart s + k]? = some (b.sideFace s k).cell := by
  have hface := b.getElem?_faceList hk
  simp only [tables, Array.getElem?_map, List.getElem?_toArray, hface, Option.map_some, and_self]

/-- Each side has its own stretch of numbers, side after side, and all together are the
numbers of all faces. They can be listed where there is storage for them, and the box has a
mesh where there is storage for the points of its tables; any other box is too large. Where there
is a mesh, its tables have an entry for every cell and face. The face at column `i` and row `j` of a side has the outward unit normal of
the side, and behind it, in a box with cells, is the outermost cell of this column and row. So on each side
the faces and the outermost cells go together one by one. -/
theorem sides_numbered (b : Box α) {n f : Nat} (hcells : b.cellCount = .ok n) (hfaces : b.faceCount = .ok f) :
    (∀ s, b.sideOffset s = .ok (b.sideStart s) ∧ b.sideFaceCount s = .ok (b.sideSize s) ∧ b.sideFaces s =
      if b.sideSize s * numberBytes ≤ Count.byteLimit then .ok (b.facesOn s) else .error .tooLarge) ∧
    Side.all.flatMap b.facesOn = List.range f ∧
    ((∃ m, ofBox b = .ok m) ↔ n * pointBytes ≤ Count.byteLimit ∧ f * pointBytes ≤ Count.byteLimit) ∧
    (¬ (n * pointBytes ≤ Count.byteLimit ∧ f * pointBytes ≤ Count.byteLimit) → ofBox b = .error .tooLarge) ∧
    ∀ m, ofBox b = .ok m → m.Sized n f ∧ ∀ s,
      b.sideFaces s = .ok (b.facesOn s) ∧
      (∀ i j, i < b.layers.along s.along.1 → j < b.layers.along s.along.2 →
        let g := b.sideStart s + (i + b.layers.along s.along.1 * j)
        m.faceNormals[g]? = some (.onAxis s.axis (if s.isUpper then 1 else -1)) ∧
          (b.Layered → ∃ c < n, m.faceCells[g]? = some c ∧ b.cellLayer c s.along.1 = i ∧ b.cellLayer c s.along.2 = j ∧
            b.cellLayer c s.axis = b.endLayer s)) ∧
      (b.Layered → (∀ g ∈ b.facesOn s, ∃ c < n, m.faceCells[g]? = some c ∧ b.cellLayer c s.axis = b.endLayer s) ∧
        ∀ c < n, b.cellLayer c s.axis = b.endLayer s → ∃! g, g ∈ b.facesOn s ∧ m.faceCells[g]? = some c) := by
  obtain rfl := b.cellCount_eq_ok hcells
  obtain ⟨rfl, hlimit⟩ := b.faceCount_eq_ok.1 hfaces
  refine ⟨fun s => ⟨sideOffset_eq hlimit s, sideFaceCount_eq hlimit s, sideFaces_eq hlimit s⟩, b.flatMap_facesOn, ?_,
    ofBox_eq_tooLarge hcells hfaces, ?_⟩
  · constructor
    · rintro ⟨m, hm⟩
      obtain ⟨-, -, hcells, hfaces, -⟩ := ofBox_eq_ok.1 hm
      exact ⟨hcells, hfaces⟩
    · rintro ⟨hcells', hfaces'⟩
      exact ⟨_, ofBox_eq_ok.2 ⟨⟨_, hcells⟩, hlimit, hcells', hfaces', rfl⟩⟩
  intro m hm
  obtain ⟨-, -, -, hstored, rfl⟩ := ofBox_eq_ok.1 hm
  refine ⟨sized_tables b, fun s => ⟨?_, fun i j hi hj => ?_, fun h => ⟨fun g hg => ?_, fun c hc hend => ?_⟩⟩⟩
  · -- There is storage for the points of all faces, so there is for the numbers of some.
    have hle := b.sideStart_add_le s
    rw [sideFaces_eq hlimit, if_pos]
    simp only [numberBytes]
    simp only [pointBytes, scalarBytes] at hstored
    omega
  · obtain ⟨hk, hface⟩ := b.sideFace_eq hi hj
    obtain ⟨-, hnormal, hcell⟩ := getElem?_tables hk
    obtain ⟨hfirst, hsecond, hacross⟩ := b.faceLayer_eq s i j
    rw [hface] at hnormal hcell
    refine ⟨hnormal, fun h => ⟨_, b.cell_faceAt_lt h hi hj, hcell, ?_, ?_, ?_⟩⟩
    · rw [cellLayer_faceAt h hi hj, hfirst]
    · rw [cellLayer_faceAt h hi hj, hsecond]
    · rw [cellLayer_faceAt h hi hj, hacross]
  · obtain ⟨k, hk, rfl⟩ := mem_facesOn.1 hg
    obtain ⟨hlt, hend⟩ := outermost_sideFace h hk
    exact ⟨_, hlt, (getElem?_tables hk).2.2, hend⟩
  · obtain ⟨k, ⟨hk, hcell⟩, hunique⟩ := existsUnique_sideFace h hc hend
    refine ⟨_, ⟨mem_facesOn.2 ⟨k, hk, rfl⟩, by rw [(getElem?_tables hk).2.2, hcell]⟩, ?_⟩
    rintro g ⟨hg, hcell'⟩
    obtain ⟨k', hk', rfl⟩ := mem_facesOn.1 hg
    rw [(getElem?_tables hk').2.2, Option.some.injEq] at hcell'
    rw [hunique k' ⟨hk', hcell'⟩]

/-- A box with a different number of layers along each axis. -/
def brick : Box ℚ where
  layers := .ofAxes fun
    | .x => 2
    | .y => 3
    | .z => 4
  lengths := .ofAxes fun _ => 1

/-- The face at column 1 and row 2 of the upper side across the first axis has the cell in these layers behind it. -/
theorem sides_numbered_brick : brick.sideFaces .xMax = .ok (List.range' 12 12) ∧
    ∃ m, ofBox brick = .ok m ∧ m.Sized 24 52 ∧ m.faceNormals[19]? = some (.onAxis .x 1) ∧
      ∃ c < 24, m.faceCells[19]? = some c ∧
        brick.cellLayer c .x = 1 ∧ brick.cellLayer c .y = 1 ∧ brick.cellLayer c .z = 2 := by
  have hlayered : brick.Layered := fun axis => by cases axis <;> decide
  obtain ⟨-, -, hstored, -, hall⟩ := sides_numbered brick (n := 24) (f := 52) (by decide +kernel) (by decide +kernel)
  obtain ⟨m, hm⟩ := hstored.2 (by decide +kernel)
  obtain ⟨hsized, hsides⟩ := hall m hm
  obtain ⟨hlist, hfaces, -⟩ := hsides .xMax
  obtain ⟨hnormal, hcell⟩ := hfaces 1 2 (by decide) (by decide)
  obtain ⟨c, hc, hbehind, hy, hz, hx⟩ := hcell hlayered
  exact ⟨hlist, m, hm, hsized, hnormal, c, hc, hbehind, hx, hy, hz⟩

/-- A row of cells that can be counted, but whose centres cannot be stored. -/
def longRow : Box ℚ where
  layers := .ofAxes fun axis => if axis = .x then Nat.pow 2 60 else 1
  lengths := .ofAxes fun _ => 1

/-- Not every box whose cells and faces can be counted has a mesh. -/
theorem long_row_unstored : longRow.cellCount = .ok (Nat.pow 2 60) ∧ longRow.faceCount = .ok (Nat.pow 2 62 + 2) ∧
    ofBox longRow = .error .tooLarge :=
  ⟨by decide +kernel, by decide +kernel, rfl⟩

end Mesh
end Inflow
