import Inflow.Box
import Inflow.Zone
/-!
# Meshes

The part of the mesh that a rank holds: centres and volumes of cells, and
centres, outward unit normals, surfaces and host cells of boundary faces. Each
is a table of its own; reading one past its end is a fault.

The mesh of a box also answers in which cell a point lies by arithmetic on the
box. Any other mesh gives the cell whose centre is nearest.
-/

namespace Inflow

structure Mesh (α : Type) where
  cellCenters : Array (Vec3 α)
  cellVolumes : Array α
  faceCenters : Array (Vec3 α)
  faceNormals : Array (Vec3 α)
  faceSurfaces : Array α
  /-- The cell behind each face. -/
  faceCells : Array Nat
  /-- The box that the mesh is cut from, if it is one. -/
  box : Option (Box α)

/-- A boundary face as it is entered into the tables. -/
structure Face (α : Type) where
  center : Vec3 α
  normal : Vec3 α
  surface : α
  cell : Nat

namespace Box

variable {α : Type} [Scalar α] (b : Box α)

def cellCenterList : List (Vec3 α) :=
  (List.range (b.layers.along .z)).flatMap fun k =>
    (List.range (b.layers.along .y)).flatMap fun j =>
      (List.range (b.layers.along .x)).map fun i =>
        .ofAxes fun
          | .x => b.middle .x i
          | .y => b.middle .y j
          | .z => b.middle .z k

/-- The face of side `s` in layers `i` and `j` of the axes along it. -/
def faceAt (s : Side) (i j : Nat) : Face α :=
  let (a, c) := s.along
  let layer := if s.isUpper then b.layers.along s.axis - 1 else 0
  let height := if s.isUpper then b.lengths.along s.axis else 0
  let index (d : Axis) : Nat := if d = a then i else if d = c then j else layer
  { center := .ofAxes fun d => if d = s.axis then height else b.middle d (index d)
    normal := .onAxis s.axis (if s.isUpper then 1 else -1)
    surface := b.spacing a * b.spacing c
    cell := b.cellAt (index .x) (index .y) (index .z) }

/-- All faces in the order of their numbers. -/
def faceList : List (Face α) :=
  Side.all.flatMap fun s =>
    (List.range (b.layers.along s.along.2)).flatMap fun j =>
      (List.range (b.layers.along s.along.1)).map fun i => b.faceAt s i j

end Box

namespace Mesh

variable {α : Type} [Scalar α]

/-- The number of bytes of storage for a point. -/
def pointBytes : Nat := 3 * scalarBytes

/-- The mesh of a box, whose tables must be able to exist. -/
def ofBox (b : Box α) : Checked (Mesh α) := do
  let n ← b.cellCount
  Count.store n pointBytes
  Count.store (← b.faceCount) pointBytes
  let faces := b.faceList.toArray
  return {
    cellCenters := b.cellCenterList.toArray
    cellVolumes := Array.replicate n (b.spacing .x * b.spacing .y * b.spacing .z)
    faceCenters := faces.map (·.center)
    faceNormals := faces.map (·.normal)
    faceSurfaces := faces.map (·.surface)
    faceCells := faces.map (·.cell)
    box := some b }

/-- How far a point is from another. -/
structure Separation (α : Type) where
  /-- Whether both lie infinitely far out the same way, so that there is no distance. -/
  isIndefinite : Bool
  square : α

variable (m : Mesh α)

def cellCount : Nat := m.cellVolumes.size

def faceCount : Nat := m.faceSurfaces.size

/-- The weights of the elements of a kind: surfaces of faces, volumes of cells. -/
def weights : ZoneKind → Array α
  | .boundary => m.faceSurfaces
  | .volume => m.cellVolumes

/-- Whether both points have a coordinate along the first axis where their
difference compares with nothing. -/
def lieSameWay (p q : Vec3 α) : Bool :=
  match Axis.all.find? fun a => !decide (p.along a - q.along a ≤ p.along a - q.along a) with
  | some a => decide (p.along a ≤ p.along a) && decide (q.along a ≤ q.along a)
  | none => false

def separation (p q : Vec3 α) : Separation α :=
  let square := Scalar.sum ((p.zipWith (fun x y => Scalar.square (x - y)) q).toList)
  { square, isIndefinite := !decide (square ≤ square) && lieSameWay p q }

/-- Indefinite separations come before all others. -/
def Separation.precedes (s t : Separation α) : Bool :=
  if s.isIndefinite then !t.isIndefinite
  else !t.isIndefinite && Scalar.precedes s.square t.square

/-- Of two cells with their separations the nearer one, the earlier if they are equal. -/
def nearer (best : Option (Nat × Separation α)) (next : Nat × Separation α) :
    Option (Nat × Separation α) :=
  match best with
  | none => some next
  | some b => if next.2.precedes b.2 then some next else some b

/-- The first of the cells whose centre is nearest to a point. -/
def nearestCell (point : Vec3 α) : Option Nat :=
  let separations := m.cellCenters.toList.zipIdx.map fun (c, i) => (i, separation c point)
  (separations.foldl nearer none).map (·.1)

/-- The cell for a point; none if it lies outside a box. -/
def locate (point : Vec3 α) : Option Nat :=
  match m.box with
  | some b => b.locate point
  | none => m.nearestCell point

end Mesh
end Inflow
