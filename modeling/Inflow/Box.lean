import Inflow.Scalar
import Inflow.Space
/-!
# Boxes

A box is cut into equal hexahedral cells by a number of layers along each axis.
Cells are numbered with the first axis fastest. The faces on its sides are
numbered side by side, and on each side with the first of its two axes fastest.
-/

namespace Inflow

structure Box (α : Type) where
  /-- Number of layers of cells along each axis. -/
  layers : Vec3 Nat
  lengths : Vec3 α

namespace Box

/-- A side of the box: the lower or the upper end of an axis. -/
inductive Side where
  | xMin
  | xMax
  | yMin
  | yMax
  | zMin
  | zMax
  deriving DecidableEq, Repr

/-- The sides in the order of their faces. -/
def Side.all : List Side := [.xMin, .xMax, .yMin, .yMax, .zMin, .zMax]

/-- The axis across the side. -/
def Side.axis : Side → Axis
  | xMin | xMax => .x
  | yMin | yMax => .y
  | zMin | zMax => .z

/-- Whether the side is at the upper end of its axis. -/
def Side.isUpper : Side → Bool
  | xMax | yMax | zMax => true
  | xMin | yMin | zMin => false

/-- The two axes along the side, the faster one first. -/
def Side.along (s : Side) : Axis × Axis :=
  match s.axis with
  | .x => (.y, .z)
  | .y => (.x, .z)
  | .z => (.x, .y)

/-- The sides whose faces are numbered before those of `s`. -/
def Side.before (s : Side) : List Side := Side.all.takeWhile (· != s)

variable {α : Type} (b : Box α)

def cellCount : Checked Nat := do
  Count.mul (← Count.mul (b.layers.along .x) (b.layers.along .y)) (b.layers.along .z)

def sideFaceCount (s : Side) : Checked Nat :=
  Count.mul (b.layers.along s.along.1) (b.layers.along s.along.2)

def faceCount : Checked Nat := do
  Count.sum (← Side.all.mapM b.sideFaceCount)

/-- The number of the first face of a side. -/
def sideOffset (s : Side) : Checked Nat := do
  Count.sum (← s.before.mapM b.sideFaceCount)

/-- The number of bytes of storage for the number of a face or cell. -/
def numberBytes : Nat := 8

/-- The numbers of a side's faces. -/
def sideFaces (s : Side) : Checked (List Nat) := do
  let first ← b.sideOffset s
  let count ← b.sideFaceCount s
  let _ ← Count.add first count
  Count.store count numberBytes
  return List.range' first count

def allCells : Checked (List Nat) := do
  let count ← b.cellCount
  Count.store count numberBytes
  return List.range count

/-- The number of the cell in layers `i`, `j` and `k`. -/
def cellAt (i j k : Nat) : Nat := i + b.layers.along .x * (j + b.layers.along .y * k)

variable [Scalar α]

/-- The extent of a cell along an axis. -/
def spacing (axis : Axis) : α :=
  b.lengths.along axis / Scalar.ofNat (max (b.layers.along axis) 1)

/-- The middle of layer `i` of an axis. -/
def middle (axis : Axis) (i : Nat) : α :=
  (Scalar.ofNat i + Scalar.ratio 1 2) * b.spacing axis

/-- The layer of an axis that a coordinate lies in, the last one for the upper
end; none outside the box. -/
def layerOf (axis : Axis) (x : α) : Option Nat :=
  let length := b.lengths.along axis
  let n := b.layers.along axis
  if Scalar.between 0 length x then
    some (min (Scalar.toIndex (x / length * Scalar.ofNat n)) (n - 1))
  else none

/-- The cell that a point lies in; none outside the box. -/
def locate (point : Vec3 α) : Option Nat := do
  let i ← b.layerOf .x (point.along .x)
  let j ← b.layerOf .y (point.along .y)
  let k ← b.layerOf .z (point.along .z)
  return b.cellAt i j k

end Box
end Inflow
