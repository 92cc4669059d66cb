import Inflow.Mesh
import Inflow.Particle.Record
/-!
# Placing fresh particles

Fresh particles are laid out element by element: where the offsets of a zone
say `index[i] ≤ k < index[i + 1]`, particle `k` belongs to element `i`. It is
put at the centre of that element. Which face each particle came through is
read off the same offsets.
-/

namespace Inflow.Release

/-- Particles next to each other that belong to one element. -/
structure Stretch where
  /-- The position of the element in its zone; none if the offsets go down here. -/
  element : Option Nat
  count : Nat

/-- The stretches that neighbouring offsets say, from element `i` on. Offsets
that go down end the list with a particle that has no element. -/
def stretchesFrom (i : Nat) : List Nat → List Stretch
  | a :: b :: rest =>
    if a ≤ b then { element := some i, count := b - a } :: stretchesFrom (i + 1) (b :: rest)
    else [{ element := none, count := 1 }]
  | _ => []

def stretches (index : List Nat) : List Stretch := stretchesFrom 0 index

/-- The element of a stretch, if the offsets name one. -/
def Stretch.owner (s : Stretch) : Checked Nat :=
  match s.element with
  | some i => .ok i
  | none => .error .overflow

/-- The number of bytes of storage for the number of a face. -/
def faceBytes : Nat := 8

/-- The face that each particle of a stretch came through. -/
def Stretch.faces (zone : Zone) (s : Stretch) : Checked (List Nat) :=
  if s.count = 0 then .ok []
  else do
    let face ← fetch zone.elements (← s.owner)
    Count.store s.count faceBytes
    return List.replicate s.count face

/-- The number of that face over all ranks, once for each particle of the stretch. -/
def Stretch.globalFaces (zone : Zone) (s : Stretch) : Checked (List Nat) := do
  match zone.globalId (← s.owner) with
  | some face => return List.replicate s.count face
  | none => return []

/-- The face that each particle of a boundary zone came through. -/
def faces (zone : Zone) (index : List Nat) : Checked (Array Nat) := do
  return (← (stretches index).mapM (Stretch.faces zone)).flatten.toArray

/-- The numbers of those faces over all ranks. -/
def globalFaces (zone : Zone) (index : List Nat) : Checked (Array Nat) := do
  return (← (stretches index).mapM (Stretch.globalFaces zone)).flatten.toArray

variable {α : Type} [Scalar α]

/-- Puts a particle at the centre of element `i` of a zone: of the face, in the
cell behind it, or of the cell. -/
def placeAt (zone : Zone) (mesh : Mesh α) (rank i : Nat) (p : Particle α) :
    Checked (Particle α) := do
  let element ← fetch zone.elements i
  match zone.kind with
  | .boundary =>
    return { p with
      position := ← fetch mesh.faceCenters element
      cell := ← fetch mesh.faceCells element
      rank }
  | .volume =>
    return { p with position := ← fetch mesh.cellCenters element, cell := element, rank }

/-- Places particles at the elements of stretches, as far as both lists go. -/
def placeAll (zone : Zone) (mesh : Mesh α) (rank : Nat) :
    List Stretch → List (Particle α) → Checked (List (Particle α))
  | s :: rest, p :: ps => do
    let here := (p :: ps).take s.count
    let placed ← here.mapM fun p => do placeAt zone mesh rank (← s.owner) p
    return placed ++ (← placeAll zone mesh rank rest ((p :: ps).drop s.count))
  | _, ps => .ok ps

/-- Places fresh particles of a zone. -/
def place (zone : Zone) (index : List Nat) (mesh : Mesh α) (rank : Nat)
    (ps : Array (Particle α)) : Checked (Array (Particle α)) := do
  return (← placeAll zone mesh rank (stretches index) ps.toList).toArray

end Inflow.Release
