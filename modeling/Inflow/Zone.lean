/-!
# Zones

A zone is a named list of mesh elements that particles can be released from:
boundary faces, or cells of the volume. Elements are known by their local ids;
a zone may carry a numbering that is valid over all ranks beside them.
-/

namespace Inflow

/-- What the elements of a zone are. -/
inductive ZoneKind where
  | boundary
  | volume
  deriving DecidableEq, Repr

/-- The word for a kind of zone in messages. -/
def ZoneKind.name : ZoneKind → String
  | boundary => "boundary"
  | volume => "volume"

/-- Boundary zones come first wherever all zones are visited. -/
def ZoneKind.all : List ZoneKind := [.boundary, .volume]

/-- What happens to particles that reach a boundary zone. -/
inductive BoundaryNature where
  | undefined
  | symmetry
  | inlet
  | outlet
  | rebound
  | deposition1
  | deposition2
  | depositionDlvo
  | fouling
  | user
  deriving DecidableEq, Repr

structure Zone where
  id : Nat
  name : String
  kind : ZoneKind
  /-- Local ids of the elements. -/
  elements : Array Nat
  /-- Ids of the elements that are valid over all ranks. -/
  globalIds : Option (Array Nat) := none
  deriving DecidableEq, Repr

/-- A numbering with the wrong number of ids. -/
structure NumberingMismatch where
  zone : Nat
  expected : Nat
  got : Nat
  deriving DecidableEq, Repr

def NumberingMismatch.message (e : NumberingMismatch) : String :=
  s!"Zone {e.zone}: {e.got} global ids given for {e.expected} elements"

namespace Zone

/-- Attaches a numbering with one id per element. -/
def withGlobalIds (z : Zone) (ids : Array Nat) : Except NumberingMismatch Zone :=
  if ids.size = z.elements.size then .ok { z with globalIds := some ids }
  else .error { zone := z.id, expected := z.elements.size, got := ids.size }

/-- The id of element `i` over all ranks: its local id where the zone has no
numbering, or one that ends before `i`. -/
def globalId (z : Zone) (i : Nat) : Option Nat :=
  z.elements[i]?.map fun own => (z.globalIds.bind (·[i]?)).getD own

end Zone
end Inflow
