import Inflow.InjectionSet
/-!
# Registry

All zones with the sets that release from them. `Registry.requests` lists the
sets in the order in which a step visits them.
-/

namespace Inflow

/-- A zone and its sets. -/
structure ZoneEntry (α : Type) where
  zone : Zone
  /-- Has a meaning for boundary zones only. -/
  nature : BoundaryNature := .undefined
  sets : List (InjectionSet α) := []

/-- Adds a set, which becomes the zone's next one. -/
def ZoneEntry.addSet {α : Type} (e : ZoneEntry α) (s : InjectionSet α) : ZoneEntry α :=
  { e with sets := e.sets ++
      [{ s with zone := e.zone.id, id := e.sets.length, location := e.zone.kind }] }

structure Registry (α : Type) where
  boundary : List (ZoneEntry α) := []
  volume : List (ZoneEntry α) := []

/-- One set of the registry with the place where it stands. -/
structure Request (α : Type) where
  kind : ZoneKind
  /-- Index of the zone among the zones of its kind. -/
  zoneIndex : Nat
  entry : ZoneEntry α
  set : InjectionSet α

namespace Registry

variable {α : Type}

def zones (r : Registry α) : ZoneKind → List (ZoneEntry α)
  | .boundary => r.boundary
  | .volume => r.volume

/-- All sets: boundary zones first, zone by zone, set by set. -/
def requests (r : Registry α) : List (Request α) :=
  ZoneKind.all.flatMap fun kind =>
    (r.zones kind).zipIdx.flatMap fun (entry, zoneIndex) =>
      entry.sets.map fun set => { kind, zoneIndex, entry, set }

/-- The number of particles that all sets together ask for. -/
def totalRequested (r : Registry α) : Nat :=
  r.requests.foldl (fun n q => Count.addUpTo n q.set.count) 0

end Registry
end Inflow
