import Inflow.InjectionSet
import Inflow.Mesh
import Inflow.Fluid
import Inflow.Ranks.Collective
import Inflow.Particle.Population
/-!
# Surroundings

What an injector works with and does not own: the mesh and the fluid, the
rank's seat, the memory there is, and the parts of the surrounding program that
take a hand in a release. Hooks may edit fresh particles, and a tracker finds the
cells of those that were moved; both may keep a state of their own, of type `ω`.
They get the particles as a vector and give one back, so they change records and
never the number of them. A hook may also stop at a fault, which ends the step
there.
-/

namespace Inflow

/-- What a hook is told about the particles it gets. -/
structure HookCall (α : Type) where
  set : InjectionSet α
  /-- The faces that the particles of a boundary zone came through. -/
  faces : Option (Array Nat)
  /-- Thickness of the viscous sublayer at each face. -/
  sublayer : Array α

/-- An edit of fresh particles by the surrounding program. -/
abbrev Hook (α ω : Type) :=
  {n : Nat} → HookCall α → Vector (Particle α) n → ω → Checked (Vector (Particle α) n) × ω

/-- The edits of a release. -/
structure Hooks (α ω : Type) where
  /-- May move particles; their previous positions are restored afterwards. -/
  move : Hook α ω
  /-- May change any attribute once all are set. -/
  modify : Hook α ω

/-- No edits. -/
def Hooks.none {α ω : Type} : Hooks α ω where
  move := fun _ ps w => (.ok ps, w)
  modify := fun _ ps w => (.ok ps, w)

/-- Finds the cells of moved particles. The answer lists the particles that are
in no cell of this rank. -/
structure Tracker (α ω : Type) where
  relocate : {n : Nat} → Mesh α → Vector (Particle α) n → Array α → ω →
    (Vector (Particle α) n × List Nat) × ω

section Locating

variable {α : Type} [Scalar α]

/-- The particle in the cell that its position is in; unchanged if there is none. -/
def Mesh.host (m : Mesh α) (p : Particle α) : Particle α :=
  match m.locate p.position with
  | some cell => { p with cell }
  | none => p

/-- The particles in the cells that their positions are in, and the indices of
those that are in none. -/
def Mesh.relocate (m : Mesh α) {n : Nat} (ps : Vector (Particle α) n) :
    Vector (Particle α) n × List Nat :=
  (ps.map m.host,
    ps.toList.zipIdx.filterMap fun (p, i) => if (m.locate p.position).isNone then some i else none)

/-- The tracker that goes by the position alone and counts its passes. -/
def Tracker.byPosition : Tracker α Nat where
  relocate := fun mesh ps _ passes => (mesh.relocate ps, passes + 1)

end Locating

/-- Everything a step works with and does not own. -/
structure Surroundings (α ω : Type) where
  seat : Seat
  mesh : Mesh α
  fluid : Fluid α
  hooks : Hooks α ω
  tracker : Tracker α ω
  sublayer : Array α := #[]
  /-- The memory that the population may grow into. -/
  memory : Memory := .usual

end Inflow
