import Inflow.Scalar
import Inflow.Space
import Inflow.Particle.Flags
/-!
# Particle records

The state of one computational particle. Every fresh particle starts from
`Particle.blank`, in which everything is zero.
-/

namespace Inflow

/-- What has happened since a particle last bounced off a wall. -/
inductive Rebound where
  | never
  | stepsSince (steps : Nat)
  deriving DecidableEq, Repr

/-- The layers of a coal particle, from the inside out. -/
structure CoalLayers (α : Type) where
  waterMass : Array α
  coalMass : Array α
  cokeMass : Array α
  density : Array α
  shrinkingDiameter : α
  initialDiameter : α
  deriving DecidableEq

def CoalLayers.count {α : Type} (c : CoalLayers α) : Nat := c.coalMass.size

structure Particle (α : Type) where
  /-- The cell that the particle is in. -/
  cell : Nat
  rank : Nat
  position : Vec3 α
  velocity : Vec3 α
  /-- Velocity of the fluid around the particle. -/
  velocitySeen : Vec3 α
  previousCell : Nat
  previousRank : Nat
  previousPosition : Vec3 α
  previousVelocity : Vec3 α
  /-- Time spent in the domain; below zero as long as the particle has yet to enter it. -/
  residenceTime : α
  /-- The uniform value drawn at release. -/
  randomValue : α
  flags : ParticleFlags
  rebound : Rebound
  truncated : α
  diameter : α
  mass : α
  density : α
  /-- Number of physical particles that this one stands for. -/
  weight : α
  statClass : Nat
  specificHeat : α
  temperature : α
  temperatureSeen : α
  emissivity : α
  aggregateClass : Int
  fractalDimension : α
  foulingIndex : α
  radii : Vec3 α
  orientation : Vec3 α
  angularVelocity : Vec3 α
  shapeParameters : Vector α 4
  euler : Vector α 4
  /-- Number of the coal, counted from one; zero for other particles. -/
  coalNumber : Nat
  coal : Option (CoalLayers α)
  deriving DecidableEq

namespace Particle

variable {α : Type}

/-- The record in which everything is zero. -/
def blank [Zero α] : Particle α where
  cell := 0
  rank := 0
  position := Vector.replicate 3 0
  velocity := Vector.replicate 3 0
  velocitySeen := Vector.replicate 3 0
  previousCell := 0
  previousRank := 0
  previousPosition := Vector.replicate 3 0
  previousVelocity := Vector.replicate 3 0
  residenceTime := 0
  randomValue := 0
  flags := .empty
  rebound := .never
  truncated := 0
  diameter := 0
  mass := 0
  density := 0
  weight := 0
  statClass := 0
  specificHeat := 0
  temperature := 0
  temperatureSeen := 0
  emissivity := 0
  aggregateClass := 0
  fractalDimension := 0
  foulingIndex := 0
  radii := Vector.replicate 3 0
  orientation := Vector.replicate 3 0
  angularVelocity := Vector.replicate 3 0
  shapeParameters := Vector.replicate 4 0
  euler := Vector.replicate 4 0
  coalNumber := 0
  coal := none

/-- The record whose previous state is its current one. -/
def keepAsPrevious (p : Particle α) : Particle α :=
  { p with
    previousCell := p.cell
    previousRank := p.rank
    previousPosition := p.position
    previousVelocity := p.velocity }

end Particle
end Inflow
