import Inflow.InjectionSet
import Inflow.Model
import Inflow.Fluid
import Inflow.Random.Stream
import Inflow.Particle.Record
/-!
# Physical attributes of fresh particles

Size, mass, statistical weight, temperature, shape and coal layers, set once
the particle is where it will stay.
-/

namespace Inflow.Release

variable {α γ : Type} [Scalar α]

/-- What the attributes depend on beside the set. -/
structure Setting (α : Type) where
  model : Model α
  fluid : Fluid α
  /-- The time level of the fluid, one that it has. -/
  level : Nat
  dtp : α

/-- Sampled diameters stay within this many deviations of the mean. -/
def deviationLimit : α := Scalar.ofNat 3

/-- The coal of a set's particles, if the model burns coal and has it. -/
def coalOf (model : Model α) (set : InjectionSet α) : Option (Coal α) :=
  if model.burnsCoal then model.coal? set.coalNumber else none

section Draws

variable [Generator γ]

/-- The diameter of a particle: the set's, or one normal deviate away from it
and clipped. -/
def diameter (set : InjectionSet α) : Drawing γ α := do
  if 0 < set.diameterDeviation then
    let sigma := set.diameterDeviation
    let deviate ← Drawing.normal
    let spread := deviationLimit * sigma
    Drawing.check (Scalar.clamp (set.diameter - spread) (set.diameter + spread)
      (set.diameter + deviate * sigma))
  else return set.diameter

end Draws

/-- The mass of a ball. -/
def ballMass (density diameter : α) : α :=
  density * Scalar.pi * Scalar.cube diameter / Scalar.ofNat 6

/-- The statistical weight of a particle of the given mass: the one that yields
the imposed flow rate, or the set's own. -/
def weightOf (set : InjectionSet α) (dtp mass : α) : α :=
  if 0 < set.flowRate ∧ 0 < set.count ∧ 0 < mass then
    set.flowRate * dtp / (Scalar.ofNat set.count * mass)
  else set.weight

/-- The layers of a fresh coal particle: equal shares of its mass, no coke yet. -/
def coalLayers (layers : Nat) (c : Coal α) (mass diameter : α) : Checked (CoalLayers α) := do
  let n := max layers 1
  Count.store n scalarBytes
  let share := mass / Scalar.ofNat n
  return {
    waterMass := Array.replicate n (c.waterFraction * share)
    coalMass := Array.replicate n ((1 - c.waterFraction - c.ashFraction) * share)
    cokeMass := Array.replicate n 0
    density := Array.replicate n c.density
    shrinkingDiameter := diameter
    initialDiameter := diameter }

def withFluidVelocity (set : InjectionSet α) (velocity : Vec3 α) (p : Particle α) : Particle α :=
  { p with
    velocitySeen := velocity
    velocity := match set.velocity with
      | .fluid => velocity
      | _ => p.velocity }

def withSize (x : Setting α) (set : InjectionSet α) (diameter : α) (p : Particle α) : Particle α :=
  let density := match coalOf x.model set with
    | some c => c.density
    | none => set.density
  let mass := ballMass density diameter
  { p with
    diameter
    density
    mass
    weight := weightOf set x.dtp mass
    statClass := set.statClass
    aggregateClass := set.aggregateClass
    fractalDimension := set.fractalDimension
    foulingIndex := set.foulingIndex }

def withHeat (x : Setting α) (set : InjectionSet α) (p : Particle α) : Particle α :=
  let coal := coalOf x.model set
  if x.model.heatsParticles || coal.isSome then
    let seen := x.fluid.temperature p.cell
    { p with
      temperatureSeen := seen
      temperature := match set.temperatureProfile with
        | .imposed => set.temperature
        | .seen => seen
      specificHeat := match coal with
        | some c => c.specificHeat
        | none => set.specificHeat
      emissivity := set.emissivity }
  else p

def withShape (x : Setting α) (set : InjectionSet α) (p : Particle α) : Particle α :=
  if x.model.shape = .spheroid then
    { p with
      radii := set.radii
      orientation := set.orientation
      angularVelocity := set.angularVelocity
      shapeParameters := set.shapeParameters
      euler := set.euler }
  else p

def withCoal (x : Setting α) (set : InjectionSet α) (p : Particle α) : Checked (Particle α) :=
  match coalOf x.model set with
  | some c => do
    let layers ← coalLayers x.model.coalLayers c p.mass p.diameter
    return { p with coalNumber := set.coalNumber, coal := some layers }
  | none => .ok p

variable [Generator γ]

/-- Sets the attributes of one particle. A spread of diameters takes one normal
deviate, two draws. -/
def attributesOf (x : Setting α) (set : InjectionSet α) (p : Particle α) :
    Drawing γ (Particle α) := do
  let velocity ← Drawing.check (x.fluid.velocity p.cell x.level)
  let diameter ← diameter set
  let p := withFluidVelocity set velocity p
  Drawing.check (withCoal x set (withShape x set (withHeat x set (withSize x set diameter p))))

/-- Sets the attributes of fresh particles. -/
def attributes (x : Setting α) (set : InjectionSet α) (ps : Array (Particle α)) :
    Drawing γ (Array (Particle α)) := do
  let ready ← ps.toList.mapM (attributesOf x set)
  return ready.toArray

end Inflow.Release
