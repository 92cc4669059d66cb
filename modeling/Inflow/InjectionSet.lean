import Inflow.Scalar
import Inflow.Space
import Inflow.Zone
/-!
# Injection sets

A set says how many particles to release from a zone, at which steps, and with
which attributes.
-/

namespace Inflow

/-- Factors on the weights of a zone's elements. -/
abbrev Profile (α : Type) := Zone → Array α

/-- The profile that leaves the weights as they are. -/
def Profile.uniform {α : Type} [Scalar α] : Profile α :=
  fun zone => Array.replicate zone.elements.size 1

/-- The velocity of released particles. -/
inductive Velocity (α : Type) where
  /-- The velocity of the fluid around the particle. -/
  | fluid
  /-- A speed into the domain along the normal of the particle's face. -/
  | normal (magnitude : α)
  | components (velocity : Vec3 α)

/-- The temperature of released particles. -/
inductive TemperatureProfile where
  /-- The temperature of the fluid around the particle. -/
  | seen
  | imposed
  deriving DecidableEq, Repr

structure InjectionSet (α : Type) where
  zone : Nat
  id : Nat
  location : ZoneKind
  /-- Number of particles over all ranks that each release asks for. -/
  count : Nat
  /-- Steps from one release to the next; zero or less asks for one release at the start. -/
  frequency : Int
  profile : Option (Profile α)
  velocity : Velocity α
  temperatureProfile : TemperatureProfile
  temperature : α
  diameter : α
  /-- Standard deviation of the diameter. -/
  diameterDeviation : α
  density : α
  specificHeat : α
  emissivity : α
  /-- Statistical weight of a particle where no flow rate is imposed. -/
  weight : α
  /-- Mass flow rate to release; zero or less imposes none. -/
  flowRate : α
  statClass : Nat
  aggregateClass : Int
  fractalDimension : α
  foulingIndex : α
  /-- Number of the coal, counted from one. -/
  coalNumber : Nat
  radii : Vec3 α
  orientation : Vec3 α
  angularVelocity : Vec3 α
  shapeParameters : Vector α 4
  euler : Vector α 4

namespace InjectionSet

variable {α : Type} [Scalar α]

/-- The set that everything left open in a document falls back on. -/
def standard : InjectionSet α where
  zone := 0
  id := 0
  location := .boundary
  count := 0
  frequency := 1
  profile := none
  velocity := .fluid
  temperatureProfile := .seen
  temperature := Scalar.ratio 29315 100
  diameter := Scalar.ratio 1 100000
  diameterDeviation := 0
  density := Scalar.ofNat 2500
  specificHeat := Scalar.ofNat 1400
  emissivity := 1
  weight := 1
  flowRate := 0
  statClass := 0
  aggregateClass := 1
  fractalDimension := Scalar.ofNat 3
  foulingIndex := 0
  coalNumber := 1
  radii := Vector.replicate 3 0
  orientation := .onAxis .x 1
  angularVelocity := Vector.replicate 3 0
  shapeParameters := Vector.replicate 4 0
  euler := #v[1, 0, 0, 0]

/-- The number of steps between releases as a step number sees it. A set that
asks for one release gets the step's own number if this is the first step of a
run that has released nothing yet, and a number beyond it otherwise. -/
def period (s : InjectionSet α) (step start released : Nat) : Checked Nat :=
  if 0 < s.frequency then .ok s.frequency.toNat
  else do
    let first ← Count.add start 1
    if step = first && released == 0 then return step else Count.add step 1

/-- Whether the set is due at step `step` of a run that began after step
`start`, when `released` particles have been released so far. -/
def isDue (s : InjectionSet α) (step start released : Nat) : Checked Bool := do
  let period ← s.period step start released
  return 0 < period && step % period == 0

/-- The factors on the weights of a zone's elements, if the set has a profile. -/
def factors (s : InjectionSet α) (zone : Zone) : Option (Array α) :=
  s.profile.map (· zone)

end InjectionSet
end Inflow
