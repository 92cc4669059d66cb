import Inflow.Model
import Inflow.Particle.Record
/-!
# Admissibility

After release, every particle is checked once more: sizes and weights must be
positive, layers of coal must not be negative.
-/

namespace Inflow

/-- The attributes that are checked. -/
inductive Attribute where
  | diameter
  | mass
  | weight
  | specificHeat
  | waterMass
  | coalMass
  | cokeMass
  | coalDensity
  | shrinkingDiameter
  | initialDiameter
  deriving DecidableEq, Repr

def Attribute.name : Attribute → String
  | diameter => "diameter"
  | mass => "mass"
  | weight => "statistical weight"
  | specificHeat => "specific heat"
  | waterMass => "water mass"
  | coalMass => "coal mass"
  | cokeMass => "coke mass"
  | coalDensity => "coal density"
  | shrinkingDiameter => "shrinking diameter"
  | initialDiameter => "initial diameter"

/-- An attribute whose value no particle may have. -/
structure Violation (α : Type) where
  /-- Index of the particle in the population. -/
  particle : Nat
  what : Attribute
  /-- The coal layer, where there is more than one. -/
  layer : Option Nat
  value : α

namespace Admissibility

variable {α : Type} [Scalar α]

/-- A violation if the value is not positive. -/
def needPositive (particle : Nat) (what : Attribute) (value : α) : List (Violation α) :=
  if value ≤ 0 then [{ particle, what, layer := none, value }] else []

/-- A violation if the value is negative. -/
def needNonNegative (particle : Nat) (what : Attribute) (layer : Option Nat) (value : α) :
    List (Violation α) :=
  if value < 0 then [{ particle, what, layer, value }] else []

/-- The violations in one attribute of all layers. -/
def layerViolations (particle : Nat) (what : Attribute) (values : Array α) :
    List (Violation α) :=
  values.toList.zipIdx.flatMap fun (value, layer) =>
    needNonNegative particle what (if 1 < values.size then some layer else none) value

def coalViolations (particle : Nat) (c : CoalLayers α) : List (Violation α) :=
  layerViolations particle .waterMass c.waterMass
  ++ layerViolations particle .coalMass c.coalMass
  ++ layerViolations particle .cokeMass c.cokeMass
  ++ layerViolations particle .coalDensity c.density
  ++ needNonNegative particle .shrinkingDiameter none c.shrinkingDiameter
  ++ needNonNegative particle .initialDiameter none c.initialDiameter

/-- The violations of the particle with the given index. -/
def particleViolations (m : Model α) (particle : Nat) (p : Particle α) : List (Violation α) :=
  needPositive particle .diameter p.diameter
  ++ needPositive particle .mass p.mass
  ++ needPositive particle .weight p.weight
  ++ (if m.hasSpecificHeat then needPositive particle .specificHeat p.specificHeat else [])
  ++ (if m.burnsCoal then
      match p.coal with
      | some c => coalViolations particle c
      | none => []
    else [])

/-- The violations of particles whose indices begin at `first`, in their order.
The indices must be counts. -/
def violations (m : Model α) (first : Nat) (ps : Array (Particle α)) :
    Checked (List (Violation α)) := do
  let found ← ps.toList.zipIdx.mapM fun (p, i) => do
    return particleViolations m (← Count.add first i) p
  return found.flatten

end Admissibility
end Inflow
