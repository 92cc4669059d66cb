import Inflow.Scalar
/-!
# Physical model

Which attributes particles carry, and which of them are solved for.
-/

namespace Inflow

inductive PhysicalModel where
  | inert
  | heat
  | coal
  deriving DecidableEq, Repr

inductive ShapeModel where
  | sphere
  | spheroid
  deriving DecidableEq, Repr

/-- One coal of the coal table. -/
structure Coal (α : Type) where
  density : α
  specificHeat : α
  waterFraction : α
  ashFraction : α

structure Model (α : Type) where
  physics : PhysicalModel := .inert
  /-- Number of statistical classes, zero for none. -/
  classes : Nat := 0
  agglomeration : Bool := false
  shape : ShapeModel := .sphere
  fouling : Bool := false
  solveTemperature : Bool := false
  solveTemperatureSeen : Bool := false
  solveDiameter : Bool := false
  solveMass : Bool := false
  radiativeCoupling : Bool := false
  coalLayers : Nat := 1
  /-- The coal table; coals are numbered from one. -/
  coals : List (Coal α) := []

namespace Model

variable {α : Type} (m : Model α)

def burnsCoal : Bool := m.physics == .coal

/-- Whether heat transfer solves for a temperature of the particle. -/
def heatsParticles : Bool := m.physics == .heat && (m.solveTemperature || m.solveTemperatureSeen)

/-- Whether particles carry a specific heat. -/
def hasSpecificHeat : Bool := m.heatsParticles || m.burnsCoal

/-- Flow rates per zone: one for all classes together and one for each class. -/
def flowSlots : Checked Nat := Count.add m.classes 1

/-- The coal with number `n`, counted from one. -/
def coal? (n : Nat) : Option (Coal α) :=
  match n with
  | 0 => none
  | i + 1 => m.coals[i]?

end Model
end Inflow
