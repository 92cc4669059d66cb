import Inflow.Settings
import Inflow.Registry
import Inflow.Box
/-!
# Scenarios

A whole run as a document describes it: settings, a box, the registry, the
number and length of the steps, and a uniform carrier fluid.
-/

namespace Inflow

/-- The box that a scenario has if it names none. -/
def Box.standard {α : Type} [Scalar α] : Box α :=
  { layers := Vector.replicate 3 10, lengths := Vector.replicate 3 1 }

structure Scenario (α : Type) where
  settings : Settings α
  box : Box α
  registry : Registry α
  steps : Nat
  /-- Length of a step. -/
  dtp : α
  fluidVelocity : Vec3 α
  fluidTemperature : α

namespace Scenario

variable {α : Type} [Scalar α]

/-- The scenario that everything left open in a document falls back on. -/
def standard : Scenario α where
  settings := {}
  box := .standard
  registry := {}
  steps := 10
  dtp := Scalar.ratio 1 1000
  fluidVelocity := Vector.replicate 3 0
  fluidTemperature := Scalar.ratio 29315 100

/-- The scenario that is printed as an example: an inlet on one side of the
standard box, and a single release in its volume. -/
def sample : Scenario α :=
  let box : Box α := .standard
  let faces := (box.sideFaces .xMin).toOption.getD []
  let cells := box.allCells.toOption.getD []
  let inlet : ZoneEntry α :=
    { zone := { id := 0, name := "inlet", kind := .boundary, elements := faces.toArray }
      nature := .inlet }
  let domain : ZoneEntry α :=
    { zone := { id := 0, name := "domain", kind := .volume, elements := cells.toArray } }
  { standard with
    registry :=
      { boundary := [inlet.addSet
          { InjectionSet.standard with count := 100, velocity := .normal 1 }]
        volume := [domain.addSet
          { InjectionSet.standard with
              count := 50, frequency := 0, velocity := .components (Vector.replicate 3 0) }] }
    fluidVelocity := .onAxis .x 1 }

end Scenario
end Inflow
