import Inflow.Scalar
import Inflow.Space
/-!
# Carrier fluid

The velocity and temperature of the fluid that released particles see.
-/

namespace Inflow

structure Fluid (α : Type) where
  /-- Number of time levels for which velocities are kept. -/
  levels : Nat := 1
  /-- The velocity in a cell at a time level, zero being the newest. -/
  velocity : (cell level : Nat) → Checked (Vec3 α)
  temperature : (cell : Nat) → α

/-- The same velocity and temperature everywhere. -/
def Fluid.uniform {α : Type} (velocity : Vec3 α) (temperature : α) : Fluid α :=
  { velocity := fun _ _ => .ok velocity, temperature := fun _ => temperature }

/-- The time level that a step reads: the one asked for, or the oldest there is. -/
def Fluid.level {α : Type} (f : Fluid α) (wanted : Nat) : Nat := min wanted (f.levels - 1)

end Inflow
