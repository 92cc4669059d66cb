/-!
# Space

The three axes, and points and directions by their component along each.
-/

namespace Inflow

inductive Axis where
  | x
  | y
  | z
  deriving DecidableEq, Repr

def Axis.all : List Axis := [x, y, z]

/-- Where the component along the axis stands. -/
def Axis.index : Axis → Fin 3
  | x => 0
  | y => 1
  | z => 2

/-- A point or direction in space. -/
abbrev Vec3 (α : Type) := Vector α 3

namespace Vec3

variable {α : Type}

/-- The vector with the given component along each axis. -/
def ofAxes (f : Axis → α) : Vec3 α := #v[f .x, f .y, f .z]

/-- The component along an axis. -/
def along (v : Vec3 α) (a : Axis) : α := v[a.index]

theorem along_ofAxes (f : Axis → α) (a : Axis) : (ofAxes f).along a = f a := by
  cases a <;> rfl

/-- A multiple of the unit vector of an axis. -/
def onAxis [Zero α] (a : Axis) (c : α) : Vec3 α := ofAxes fun b => if b = a then c else 0

end Vec3
end Inflow
