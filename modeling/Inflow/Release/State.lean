import Inflow.InjectionSet
import Inflow.Mesh
import Inflow.Random.Stream
import Inflow.Particle.Record
/-!
# The state of fresh particles

Marks, random value, velocity and residence time of a particle at its release,
and its way through the rest of the step.
-/

namespace Inflow.Release

variable {α γ : Type} [Scalar α]

/-- The velocity that a set gives a particle before the fluid is known: that of
a face's inward normal needs the face. -/
def imposedVelocity (mesh : Mesh α) (set : InjectionSet α) (face : Option Nat) (p : Particle α) :
    Checked (Vec3 α) :=
  match set.velocity, face with
  | .components velocity, _ => .ok velocity
  | .normal magnitude, some face => do
    let normal ← fetch mesh.faceNormals face
    return normal.map (-· * magnitude)
  | .normal _, none => .ok p.velocity
  | .fluid, _ => .ok p.velocity

/-- Sets the state of one particle, given its random value. Continuous release
is spread over the step: the particle enters a random part of it later. -/
def initializeWith (r : α) (mesh : Mesh α) (set : InjectionSet α) (dtp : α) (face : Option Nat)
    (p : Particle α) : Checked (Particle α) := do
  return { p with
    flags := .empty
    rebound := .never
    truncated := 0
    randomValue := r
    velocity := ← imposedVelocity mesh set face p
    residenceTime := if set.frequency = 1 then -r * dtp else 0 }

variable [Generator γ]

/-- Sets the state of a particle that came through a face, if any. Takes one uniform draw. -/
def initializeOne (mesh : Mesh α) (set : InjectionSet α) (dtp : α) (face : Option Nat)
    (p : Particle α) : Drawing γ (Particle α) := do
  let r ← Drawing.uniform
  Drawing.check (initializeWith r mesh set dtp face p)

/-- Sets the state of fresh particles; `faces` has the faces of boundary particles. -/
def initializeAll (mesh : Mesh α) (set : InjectionSet α) (dtp : α) (faces : Option (Array Nat))
    (ps : Array (Particle α)) : Drawing γ (Array (Particle α)) := do
  let ready ← ps.toList.zipIdx.mapM fun (p, k) => initializeOne mesh set dtp (faces.bind (·[k]?)) p
  return ready.toArray

/-- Moves a particle that enters within the step along its velocity, for what
is left of the step after it enters. -/
def advance (dtp : α) (p : Particle α) : Particle α :=
  if p.residenceTime < 0 then
    let time := dtp + p.residenceTime
    { p with position := p.position.zipWith (fun x v => x + time * v) p.velocity }
  else p

/-- Moves shorter than this, relative to the size of the cell, are none. -/
def displacementTolerance : α := Scalar.ratio 1 (Nat.pow 10 15)

/-- Whether a particle is away from its previous position, in a cell of the given volume. -/
def isDisplaced (volume : α) (p : Particle α) : Bool :=
  let inverse := 1 / Scalar.cbrt volume
  (p.position.zipWith (fun x y => (x - y) * inverse) p.previousPosition).toList.any fun d =>
    decide (displacementTolerance < Scalar.abs d)

end Inflow.Release
