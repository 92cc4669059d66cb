import Inflow.Particle.Record
/-!
# Tracking events

A particle crossing or touching a boundary face, as it was at that moment.
-/

namespace Inflow

structure TrackingEvent (α : Type) where
  particle : Particle α
  /-- Local number of the face. -/
  face : Nat
  /-- Number of the face over all ranks. -/
  globalFace : Nat
  flags : EventFlags
  deriving DecidableEq

/-- A particle coming in through a face. -/
def TrackingEvent.inflow {α : Type} (particle : Particle α) (face globalFace : Nat) :
    TrackingEvent α :=
  { particle, face, globalFace, flags := EventFlags.empty.insert .inflow }

end Inflow
