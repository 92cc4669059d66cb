import Inflow.Events.Event
import Inflow.FlowRates
/-!
# Sinks

Where events and flow rates go. An active sink keeps all it is given; an
inactive one keeps nothing.
-/

namespace Inflow

structure Sink (α : Type) where
  active : Bool
  /-- Number of batches received. -/
  batches : Nat := 0
  /-- The events of all batches, in order. -/
  events : Array (TrackingEvent α) := #[]
  /-- The flow rates received last. -/
  lastFlow : Option (FlowRates α) := none

namespace Sink

variable {α : Type} (s : Sink α)

def inactive : Sink α := { active := false }

def recording : Sink α := { active := true }

/-- Takes a batch, if there is one. -/
def deliver (batch : Option (Array (TrackingEvent α))) : Sink α :=
  match batch with
  | some events =>
    if s.active then { s with batches := s.batches + 1, events := s.events ++ events } else s
  | none => s

def deliverFlow (flow : FlowRates α) : Sink α :=
  if s.active then { s with lastFlow := some flow } else s

end Sink
end Inflow
