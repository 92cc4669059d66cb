import Inflow.Events.Event
/-!
# Event buffers

Events are collected up to a capacity and handed on in batches. An operation
that hands on a batch returns it; a batch is never empty.
-/

namespace Inflow

structure EventBuffer (α : Type) where
  events : Array (TrackingEvent α) := #[]
  capacity : Nat := 0

namespace EventBuffer

variable {α : Type}

/-- The number of bytes of storage for one event. -/
def eventBytes : Nat := 560

/-- An empty buffer for at least one event. -/
def withCapacity (capacity : Nat) : Checked (EventBuffer α) := do
  Count.store capacity eventBytes
  return { capacity := max capacity 1 }

variable (b : EventBuffer α)

def size : Nat := b.events.size

/-- Raises the capacity to at least `n`. The capacity is raised even if the
storage for it cannot exist. -/
def ensureCapacity (n : Nat) : Attempt (EventBuffer α) :=
  if b.capacity < n then
    { state := { b with capacity := n }
      fault := match Count.store n eventBytes with
        | .ok _ => none
        | .error f => some f }
  else { state := b }

/-- Empties the buffer, handing on what was in it. -/
def flush : Option (Array (TrackingEvent α)) × EventBuffer α :=
  if b.events.isEmpty then (none, b) else (some b.events, { b with events := #[] })

/-- Adds an event; a full buffer is flushed before. -/
def push (e : TrackingEvent α) : Option (Array (TrackingEvent α)) × EventBuffer α :=
  if b.capacity ≤ b.size then
    let (batch, b) := b.flush
    (batch, { b with events := b.events.push e })
  else (none, { b with events := b.events.push e })

end EventBuffer
end Inflow
