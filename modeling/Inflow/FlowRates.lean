import Inflow.Scalar
import Inflow.Zone
/-!
# Flow rates

Mass released in a step, per kind of zone, zone and statistical class. The
slots of a zone follow each other: the first holds all classes together, slot
`c` holds class `c`.
-/

namespace Inflow

structure FlowRates (α : Type) where
  /-- Number of slots per zone. -/
  stride : Nat
  boundary : Array α
  volume : Array α
  deriving DecidableEq

namespace FlowRates

variable {α : Type} [Scalar α]

/-- The accumulators before the first step: no zones, and no slots per zone. -/
def unset : FlowRates α := { stride := 0, boundary := #[], volume := #[] }

/-- Empty slots for a number of zones. -/
def slotsFor (zones stride : Nat) : Checked (Array α) := do
  let n ← Count.mul zones stride
  Count.store n scalarBytes
  return Array.replicate n 0

/-- Accumulators at zero; there is at least one slot per zone. -/
def zeros (boundaryZones volumeZones slots : Nat) : Checked (FlowRates α) := do
  let stride := max slots 1
  let boundary ← slotsFor boundaryZones stride
  let volume ← slotsFor volumeZones stride
  return { stride, boundary, volume }

variable (f : FlowRates α)

def slots : ZoneKind → Array α
  | .boundary => f.boundary
  | .volume => f.volume

def withSlots (kind : ZoneKind) (slots : Array α) : FlowRates α :=
  match kind with
  | .boundary => { f with boundary := slots }
  | .volume => { f with volume := slots }

/-- Adds a value to a zone and, if it is one, to a class of it. -/
def add (kind : ZoneKind) (zone statClass : Nat) (value : α) : Checked (FlowRates α) := do
  let slots := f.slots kind
  let base ← Count.mul zone f.stride
  let _ ← fetch slots base
  let slots := slots.modify base (· + value)
  if 0 < statClass && statClass < f.stride then
    let own ← Count.add base statClass
    let _ ← fetch slots own
    return f.withSlots kind (slots.modify own (· + value))
  else return f.withSlots kind slots

/-- The value in the slot of a zone and class, zero if there is no such slot. -/
def get (kind : ZoneKind) (zone statClass : Nat) : Checked α := do
  let i ← Count.add (← Count.mul zone f.stride) statClass
  return (f.slots kind)[i]?.getD 0

/-- Every `stride`-th entry of a list, beginning with the first; `skip` entries
are left out before the next one. -/
def everyNth (stride : Nat) : (skip : Nat) → List α → List α
  | _, [] => []
  | 0, x :: xs => x :: everyNth stride (stride - 1) xs
  | skip + 1, _ :: xs => everyNth stride skip xs

/-- The first slot of each zone. -/
def zoneTotals (kind : ZoneKind) : Checked (List α) :=
  if f.stride = 0 then .error .zeroStride
  else .ok (everyNth f.stride 0 (f.slots kind).toList)

end FlowRates
end Inflow
