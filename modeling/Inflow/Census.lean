import Inflow.Ranks.Program
/-!
# Census

The number and weight of the particles over all ranks. Every rank keeps the
same census; a step changes it once, at its end, by sums over the ranks.
-/

namespace Inflow

structure Census (α : Type) where
  /-- Particles released since the beginning, restarts included. -/
  cumulativeTotal : Nat
  /-- Particles lost at release since the beginning. -/
  cumulativeFailed : Nat
  /-- Particles in the domain. -/
  total : Nat
  /-- Particles released in the current step. -/
  released : Nat
  /-- Particles that left the domain in the current step. -/
  left : Nat
  /-- Particles deposited in the current step. -/
  deposited : Nat
  /-- Particles lost at release in the current step. -/
  failed : Nat
  /-- Statistical weight of the particles in the domain. -/
  weight : α
  /-- Statistical weight released in the current step. -/
  weightReleased : α
  /-- Number of changes. -/
  version : Nat
  deriving DecidableEq

/-- What one rank adds to the census in a step. -/
structure StepTotals (α : Type) where
  released : Nat
  weight : α
  failed : Nat

namespace Census

variable {α : Type} [Scalar α]

def zero : Census α where
  cumulativeTotal := 0
  cumulativeFailed := 0
  total := 0
  released := 0
  left := 0
  deposited := 0
  failed := 0
  weight := 0
  weightReleased := 0
  version := 0

/-- The number of particles in the domain with `requested` more. -/
def projected (c : Census α) (requested : Nat) : Nat := Count.addUpTo c.total requested

/-- Enters sums over all ranks. The entries are made one after the other, up to
the first that leaves its range. -/
def enter (c : Census α) (released : Nat) (weight : α) (failed : Nat) : Attempt (Census α) :=
  let c := { c with released }
  match Count.add c.total released with
  | .error f => { state := c, fault := some f }
  | .ok total =>
    let c := { c with total }
    match Count.add c.cumulativeTotal released with
    | .error f => { state := c, fault := some f }
    | .ok cumulativeTotal =>
      let c := { c with cumulativeTotal, failed }
      match Count.add c.cumulativeFailed failed with
      | .error f => { state := c, fault := some f }
      | .ok cumulativeFailed =>
        let c := { c with cumulativeFailed, weightReleased := weight, weight := c.weight + weight }
        match Count.add c.version 1 with
        | .error f => { state := c, fault := some f }
        | .ok version => { state := { c with version } }

/-- Adds up what the ranks contribute and enters it. -/
def commit (c : Census α) (own : StepTotals α) : Program α (Attempt (Census α)) := do
  match ← Program.sumCounts own.released with
  | .error f => return { state := c, fault := some f }
  | .ok released =>
    match ← Program.sumCounts own.failed with
    | .error f => return { state := c, fault := some f }
    | .ok failed =>
      let weight ← Program.sumScalars own.weight
      return c.enter released weight failed

end Census
end Inflow
