import Inflow.Sampling.Cumulative
import Inflow.Random.Stream
import Inflow.Ranks.Program
import Inflow.Log
/-!
# Apportioning particles

A number of particles is shared out twice: over the ranks of the group, in
proportion to the weight of each rank's part of a zone, and on each rank over
the elements of its part. Both times every particle is one uniform draw in a
table of cumulative weights. The coordinator draws for all ranks, so the shares
add up whatever the ranks' own streams hold.
-/

namespace Inflow

variable {α γ : Type} [Scalar α] [Generator γ]

/-- Counts per element, the table they were drawn from, and the stream after the draws. -/
structure Tally (α γ : Type) where
  counts : Array Nat
  table : Cumulative α
  stream : RandomStream γ

/-- Draws `n` elements and adds each to its count. -/
def Tally.draw : Nat → Tally α γ → Tally α γ
  | 0, t => t
  | n + 1, t =>
    let drawn : α × RandomStream γ := t.stream.uniform
    let (i, table) := t.table.select drawn.1
    Tally.draw n { counts := t.counts.modify i (· + 1), table, stream := drawn.2 }

namespace Apportion

/-- A rank's share of the particles, its stream after the draws, and what it said. -/
structure Share (γ : Type) where
  count : Nat
  stream : RandomStream γ
  messages : List Message := []

/-- The shares of all ranks, as the coordinator draws them. Without a positive
total weight nobody gets anything. -/
def drawShares (n : Nat) (weights : List α) (stream : RandomStream γ) :
    List Nat × RandomStream γ × List Message :=
  let nothing := Array.replicate weights.length 0
  let table := Cumulative.ofWeights weights
  if 0 < table.total then
    let t := Tally.draw n { counts := nothing, table := table.normalize, stream }
    let warnings :=
      if 0 < t.table.overshoots then [Message.rankDrawsClamped t.table.overshoots] else []
    (t.counts.toList, t.stream, warnings ++ [.apportioned n t.counts.toList])
  else (nothing.toList, stream, [.apportioned n nothing.toList])

/-- This rank's share of `n` particles, given the weight of its part. A rank on
its own takes them all without a draw. -/
def overRanks (n : Nat) (weight : α) (seat : Seat) (stream : RandomStream γ) :
    Program α (Share γ) := do
  if seat.size ≤ 1 then return { count := n, stream }
  match ← Program.gather weight with
  | some weights =>
    let (counts, stream, messages) := drawShares n weights stream
    let count ← Program.scatter (some counts)
    return { count, stream, messages }
  | none =>
    let count ← Program.scatter none
    return { count, stream }

/-- Where each element's particles begin, and after the last element where they
end: particle `k` belongs to element `i` if `index[i] ≤ k < index[i + 1]`. -/
def offsets (start : Nat) : List Nat → List Nat
  | [] => [start]
  | c :: cs => start :: offsets (start + c) cs

/-- Particles laid out element by element, the stream after the draws, and what was said. -/
structure Layout (γ : Type) where
  index : List Nat
  stream : RandomStream γ
  messages : List Message := []

/-- The number of particles that a table can take, and what is said if it is less than `n`. -/
def placeable (n : Nat) (table : Cumulative α) : Nat × List Message :=
  if n = 0 || table.entries.isEmpty then (0, [])
  else if table.total ≤ 0 then (0, [.noWeight n])
  else (n, [])

/-- Shares `n` particles out over the elements of a table that is not yet normalized. -/
def overElements (n : Nat) (table : Cumulative α) (stream : RandomStream γ) : Layout γ :=
  let (n, warnings) := placeable n table
  let t := Tally.draw n
    { counts := Array.replicate table.entries.size 0, table := table.normalize, stream }
  let late := t.table.overshoots
  { index := offsets 0 t.counts.toList
    stream := t.stream
    messages := warnings ++ if 0 < late then [.elementDrawsClamped late] else [] }

/-- Shares `n` particles out over a zone that is split over the ranks. A faulty
table stops the rank before it meets the others. -/
def overZone (n : Nat) (elements : Array Nat) (weights : Array α) (profile : Option (Array α))
    (seat : Seat) (stream : RandomStream γ) : Program α (Checked (Layout γ)) :=
  match Cumulative.buildIndexed weights elements profile with
  | .error f => return .error f
  | .ok table => do
    let share ← overRanks n table.total seat stream
    let layout := overElements share.count table share.stream
    return .ok { layout with messages := share.messages ++ layout.messages }

end Apportion
end Inflow
