import Inflow.Scalar
/-!
# Cumulative weights

A list of weights is sampled through its partial sums: entry `i` is the weight
of the elements `0 … i`, and a draw selects the first element whose entry
reaches it. The sums are compensated for rounding, stay where they are at a
weight of zero, and never step back, so an element without weight is never the
first to reach anything.
-/

namespace Inflow

/-- A running sum: the sum itself, the part that rounding has lost so far, and
the largest value the sum has had. -/
structure RunningSum (α : Type) where
  sum : α
  lost : α
  top : α

namespace RunningSum

variable {α : Type} [Scalar α]

def zero : RunningSum α := ⟨0, 0, 0⟩

/-- Adds a weight; zero changes nothing. -/
def add (s : RunningSum α) (w : α) : RunningSum α :=
  if Scalar.isZero w then s
  else
    let y := w - s.lost
    let t := s.sum + y
    { sum := t, lost := (t - s.sum) - y, top := Scalar.larger s.top t }

/-- The largest value after each of the weights. -/
def tops (s : RunningSum α) : List α → List α
  | [] => []
  | w :: ws => (s.add w).top :: (s.add w).tops ws

end RunningSum

/-- Whether entry `i` lies below `x`. -/
def isBelow {α : Type} [Scalar α] (entries : Array α) (x : α) (i : Nat) : Bool :=
  match entries[i]? with
  | some v => decide (v < x)
  | none => false

/-- Halves the range of `size` entries from `base` on until one is left. The
middle entry decides: if it lies below `x`, the search goes on from it. -/
def search {α : Type} [Scalar α] (entries : Array α) (x : α) (base size : Nat) : Nat :=
  if 1 < size then
    let middle := base + size / 2
    search entries x (if isBelow entries x middle then middle else base) (size - size / 2)
  else if size = 1 && isBelow entries x base then base + 1
  else base
termination_by size

/-- The last entry, zero if there is none. -/
def lastEntry {α : Type} [Scalar α] (entries : Array α) : α := entries.back?.getD 0

/-- The first index whose entry is at least `x`, where `x` counts as the last
entry if it lies beyond it. -/
def position {α : Type} [Scalar α] (entries : Array α) (x : α) : Nat :=
  search entries (Scalar.smaller x (lastEntry entries)) 0 (entries.size - 1)

/-- `position`, in a table that must have entries. -/
def locate {α : Type} [Scalar α] (entries : Array α) (x : α) : Checked Nat :=
  if entries.isEmpty then .error .emptyTable else .ok (position entries x)

/-- The partial sums of a list of weights, their total, and the number of draws
so far that lay clearly beyond the last entry. -/
structure Cumulative (α : Type) where
  entries : Array α
  total : α
  overshoots : Nat := 0

namespace Cumulative

variable {α : Type} [Scalar α]

def empty : Cumulative α := { entries := #[], total := 0 }

def ofWeights (weights : List α) : Cumulative α :=
  let entries := (RunningSum.zero.tops weights).toArray
  { entries, total := lastEntry entries }

/-- Partial sums of weights, each times its profile value if there is a profile. -/
def build (weights : Array α) (profile : Option (Array α)) : Checked (Cumulative α) :=
  match profile with
  | none => .ok (ofWeights weights.toList)
  | some values =>
    if values.size = weights.size then
      .ok (ofWeights (List.zipWith (· * ·) weights.toList values.toList))
    else .error .lengthMismatch

/-- Partial sums of the weights that elements have in a larger table. -/
def buildIndexed (parents : Array α) (elements : Array Nat) (profile : Option (Array α)) :
    Checked (Cumulative α) :=
  match profile with
  | none => do
    let weights ← elements.toList.mapM (fetch parents)
    return ofWeights weights
  | some values =>
    if values.size = elements.size then do
      let weights ← elements.toList.mapM (fetch parents)
      return ofWeights (List.zipWith (· * ·) weights values.toList)
    else .error .lengthMismatch

/-- Scales the entries to `[0, 1]`; without a positive total nothing changes. -/
def normalize (c : Cumulative α) : Cumulative α :=
  if 0 < c.total then
    let inverse := 1 / c.total
    let entries := c.entries.map (· * inverse)
    { c with entries, total := lastEntry entries }
  else c

/-- A draw counts as an overshoot if it exceeds the last entry by more than
this, relative to the entry. -/
def overshootTolerance : α := Scalar.ratio 1 (Nat.pow 10 12)

def overshoots? (c : Cumulative α) (x : α) : Bool :=
  match c.entries.back? with
  | some last => decide (last * (1 + overshootTolerance) < x)
  | none => false

/-- The element that a draw of `[0, 1)` selects in a normalized table. A draw
of zero is moved up, so that it does not select a leading element without
weight. -/
def select (c : Cumulative α) (u : α) : Nat × Cumulative α :=
  let x := Scalar.larger u Scalar.tiny
  (position c.entries x,
    { c with overshoots := c.overshoots + if c.overshoots? x then 1 else 0 })

/-- `select`, in a table that must have entries. -/
def sample (c : Cumulative α) (u : α) : Checked (Nat × Cumulative α) :=
  if c.entries.isEmpty then .error .emptyTable else .ok (c.select u)

end Cumulative
end Inflow
