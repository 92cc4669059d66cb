import Inflow.Scalar
/-!
# Collectives

A group of ranks works on one computation. The ranks meet in collectives: every
rank contributes a value and gets back one computed from all contributions.
`Collective.answer` is what a collective means: the reply to each rank as a
function of the contributions in rank order.

Rank 0 coordinates: values are gathered on it and scattered from it.
-/

namespace Inflow

/-- The place of a rank in its group. -/
structure Seat where
  rank : Nat
  size : Nat
  deriving DecidableEq, Repr

/-- The seat of a computation that runs on its own. -/
def Seat.alone : Seat := { rank := 0, size := 1 }

def Seat.coordinates (s : Seat) : Bool := s.rank == 0

/-- The ways in which ranks meet. -/
inductive Collective where
  /-- Every rank's scalar, in rank order, for the coordinator. -/
  | gather
  /-- One count per rank, from the coordinator. -/
  | scatter
  /-- Whether some rank raises its flag. -/
  | any
  /-- The sum of every rank's count. -/
  | sumCounts
  /-- The sum of every rank's scalar, in rank order. -/
  | sumScalars
  deriving DecidableEq, Repr

namespace Collective

variable (α : Type)

/-- What a rank brings. -/
def Contribution : Collective → Type
  | gather => α
  | scatter => Option (List Nat)
  | any => Bool
  | sumCounts => Nat
  | sumScalars => α

/-- What a rank takes away. -/
def Reply : Collective → Type
  | gather => Option (List α)
  | scatter => Nat
  | any => Bool
  | sumCounts => Checked Nat
  | sumScalars => α

variable {α} [Scalar α]

/-- The reply to rank `rank` when the ranks bring `contributions`. Only the
coordinator sees what is gathered, only its list is scattered, and a rank
without an entry in that list gets zero. -/
def answer : (c : Collective) → (contributions : List (c.Contribution α)) → (rank : Nat) → c.Reply α
  | gather, values, rank => if rank = 0 then some (values : List α) else none
  | scatter, lists, rank =>
    match lists with
    | some counts :: _ => counts[rank]?.getD 0
    | _ => (0 : Nat)
  | any, flags, _ => List.any flags id
  | sumCounts, counts, _ => Count.sum counts
  | sumScalars, values, _ => (Scalar.sum (values : List α) : α)

end Collective
end Inflow
