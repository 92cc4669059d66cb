import Inflow.Ranks.Program
/-!
# Groups

The programs of a group run in step: all ranks stand before the same
collective, get its answer and go on. If the ranks stand before different
collectives, or some are done while others wait, the group is stuck and has no
results. `Program.alone` runs a single program as a group of its own.
-/

namespace Inflow

namespace Program

variable {α β : Type}

/-- The result of a program that is done. -/
def result? : Program α β → Option β
  | done b => some b
  | call .. => none

/-- What a program that stands before collective `c` brings, and how it goes on. -/
def before? (c : Collective) : Program α β → Option (c.Contribution α × (c.Reply α → Program α β))
  | done _ => none
  | call c' x next => if h : c' = c then some (h ▸ (x, next)) else none

variable [Scalar α]

/-- Runs a program as a group of one. -/
def alone : Program α β → β
  | done b => b
  | call c x next => alone (next (c.answer [x] 0))

/-- Runs rank 0 together with the other ranks of its group. -/
def together : Program α β → List (Program α β) → Option (List β)
  | done b, others => (others.mapM result?).map (b :: ·)
  | call c x next, others =>
    match others.mapM (before? c) with
    | none => none
    | some waiting =>
      let contributions := x :: waiting.map (·.1)
      together (next (c.answer contributions 0))
        (waiting.mapIdx fun i w => w.2 (c.answer contributions (i + 1)))

end Program

/-- The results of the ranks of a group, in rank order; none if the group gets stuck. -/
def Group.run {α β : Type} [Scalar α] : List (Program α β) → Option (List β)
  | [] => some []
  | p :: others => p.together others

/-- The seats of a group of `n` ranks; there is always at least one. -/
def Group.seats (n : Nat) : List Seat :=
  (List.range (max n 1)).map fun rank => { rank, size := max n 1 }

end Inflow
