import Inflow.Ranks.Program
/-!
# Ranks as threads

The ranks of a group may be threads of one process. They share two tables with
one slot for each rank, each behind a lock, and one barrier. In a collective a
rank writes its contribution, arrives at the barrier, and leaves it once all
ranks have arrived; then it reads the slots, and arrives at the barrier and leaves
it once more, so that no slot is overwritten before every rank has read it.

Each of these is one step: a lock is held for all of a write or a read, and the
barrier counts one arrival at a time. Between its steps a rank does not see what
the others do, and any rank that is not held up at the barrier may be the next to
take its step.
-/

namespace Inflow

namespace Collective

variable {α : Type}

/-- The reply to a rank on its own, which needs no slots: its own contribution. -/
def serial : (c : Collective) → c.Contribution α → c.Reply α
  | gather, value => some [(value : α)]
  | scatter, counts => ((counts : Option (List Nat)).bind (·.head?)).getD 0
  | any, flag => (flag : Bool)
  | sumCounts, count => (.ok count : Checked Nat)
  | sumScalars, value => (value : α)

end Collective

namespace Threads

variable {α β : Type} {n : Nat}

/-! ## What the threads share -/

/-- The tables, with one slot for each rank. -/
structure Slots (α : Type) (n : Nat) where
  reals : Vector α n
  counts : Vector Nat n

namespace Slots

variable [Scalar α]

def blank : Slots α n where
  reals := Vector.replicate n 0
  counts := Vector.replicate n 0

/-- Brings a rank's contribution into the slots. Only the coordinator writes what
is scattered: an entry for each rank, zero where its list has none. -/
def write (slots : Slots α n) (i : Fin n) : (c : Collective) → c.Contribution α → Slots α n
  | .gather, value => { slots with reals := slots.reals.set i (value : α) i.isLt }
  | .scatter, list =>
    if i.val = 0 then
      { slots with counts := Vector.ofFn fun k => ((list : Option (List Nat)).bind (·[k.val]?)).getD 0 }
    else slots
  | .any, flag => { slots with counts := slots.counts.set i (Bool.toNat flag) i.isLt }
  | .sumCounts, count => { slots with counts := slots.counts.set i (count : Nat) i.isLt }
  | .sumScalars, value => { slots with reals := slots.reals.set i (value : α) i.isLt }

/-- The sum of a list from left to right, beginning with minus zero. -/
def total (values : List α) : α := values.foldl (· + ·) (-0)

/-- What a rank makes of the slots. -/
def read (slots : Slots α n) (i : Fin n) : (c : Collective) → c.Reply α
  | .gather => if i.val = 0 then some slots.reals.toList else none
  | .scatter => slots.counts.get i
  | .any => slots.counts.toList.any (· != 0)
  | .sumCounts => Count.sum slots.counts.toList
  | .sumScalars => (total slots.reals.toList : α)

end Slots

/-- A barrier that is used again and again. -/
structure Barrier where
  /-- The number of ranks that wait for the others. -/
  waiting : Nat := 0
  /-- How often the barrier has opened. -/
  generation : Nat := 0
  deriving DecidableEq, Repr

/-- One of `n` ranks arrives. The last one opens the barrier; any other has to
wait until the generation it came in is over. -/
def Barrier.arrive (n : Nat) (b : Barrier) : Barrier × Option Nat :=
  if b.waiting + 1 < n then ({ b with waiting := b.waiting + 1 }, some b.generation)
  else ({ waiting := 0, generation := b.generation + 1 }, none)

/-! ## Threads -/

/-- How far a rank has come: with its program, or within a collective after which
it goes on with `next`. -/
inductive Stage (α β : Type) where
  | ready (p : Program α β)
  | wrote (c : Collective) (next : c.Reply α → Program α β)
  /-- At the barrier before the slots are read, since the given generation. -/
  | awaiting (c : Collective) (next : c.Reply α → Program α β) (generation : Nat)
  | entered (c : Collective) (next : c.Reply α → Program α β)
  | read (c : Collective) (next : c.Reply α → Program α β) (reply : c.Reply α)
  /-- At the barrier after the slots are read, since the given generation. -/
  | parting (c : Collective) (next : c.Reply α → Program α β) (reply : c.Reply α) (generation : Nat)

def Stage.isDone : Stage α β → Bool
  | .ready (.done _) => true
  | _ => false

theorem Stage.isDone_iff {stage : Stage α β} : stage.isDone = true ↔ ∃ b, stage = .ready (.done b) := by
  constructor
  · intro h
    unfold isDone at h
    split at h
    · exact ⟨_, rfl⟩
    · cases h
  · rintro ⟨b, rfl⟩
    rfl

/-- A collective, and what it returned to a rank. -/
abbrev Returned (α : Type) := (c : Collective) × c.Reply α

structure Rank (α β : Type) where
  stage : Stage α β
  /-- All that collectives have returned so far. -/
  returned : List (Returned α) := []

/-- The collective returns, and the program goes on. -/
def Rank.leave (r : Rank α β) (c : Collective) (next : c.Reply α → Program α β) (reply : c.Reply α) : Rank α β where
  stage := .ready (next reply)
  returned := r.returned ++ [⟨c, reply⟩]

structure State (α β : Type) (n : Nat) where
  slots : Slots α n
  barrier : Barrier
  ranks : Vector (Rank α β) n

namespace State

variable [Scalar α]

/-- The threads of a group before their first step. -/
def start (ps : Fin n → Program α β) : State α β n where
  slots := .blank
  barrier := {}
  ranks := Vector.ofFn fun i => { stage := .ready (ps i) }

def put (s : State α β n) (i : Fin n) (r : Rank α β) : State α β n := { s with ranks := s.ranks.set i r i.isLt }

/-- The next step of a rank; none if its program is done or the barrier holds it up. -/
def step (s : State α β n) (i : Fin n) : Option (State α β n) :=
  let r := s.ranks.get i
  match r.stage with
  | .ready (.done _) => none
  | .ready (.call c x next) =>
    some ({ s with slots := s.slots.write i c x }.put i { r with stage := .wrote c next })
  | .wrote c next =>
    match s.barrier.arrive n with
    | (barrier, some generation) => some ({ s with barrier }.put i { r with stage := .awaiting c next generation })
    | (barrier, none) => some ({ s with barrier }.put i { r with stage := .entered c next })
  | .awaiting c next generation =>
    if s.barrier.generation = generation then none else some (s.put i { r with stage := .entered c next })
  | .entered c next => some (s.put i { r with stage := .read c next (s.slots.read i c) })
  | .read c next reply =>
    match s.barrier.arrive n with
    | (barrier, some generation) => some ({ s with barrier }.put i { r with stage := .parting c next reply generation })
    | (barrier, none) => some ({ s with barrier }.put i (r.leave c next reply))
  | .parting c next reply generation =>
    if s.barrier.generation = generation then none else some (s.put i (r.leave c next reply))

/-- The ranks take their steps in this order. -/
def run (s : State α β n) : List (Fin n) → Option (State α β n)
  | [] => some s
  | i :: schedule => (s.step i).bind fun t => t.run schedule

omit [Scalar α]

/-- All programs are done. -/
def Finished (s : State α β n) : Prop := ∀ i : Fin n, ∃ b, (s.ranks.get i).stage = .ready (.done b)

instance (s : State α β n) : Decidable s.Finished :=
  decidable_of_iff (∀ i : Fin n, (s.ranks.get i).stage.isDone = true) (forall_congr' fun _ => Stage.isDone_iff)

end State
end Threads
end Inflow
