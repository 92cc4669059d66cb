/-!
# Faults and counts

A run can stop for a reason that is no answer about the particles: a table is
read past its end, a count leaves the range it is stored in, an interval is
turned around. Such a stop is a `Fault`. It is a value like any other, so a
computation that may stop says so in its type.

Counts are natural numbers up to `Count.limit`; sums and products that leave
the range are faults.
-/

namespace Inflow

/-- Why a run stopped short. -/
inductive Fault where
  /-- A table was read past its end. -/
  | outOfRange
  /-- A count left the range `0 … Count.limit`. -/
  | overflow
  /-- Two tables that go together differ in length. -/
  | lengthMismatch
  /-- A search in a table without entries. -/
  | emptyTable
  /-- An interval whose lower end is not at most its upper end. -/
  | reversedInterval
  /-- A table walked with steps of length zero. -/
  | zeroStride
  /-- More storage asked for than any table may have. -/
  | tooLarge
  deriving DecidableEq, Repr

/-- A value, or the fault that kept it from being computed. -/
abbrev Checked := Except Fault

/-- The entry at index `i`. -/
def fetch {β : Type} (xs : Array β) (i : Nat) : Checked β :=
  match xs[i]? with
  | some x => .ok x
  | none => .error .outOfRange

/-- A state together with the fault, if any, at which its last change stopped
halfway: what was changed before the fault stays changed. -/
structure Attempt (σ : Type) where
  state : σ
  fault : Option Fault := none

namespace Count

/-- The largest count. -/
def limit : Nat := Nat.pow 2 64 - 1

/-- The largest number of bytes a table may take. -/
def byteLimit : Nat := Nat.pow 2 63 - 1

/-- The largest number of bytes that memory is given out for at once. -/
def memoryLimit : Nat := Nat.pow 2 35

/-- Storage for `n` entries of a number of bytes, if it can exist. -/
def store (n bytes : Nat) : Checked Unit :=
  if n * bytes ≤ byteLimit then .ok () else .error .tooLarge

def checked (n : Nat) : Checked Nat :=
  if n ≤ limit then .ok n else .error .overflow

def add (m n : Nat) : Checked Nat := checked (m + n)

def mul (m n : Nat) : Checked Nat := checked (m * n)

/-- The sum of a list, whatever its size. -/
def total (ns : List Nat) : Nat := ns.foldl (· + ·) 0

/-- The sum of a list; some partial sum leaves the range exactly if the whole
sum does. -/
def sum (ns : List Nat) : Checked Nat := checked (total ns)

/-- Addition that stays at the limit instead of leaving the range. -/
def addUpTo (m n : Nat) : Nat := min (m + n) limit

/-- Subtraction that must not go below zero. -/
def sub (m n : Nat) : Checked Nat :=
  if n ≤ m then .ok (m - n) else .error .overflow

end Count
end Inflow
