import Inflow.Fault
/-!
# Scalars

The numbers that weights, positions and attributes are made of. Everything
computed with them goes through the class `Scalar`: the running program takes
doubles, and statements that read the arithmetic as exact take an exact field.

Comparison is the only structure the derived operations below rely on, so they
also say what happens to values that compare with nothing (not even with
themselves): `larger` and `smaller` pass over such a value.
-/

namespace Inflow

/-- A number type with the operations that releasing particles needs. -/
class Scalar (α : Type) extends Zero α, One α, Add α, Sub α, Mul α, Div α, Neg α, LT α, LE α where
  decLt : DecidableLT α
  decLe : DecidableLE α
  /-- The scalar that stands for a count. -/
  ofNat : Nat → α
  /-- The whole part of a scalar as a count; anything below one is zero. -/
  toIndex : α → Nat
  /-- Comparison that orders every two values, also those that `<` leaves apart. -/
  precedes : α → α → Bool
  /-- The smallest positive scalar of full precision. -/
  tiny : α
  pi : α
  sqrt : α → α
  cbrt : α → α
  log : α → α
  cos : α → α

attribute [reducible, instance] Scalar.decLt Scalar.decLe

/-- The number of bytes of storage for one scalar. -/
def scalarBytes : Nat := 8

namespace Scalar

variable {α : Type} [Scalar α]

/-- Neither side of zero. -/
def isZero (x : α) : Bool := decide (x ≤ 0) && decide (0 ≤ x)

/-- The larger of two values; one that compares with nothing gives way to the other. -/
def larger (x y : α) : α := if x < y then y else if x ≤ x then x else y

/-- The smaller of two values; one that compares with nothing gives way to the other. -/
def smaller (x y : α) : α := if y < x then y else if x ≤ x then x else y

def abs (x : α) : α := if x < 0 then -x else x

def square (x : α) : α := x * x

def cube (x : α) : α := x * (x * x)

/-- The scalar nearest to a quotient of counts. -/
def ratio (m n : Nat) : α := ofNat m / ofNat n

def ofInt (i : Int) : α := if i < 0 then -(ofNat i.natAbs) else ofNat i.natAbs

/-- Whether `lo ≤ x ≤ hi`. -/
def between (lo hi x : α) : Bool := decide (lo ≤ x) && decide (x ≤ hi)

/-- The value of `[lo, hi]` nearest to `x`. -/
def clamp (lo hi x : α) : Checked α :=
  if lo ≤ hi then .ok (if x < lo then lo else if hi < x then hi else x)
  else .error .reversedInterval

/-- The sum of a list from left to right. -/
def sum : List α → α
  | [] => 0
  | x :: xs => xs.foldl (· + ·) x

end Scalar

/-- Position of a double in the order of its bit patterns, negative patterns turned around. -/
def orderKey (x : Float) : Int :=
  let bits := x.toBits.toNat
  if bits < Nat.pow 2 63 then bits else (Nat.pow 2 63 - 1 : Nat) - (bits : Int)

instance : Scalar Float where
  decLt := inferInstance
  decLe := inferInstance
  ofNat := Float.ofNat
  toIndex x := x.toUInt64.toNat
  precedes x y := decide (orderKey x < orderKey y)
  tiny := 2.2250738585072014e-308
  pi := 3.141592653589793
  sqrt := Float.sqrt
  cbrt := Float.cbrt
  log := Float.log
  cos := Float.cos

end Inflow
