/-!
# Doubles as exact numbers

The bits of a double say a sign, a mantissa and a power of two. All decimal
text is computed from these in exact arithmetic.
-/

namespace Inflow.Decimal

/-- What a double stands for; a finite one is `± mantissa · 2 ^ exponent`. -/
inductive Double where
  | nan
  | infinite (negative : Bool)
  | finite (negative : Bool) (mantissa : Nat) (exponent : Int)
  deriving DecidableEq, Repr

/-- The mantissa of the smallest normal double. -/
def hiddenBit : Nat := Nat.pow 2 52

/-- The exponent of the smallest doubles. -/
def leastExponent : Int := -1074

def Double.of (x : Float) : Double :=
  let bits := x.toBits.toNat
  let negative := decide (Nat.pow 2 63 ≤ bits)
  let field := bits / Nat.pow 2 52 % Nat.pow 2 11
  let fraction := bits % Nat.pow 2 52
  if field = 2047 then if fraction = 0 then .infinite negative else .nan
  else if field = 0 then .finite negative fraction leastExponent
  else .finite negative (fraction + hiddenBit) (leastExponent + ((field - 1 : Nat) : Int))

/-- A power that is one for exponents below zero. -/
def powerUp (base : Nat) (e : Int) : Nat := Nat.pow base e.toNat

/-- The number of decimal digits of a count. -/
def digitCount (n : Nat) : Nat := (Nat.toDigits 10 n).length

/-- The exponent of the power of ten at or below a positive fraction `m / n`. -/
def magnitude (m n : Nat) : Int :=
  let guess : Int := (digitCount m : Int) - digitCount n
  if powerUp 10 guess * n ≤ m * powerUp 10 (-guess) then guess else guess - 1

end Inflow.Decimal
