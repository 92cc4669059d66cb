import Inflow.Decimal.Shortest
/-!
# Rounded decimals

Doubles with a given number of places after the point, rounded from the exact
value; half a unit goes to the even neighbour.
-/

namespace Inflow.Decimal

/-- The natural number nearest to `m / n`, the even one of two. -/
def roundDiv (m n : Nat) : Nat :=
  let q := m / n
  let twice := 2 * (m % n)
  if twice < n then q
  else if n < twice then q + 1
  else if q % 2 = 0 then q else q + 1

/-- `mantissa · 2 ^ exponent` in units of `10 ^ step`, rounded. -/
def roundTo (mantissa : Nat) (exponent step : Int) : Nat :=
  roundDiv (mantissa * powerUp 2 exponent * powerUp 10 (-step))
    (powerUp 2 (-exponent) * powerUp 10 step)

/-- The digits of `n` with zeros before them, up to a width. -/
def padded (width n : Nat) : List Char :=
  let digits := Nat.toDigits 10 n
  List.replicate (width - digits.length) '0' ++ digits

/-- Digits of which the last `places` stand after the point. -/
def pointed (places : Nat) (digits : List Char) : String :=
  if places = 0 then String.ofList digits
  else Layout.withPoint digits (digits.length - places)

/-- The text of a double: what `f` makes of the absolute value of a finite one, with its sign. -/
def signed (x : Float) (f : Nat → Int → String) : String :=
  match Double.of x with
  | .nan => "NaN"
  | .infinite negative => if negative then "-inf" else "inf"
  | .finite negative mantissa exponent => (if negative then "-" else "") ++ f mantissa exponent

/-- A double with `places` digits after the point. -/
def fixed (places : Nat) (x : Float) : String :=
  signed x fun mantissa exponent =>
    pointed places (padded (places + 1) (roundTo mantissa exponent (-(places : Int))))

/-- A double with one digit before the point, `places` after it, and an exponent. -/
def scientific (places : Nat) (x : Float) : String :=
  signed x fun mantissa exponent =>
    if mantissa = 0 then pointed places (padded (places + 1) 0) ++ "e0"
    else
      let e := magnitude (mantissa * powerUp 2 exponent) (powerUp 2 (-exponent))
      let n := roundTo mantissa exponent (e - places)
      let (n, e) := if n = Nat.pow 10 (places + 1) then (Nat.pow 10 places, e + 1) else (n, e)
      pointed places (Nat.toDigits 10 n) ++ "e" ++ (if e < 0 then "-" else "") ++ Nat.repr e.natAbs

end Inflow.Decimal
