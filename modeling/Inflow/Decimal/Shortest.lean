import Inflow.Decimal.Double
/-!
# Shortest decimals

The decimal with the fewest digits that reads back to a given double, and of
those the one nearest to it. A double `mantissa · 2 ^ exponent` owns the
numbers that round to it, from half way to the double below to half way to the
one above, ends included if the mantissa is even. On each grid of decimals,
from one digit to seventeen, only the two neighbours of the double need
testing: if any point of the grid lies in that interval, so does one of them.

`Layout` says how the digits are written down.
-/

namespace Inflow.Decimal

/-- The number `digits · 10 ^ exponent`. -/
structure Digits where
  digits : Nat
  exponent : Int
  deriving DecidableEq, Repr

/-- The number without zeros at the end of its digits. -/
def Digits.trim (fuel : Nat) (d : Digits) : Digits :=
  match fuel with
  | 0 => d
  | n + 1 =>
    if d.digits ≠ 0 ∧ d.digits % 10 = 0 then Digits.trim n ⟨d.digits / 10, d.exponent + 1⟩ else d

/-- Which of two decimals at the same distance is taken. -/
inductive Tie where
  | up
  | toEven
  deriving DecidableEq, Repr

/-- A grid point in the interval of `mantissa · 2 ^ exponent` that is nearest to
it, on the grid of multiples of `10 ^ step`; none if there is no such point. In
quarters of the double's unit, the interval goes from `low` to `high`. -/
def onGrid (tie : Tie) (mantissa : Nat) (exponent step : Int) : Option Nat :=
  let up := powerUp 2 (exponent - 2) * powerUp 10 (-step)
  let down := powerUp 2 (2 - exponent) * powerUp 10 step
  let value := 4 * mantissa * up
  let low := (4 * mantissa - if mantissa = hiddenBit ∧ leastExponent < exponent then 1 else 2) * up
  let high := (4 * mantissa + 2) * up
  let inside := fun d =>
    if mantissa % 2 = 0 then decide (low ≤ d * down ∧ d * down ≤ high)
    else decide (low < d * down ∧ d * down < high)
  let below := value / down
  let above := below + 1
  let toBelow := value - below * down
  let toAbove := above * down - value
  let aboveWins := match tie with
    | .up => decide (toAbove ≤ toBelow)
    | .toEven => decide (toAbove < toBelow ∨ (toAbove = toBelow ∧ above % 2 = 0))
  match inside below, inside above with
  | true, true => some (if aboveWins then above else below)
  | true, false => some below
  | false, true => some above
  | false, false => none

/-- The first grid with a point in the interval, trying `fuel` of them from
`step` downwards, each ten times finer. -/
def firstGrid (tie : Tie) (mantissa : Nat) (exponent : Int) : (fuel : Nat) → (step : Int) → Digits
  | 0, step => ⟨(4 * mantissa * powerUp 2 (exponent - 2) * powerUp 10 (-step))
      / (powerUp 2 (2 - exponent) * powerUp 10 step), step⟩
  | fuel + 1, step =>
    match onGrid tie mantissa exponent step with
    | some d => ⟨d, step⟩
    | none => firstGrid tie mantissa exponent fuel (step - 1)

/-- The shortest decimal of a positive double. -/
def shortest (tie : Tie) (mantissa : Nat) (exponent : Int) : Digits :=
  let first := magnitude (mantissa * powerUp 2 exponent) (powerUp 2 (-exponent))
  (firstGrid tie mantissa exponent 17 first).trim 20

/-- How shortest decimals are written. -/
structure Layout where
  /-- The least power of ten written without an exponent; none if there is no such limit. -/
  least : Option Int
  /-- The first power of ten written with an exponent again. -/
  beyond : Option Int
  /-- What follows a whole number. -/
  wholeMark : String
  /-- What stands before an exponent that is not negative. -/
  exponentMark : String
  tie : Tie

namespace Layout

/-- Whether a number of magnitude `e` is written without an exponent. -/
def isPositional (l : Layout) (e : Int) : Bool :=
  (match l.least with
    | some least => decide (least ≤ e)
    | none => true)
  && (match l.beyond with
    | some beyond => decide (e < beyond)
    | none => true)

def zeros (n : Nat) : String := String.ofList (List.replicate n '0')

/-- The digits with a point after the first `n` of them. -/
def withPoint (digits : List Char) (n : Nat) : String :=
  String.ofList (digits.take n) ++ "." ++ String.ofList (digits.drop n)

/-- A positive number. -/
def positive (l : Layout) (d : Digits) : String :=
  let digits := Nat.toDigits 10 d.digits
  let point : Int := digits.length + d.exponent
  if l.isPositional (point - 1) then
    if point ≤ 0 then "0." ++ zeros (-point).toNat ++ String.ofList digits
    else if digits.length ≤ point.toNat then
      String.ofList digits ++ zeros (point.toNat - digits.length) ++ l.wholeMark
    else withPoint digits point.toNat
  else
    let head := if digits.length = 1 then String.ofList digits else withPoint digits 1
    let e := point - 1
    head ++ "e" ++ (if e < 0 then "-" else l.exponentMark) ++ Nat.repr e.natAbs

/-- The text of a double. -/
def text (l : Layout) (x : Float) : String :=
  match Double.of x with
  | .nan => "NaN"
  | .infinite negative => if negative then "-inf" else "inf"
  | .finite negative mantissa exponent =>
    (if negative then "-" else "")
      ++ if mantissa = 0 then "0" ++ l.wholeMark else l.positive (shortest l.tie mantissa exponent)

end Layout
end Inflow.Decimal
