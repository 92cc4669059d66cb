/-!
# JSON values

Values as a document holds them: members of an object keep their order and may
repeat a key, whole numbers and other numbers are told apart, and a string
literal whose escapes leave half of a surrogate pair stands for no text. Arrays and
objects are kept down to a depth of nesting.
-/

namespace Inflow

/-- A number as its literal says it: whole numbers that fit 64 bits, and doubles. -/
inductive Json.Number where
  | natural (n : Nat)
  /-- The number `-n`, with `n` positive. -/
  | negative (n : Nat)
  /-- Any other number; one too large for a double is infinite here. -/
  | real (x : Float)

inductive Json where
  | null
  | bool (b : Bool)
  | number (n : Json.Number)
  /-- The text of a string literal, if it stands for one. -/
  | string (text : Option String)
  | array (items : List Json)
  | object (members : List (Option String × Json))
  /-- An array or object with too many others around it. -/
  | tooDeep

namespace Json

def ofNat (n : Nat) : Json := .number (.natural n)

def ofInt (i : Int) : Json := .number (if i < 0 then .negative i.natAbs else .natural i.natAbs)

/-- A double; those that no literal stands for become null. -/
def ofFloat (x : Float) : Json := if x.isFinite then .number (.real x) else .null

def ofString (s : String) : Json := .string (some s)

/-- An object with the given members. -/
def ofMembers (members : List (String × Json)) : Json :=
  .object (members.map fun (key, value) => (some key, value))

/-- The value of a number as a double; none if it is too large. -/
def Number.toFloat? : Number → Option Float
  | natural n => some (Float.ofNat n)
  | negative n => some (-(Float.ofNat n))
  | real x => if x.isFinite then some x else none

mutual

/-- Whether every literal in a value stands for something: texts without half
pairs, numbers within the range of a double, and nothing is nested too deeply. -/
def isReadable : Json → Bool
  | null => true
  | bool _ => true
  | number n => n.toFloat?.isSome
  | string text => text.isSome
  | array items => areReadable items
  | object members => membersReadable members
  | tooDeep => false

def areReadable : List Json → Bool
  | [] => true
  | item :: items => isReadable item && areReadable items

def membersReadable : List (Option String × Json) → Bool
  | [] => true
  | (key, value) :: members => key.isSome && isReadable value && membersReadable members

end

end Json
end Inflow
