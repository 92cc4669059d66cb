import Inflow.Fault
import Inflow.Json.Basic
/-!
# Decoding values and records

How JSON values become numbers, texts, lists and records. A record is written
as an object; it may also be read from an array of its fields in order. In an
object, unknown keys are passed over without a look at their values, and a
known key must not come twice.
-/

namespace Inflow

/-- Why a document does not describe what it should. -/
inductive DecodeError where
  /-- The text is not a document at all. -/
  | notWellFormed
  /-- A value of another form stands where this one should. -/
  | expected (what : String)
  | missing (key : String)
  | repeated (key : String)
  deriving DecidableEq, Repr

def DecodeError.message : DecodeError → String
  | notWellFormed => "the text is not well formed"
  | expected what => s!"expected {what}"
  | missing key => s!"missing field {key}"
  | repeated key => s!"repeated field {key}"

abbrev Decoded := Except DecodeError

namespace Decode

/-- A count that is at most `limit`. -/
def naturalUpTo (limit : Nat) : Json → Decoded Nat
  | .number (.natural n) => if n ≤ limit then .ok n else .error (.expected "a smaller count")
  | _ => .error (.expected "a count")

def natural : Json → Decoded Nat := naturalUpTo Count.limit

/-- A whole number from `-(limit + 1)` to `limit`. -/
def integerUpTo (limit : Nat) : Json → Decoded Int
  | .number (.natural n) => if n ≤ limit then .ok n else .error (.expected "a smaller number")
  | .number (.negative n) =>
    if n ≤ limit + 1 then .ok (-(n : Int)) else .error (.expected "a larger number")
  | _ => .error (.expected "a whole number")

/-- A number that a double stands for. -/
def real : Json → Decoded Float
  | .number n =>
    match n.toFloat? with
    | some x => .ok x
    | none => .error (.expected "a smaller number")
  | _ => .error (.expected "a number")

def boolean : Json → Decoded Bool
  | .bool b => .ok b
  | _ => .error (.expected "true or false")

def text : Json → Decoded String
  | .string (some s) => .ok s
  | _ => .error (.expected "a text")

def list {β : Type} (item : Json → Decoded β) : Json → Decoded (List β)
  | .array items => items.mapM item
  | _ => .error (.expected "an array")

def array {β : Type} (item : Json → Decoded β) (j : Json) : Decoded (Array β) := do
  return (← list item j).toArray

/-- An array of exactly `n` items. -/
def vector {β : Type} (n : Nat) (item : Json → Decoded β) (j : Json) : Decoded (Vector β n) := do
  let items ← array item j
  if h : items.size = n then return ⟨items, h⟩ else throw (.expected s!"{n} items")

/-- Null, or a value. -/
def nullable {β : Type} (item : Json → Decoded β) : Json → Decoded (Option β)
  | .null => .ok none
  | j => do return some (← item j)

/-- One of some names, as a text or as the key of an object with null. -/
def named {β : Type} (names : List (String × β)) : Json → Decoded β
  | .string (some name) | .object [(some name, .null)] =>
    match names.lookup name with
    | some b => .ok b
    | none => .error (.expected "a known name")
  | _ => .error (.expected "a name")

end Decode

/-- The fields found for a record. -/
structure Fields where
  entries : List (String × Json)
  /-- Whether they came as an array, by position. -/
  byPosition : Bool

namespace Fields

/-- The first key that comes again later. -/
def repeatedKey? : List String → Option String
  | [] => none
  | key :: keys => if keys.contains key then some key else repeatedKey? keys

def ofObject (keys : List String) (members : List (Option String × Json)) : Decoded Fields := do
  let named ← members.mapM fun (key, value) =>
    match key with
    | some key => .ok (key, value)
    | none => .error (.expected "a text")
  let known := named.filter fun (key, _) => keys.contains key
  match repeatedKey? (known.map (·.1)) with
  | some key => throw (.repeated key)
  | none => return { entries := known, byPosition := false }

/-- The fields of a record with the given keys. -/
def ofJson (keys : List String) : Json → Decoded Fields
  | .object members => ofObject keys members
  | .array items =>
    if items.length ≤ keys.length then .ok { entries := keys.zip items, byPosition := true }
    else .error (.expected "fewer fields")
  | _ => .error (.expected "a record")

def find? (f : Fields) (key : String) : Option Json := f.entries.lookup key

end Fields

/-! ## Encoding -/

namespace Encode

def list {β : Type} (item : β → Json) (xs : List β) : Json := .array (xs.map item)

def array {β : Type} (item : β → Json) (xs : Array β) : Json := list item xs.toList

def vector {β : Type} {n : Nat} (item : β → Json) (xs : Vector β n) : Json := list item xs.toList

/-- The name of a value in a list of names. -/
def named {β : Type} [BEq β] (names : List (String × β)) (b : β) : Json :=
  match names.find? (·.2 == b) with
  | some (name, _) => .ofString name
  | none => .null

def nullable {β : Type} (item : β → Json) : Option β → Json
  | some b => item b
  | none => .null

end Encode
end Inflow
