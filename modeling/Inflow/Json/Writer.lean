import Inflow.Json.Basic
import Inflow.Decimal.Shortest
/-!
# Writing JSON

Values as text, on one line without blanks (`Json.compact`) or spread over
lines with two blanks per level (`Json.pretty`). What was not kept is written as null.
-/

namespace Inflow.Json

/-- Doubles have a point or an exponent; the exponent begins below `10⁻⁵` and
at `10¹⁶`, and has a sign. -/
def numberLayout : Decimal.Layout where
  least := some (-5)
  beyond := some 16
  wholeMark := ".0"
  exponentMark := "+"
  tie := .toEven

def Number.text : Number → String
  | natural n => Nat.repr n
  | negative n => "-" ++ Nat.repr n
  | real x => if x.isFinite then numberLayout.text x else "null"

/-- A digit of a hexadecimal number. -/
def hexDigit (n : Nat) : Char := Nat.digitChar n

/-- A character in a string literal. Quotes, backslashes and control characters are escaped. -/
def quoteChar (c : Char) : List Char :=
  match c with
  | '"' => ['\\', '"']
  | '\\' => ['\\', '\\']
  | '\x08' => ['\\', 'b']
  | '\x0c' => ['\\', 'f']
  | '\n' => ['\\', 'n']
  | '\r' => ['\\', 'r']
  | '\t' => ['\\', 't']
  | c =>
    if c.toNat < 32 then ['\\', 'u', '0', '0', hexDigit (c.toNat / 16), hexDigit (c.toNat % 16)]
    else [c]

def quote (s : String) : String :=
  "\"" ++ String.ofList (s.toList.flatMap quoteChar) ++ "\""

/-- Lines between brackets, separated by commas; `level` counts the brackets around them. -/
def bracket (opening closing : String) (level : Nat) (lines : List String) : String :=
  let indent := fun n => "\n" ++ String.ofList (List.replicate (2 * n) ' ')
  if lines.isEmpty then opening ++ closing
  else
    opening ++ ",".intercalate (lines.map fun line => indent (level + 1) ++ line)
      ++ indent level ++ closing

mutual

def compact : Json → String
  | null => "null"
  | bool b => if b then "true" else "false"
  | number n => n.text
  | string text => quote (text.getD "")
  | array items => "[" ++ ",".intercalate (compactItems items) ++ "]"
  | object members => "\x7b" ++ ",".intercalate (compactMembers members) ++ "\x7d"
  | tooDeep => "null"

def compactItems : List Json → List String
  | [] => []
  | item :: items => compact item :: compactItems items

def compactMembers : List (Option String × Json) → List String
  | [] => []
  | (key, value) :: members =>
    (quote (key.getD "") ++ ":" ++ compact value) :: compactMembers members

end

mutual

/-- A value inside `level` brackets. -/
def prettyAt (level : Nat) : Json → String
  | null => "null"
  | bool b => if b then "true" else "false"
  | number n => n.text
  | string text => quote (text.getD "")
  | array items => bracket "[" "]" level (prettyItems (level + 1) items)
  | object members => bracket "\x7b" "\x7d" level (prettyMembers (level + 1) members)
  | tooDeep => "null"

def prettyItems (level : Nat) : List Json → List String
  | [] => []
  | item :: items => prettyAt level item :: prettyItems level items

def prettyMembers (level : Nat) : List (Option String × Json) → List String
  | [] => []
  | (key, value) :: members =>
    (quote (key.getD "") ++ ": " ++ prettyAt level value) :: prettyMembers level members

end

def pretty (j : Json) : String := prettyAt 0 j

end Inflow.Json
