import Inflow.Json.Basic
/-!
# Reading JSON

`Json.parse` reads a document: one value, with blanks around it and nothing
else. The grammar is the strict one. Literals that stand for nothing are kept as
such (see `Json`), and so are arrays and objects that are nested too deeply, so that
parts of a document that nobody looks at may hold them.
-/

namespace Inflow.Json

/-- A blank between tokens. -/
def isBlank (c : Char) : Bool := c == ' ' || c == '\n' || c == '\t' || c == '\r'

def skipBlanks (cs : List Char) : List Char := cs.dropWhile isBlank

/-! ## Strings -/

/-- A character of a string literal, or a 16-bit unit written as an escape. -/
inductive Piece where
  | char (c : Char)
  | unit (u : Nat)

def hexValue (c : Char) : Option Nat :=
  if c.isDigit then some (c.toNat - '0'.toNat)
  else if 'a' ≤ c ∧ c ≤ 'f' then some (c.toNat - 'a'.toNat + 10)
  else if 'A' ≤ c ∧ c ≤ 'F' then some (c.toNat - 'A'.toNat + 10)
  else none

/-- The unit that four hexadecimal digits say. -/
def hexUnit (a b c d : Char) : Option Nat := do
  return (((← hexValue a) * 16 + (← hexValue b)) * 16 + (← hexValue c)) * 16 + (← hexValue d)

/-- The character that a one-letter escape stands for. -/
def escaped : Char → Option Char
  | '"' => some '"'
  | '\\' => some '\\'
  | '/' => some '/'
  | 'b' => some '\x08'
  | 'f' => some '\x0c'
  | 'n' => some '\n'
  | 'r' => some '\r'
  | 't' => some '\t'
  | _ => none

/-- The pieces of a string literal up to its closing quote, and what follows it.
Control characters must be escaped. -/
def pieces (before : List Piece) : List Char → Option (List Piece × List Char)
  | [] => none
  | '"' :: rest => some (before.reverse, rest)
  | '\\' :: 'u' :: a :: b :: c :: d :: rest =>
    match hexUnit a b c d with
    | some u => pieces (.unit u :: before) rest
    | none => none
  | '\\' :: e :: rest =>
    match escaped e with
    | some c => pieces (.char c :: before) rest
    | none => none
  | c :: rest => if c.toNat < 32 then none else pieces (.char c :: before) rest

def isLeading (u : Nat) : Bool := decide (0xD800 ≤ u) && decide (u < 0xDC00)

def isTrailing (u : Nat) : Bool := decide (0xDC00 ≤ u) && decide (u < 0xE000)

/-- Joins surrogate pairs; none if half a pair is left. -/
def joinPieces (before : List Char) : List Piece → Option (List Char)
  | [] => some before.reverse
  | .char c :: rest => joinPieces (c :: before) rest
  | .unit u :: .unit v :: rest =>
    if isLeading u && isTrailing v then
      joinPieces (Char.ofNat (0x10000 + (u - 0xD800) * 0x400 + (v - 0xDC00)) :: before) rest
    else if isLeading u || isTrailing u then none
    else joinPieces (Char.ofNat u :: before) (.unit v :: rest)
  | .unit u :: rest =>
    if isLeading u || isTrailing u then none else joinPieces (Char.ofNat u :: before) rest

/-- The rest of a string literal after its opening quote. -/
def stringRest (cs : List Char) : Option (Option String × List Char) := do
  let (ps, rest) ← pieces [] cs
  return ((joinPieces [] ps).map String.ofList, rest)

/-! ## Numbers -/

/-- The digits at the beginning, and what follows them. -/
def takeDigits (cs : List Char) : List Char × List Char :=
  (cs.takeWhile Char.isDigit, cs.dropWhile Char.isDigit)

def digitsValue (digits : List Char) : Nat :=
  digits.foldl (fun n c => n * 10 + (c.toNat - '0'.toNat)) 0

/-- Appends digits to a whole number for as long as it fits 64 bits. Also says
which digits are left. -/
def appendDigits (n : Nat) : List Char → Nat × List Char
  | [] => (n, [])
  | c :: cs =>
    let next := n * 10 + (c.toNat - '0'.toNat)
    if next < Nat.pow 2 64 then appendDigits next cs else (n, c :: cs)

/-- The largest power of ten that is a double has this exponent. -/
def maxExponent : Nat := 308

/-- The double nearest to `10 ^ n`. -/
def powerOfTen (n : Nat) : Float := Float.ofScientific 1 false n

/-- Divides by `10 ^ n`, in steps where that is no double. -/
def scaleDown (x : Float) (n : Nat) : Float :=
  if n ≤ maxExponent then x / powerOfTen n
  else if x == 0 then x
  else scaleDown (x / powerOfTen maxExponent) (n - maxExponent)
termination_by n
decreasing_by simp only [maxExponent] at *; omega

/-- Multiplies by `10 ^ n`. -/
def scaleUp (x : Float) (n : Nat) : Float :=
  if n ≤ maxExponent then x * powerOfTen n else if x == 0 then x else 1.0 / 0.0

/-- The number of a literal with the given digits before and after the point:
the double nearest to the digits that 64 bits hold, scaled by the power of ten
that is left. Each of the two steps rounds on its own. -/
def decimalValue (before after : List Char) (exponent : Int) : Float :=
  let (n, dropped) := appendDigits 0 before
  let (n, unread) := appendDigits n after
  let scale := exponent + dropped.length - (after.length - unread.length : Nat)
  if 0 ≤ scale then scaleUp (Float.ofNat n) scale.toNat
  else scaleDown (Float.ofNat n) scale.natAbs

/-- The number of a literal from its sign, digits before and after the point,
and exponent; `whole` says that it has neither point nor exponent. -/
def numberOf (negative whole : Bool) (before after : List Char) (exponent : Int) : Number :=
  match appendDigits 0 before with
  | (n, []) =>
    if whole && !negative then .natural n
    else if whole && decide (0 < n) && decide (n ≤ Nat.pow 2 63) then .negative n
    else .real (signed (decimalValue before after exponent))
  | _ => .real (signed (decimalValue before after exponent))
where
  signed (x : Float) : Float := if negative then -x else x

/-- The digits after a point, if one comes next. -/
def fractionPart : List Char → Option (List Char × List Char)
  | '.' :: cs =>
    let (digits, rest) := takeDigits cs
    if digits.isEmpty then none else some (digits, rest)
  | cs => some ([], cs)

def exponentDigits (negative : Bool) (cs : List Char) : Option (Option Int × List Char) :=
  let (digits, rest) := takeDigits cs
  if digits.isEmpty then none
  else
    let n : Int := digitsValue digits
    some (some (if negative then -n else n), rest)

/-- The exponent, if one comes next. -/
def exponentPart : List Char → Option (Option Int × List Char)
  | e :: cs =>
    if e == 'e' || e == 'E' then
      match cs with
      | '+' :: cs => exponentDigits false cs
      | '-' :: cs => exponentDigits true cs
      | cs => exponentDigits false cs
    else some (none, e :: cs)
  | [] => some (none, [])

/-- A number literal after its sign. No zero stands before other digits. -/
def unsignedNumber (negative : Bool) (cs : List Char) : Option (Json × List Char) := do
  let (before, rest) := takeDigits cs
  if before.isEmpty || (before.head? == some '0' && before.length != 1) then failure
  let (after, rest) ← fractionPart rest
  let (exponent, rest) ← exponentPart rest
  let whole := after.isEmpty && exponent.isNone
  return (.number (numberOf negative whole before after (exponent.getD 0)), rest)

def numberLiteral : List Char → Option (Json × List Char)
  | '-' :: cs => unsignedNumber true cs
  | cs => unsignedNumber false cs

/-! ## Values -/

/-- As many arrays and objects may be nested in each other. -/
def maxDepth : Nat := 127

/-- An array or object that has `depth` others around it, if it is kept. -/
def nested (depth : Nat) (j : Json) : Json := if depth < maxDepth then j else .tooDeep

mutual

/-- A value at the beginning of the text that has `depth` arrays and objects
around it, and what follows it. Each level of nesting and each item uses one
unit of `fuel`. -/
def value (depth : Nat) : (fuel : Nat) → List Char → Option (Json × List Char)
  | 0, _ => none
  | fuel + 1, cs =>
    match skipBlanks cs with
    | 'n' :: 'u' :: 'l' :: 'l' :: rest => some (.null, rest)
    | 't' :: 'r' :: 'u' :: 'e' :: rest => some (.bool true, rest)
    | 'f' :: 'a' :: 'l' :: 's' :: 'e' :: rest => some (.bool false, rest)
    | '"' :: rest =>
      match stringRest rest with
      | some (text, rest) => some (.string text, rest)
      | none => none
    | '[' :: rest =>
      match skipBlanks rest with
      | ']' :: rest => some (nested depth (.array []), rest)
      | rest => items depth fuel [] rest
    | '\x7b' :: rest =>
      match skipBlanks rest with
      | '\x7d' :: rest => some (nested depth (.object []), rest)
      | rest => members depth fuel [] rest
    | rest => numberLiteral rest

/-- The items from the next one on of an array with `depth` others around it;
`before` holds those read, the last one first. -/
def items (depth : Nat) :
    (fuel : Nat) → (before : List Json) → List Char → Option (Json × List Char)
  | 0, _, _ => none
  | fuel + 1, before, cs =>
    match value (depth + 1) fuel cs with
    | none => none
    | some (item, rest) =>
      match skipBlanks rest with
      | ',' :: rest => items depth fuel (item :: before) rest
      | ']' :: rest => some (nested depth (.array (item :: before).reverse), rest)
      | _ => none

/-- The members from the next one on of an object with `depth` others around it. -/
def members (depth : Nat) : (fuel : Nat) → (before : List (Option String × Json)) → List Char →
    Option (Json × List Char)
  | 0, _, _ => none
  | fuel + 1, before, cs =>
    match skipBlanks cs with
    | '"' :: rest =>
      match stringRest rest with
      | none => none
      | some (key, rest) =>
        match skipBlanks rest with
        | ':' :: rest =>
          match value (depth + 1) fuel rest with
          | none => none
          | some (v, rest) =>
            match skipBlanks rest with
            | ',' :: rest => members depth fuel ((key, v) :: before) rest
            | '\x7d' :: rest =>
              some (nested depth (.object ((key, v) :: before).reverse), rest)
            | _ => none
        | _ => none
    | _ => none

end

/-- Reads a document; none if it is not well formed. -/
def parse (text : String) : Option Json :=
  let cs := text.toList
  match value 0 (cs.length + 1) cs with
  | some (v, rest) => if (skipBlanks rest).isEmpty then some v else none
  | none => none

end Inflow.Json
