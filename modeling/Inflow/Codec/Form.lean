import Inflow.Codec.Record
/-!
# Written forms

A form pairs the way in which values of a type are written with the way in
which they are read. The form of a record is made of columns, each a key and
the form of the value found there. Reading a record starts from a blank and
fills in column after column, so a column that may be left out says with the
blank what holds then.
-/

namespace Inflow

/-- A written form of values of a type. -/
inductive Form : Type → Type 1 where
  | count : Form Nat
  | real : Form Float
  | vector (n : Nat) : Form (Vector Float n)
  | series : Form (Array Float)
  /-- A form given by its writer and its reader. -/
  | other {β : Type} (toJson : β → Json) (ofJson : Json → Decoded β) : Form β

namespace Form

variable {β : Type}

def toJson : Form β → β → Json
  | count => .ofNat
  | real => .ofFloat
  | vector _ => Encode.vector .ofFloat
  | series => Encode.array .ofFloat
  | other toJson _ => toJson

def ofJson : Form β → Json → Decoded β
  | count => Decode.natural
  | real => Decode.real
  | vector n => Decode.vector n Decode.real
  | series => Decode.array Decode.real
  | other _ ofJson => ofJson

def boolean : Form Bool := other .bool Decode.boolean

def text : Form String := other .ofString Decode.text

/-- A whole number from `-(limit + 1)` to `limit`. -/
def integerUpTo (limit : Nat) : Form Int := other .ofInt (Decode.integerUpTo limit)

/-- The bits of a word. -/
def word : Form UInt32 :=
  other (fun w => .ofNat w.toNat) fun j => do
    return .ofNat (← Decode.naturalUpTo (UInt32.size - 1) j)

/-- One of some names. -/
def named [BEq β] (names : List (String × β)) : Form β :=
  other (Encode.named names) (Decode.named names)

def list (item : Form β) : Form (List β) :=
  other (Encode.list item.toJson) (Decode.list item.ofJson)

def array (item : Form β) : Form (Array β) :=
  other (Encode.array item.toJson) (Decode.array item.ofJson)

def vectorOf (n : Nat) (item : Form β) : Form (Vector β n) :=
  other (Encode.vector item.toJson) (Decode.vector n item.ofJson)

/-- Null, or a value. -/
def nullable (item : Form β) : Form (Option β) :=
  other (Encode.nullable item.toJson) (Decode.nullable item.ofJson)

end Form

/-- Whether a record may leave a value out. -/
inductive Presence where
  | required
  /-- It may; the record read then keeps the value of the blank. -/
  | implied
  /-- An object may, an array of fields may not. -/
  | impliedByKey
  deriving DecidableEq, Repr

/-- A value that each record of type `ρ` has, and where it stands when written. -/
structure Column (ρ : Type) where
  key : String
  {β : Type}
  form : Form β
  get : ρ → β
  set : β → ρ → ρ
  presence : Presence := .required
  /-- Records that are written with this value. -/
  isWritten : ρ → Bool := fun _ => true

namespace Column

variable {ρ β : Type}

def required (key : String) (form : Form β) (get : ρ → β) (set : β → ρ → ρ) : Column ρ :=
  { key, form, get, set }

def implied (key : String) (form : Form β) (get : ρ → β) (set : β → ρ → ρ) : Column ρ :=
  { key, form, get, set, presence := .implied }

def impliedByKey (key : String) (form : Form β) (get : ρ → β) (set : β → ρ → ρ) : Column ρ :=
  { key, form, get, set, presence := .impliedByKey }

/-- The value of a record under its key. -/
def toMember (r : ρ) (c : Column ρ) : String × Json := (c.key, c.form.toJson (c.get r))

/-- Fills in the value found under the key. -/
def fill (f : Fields) (r : ρ) (c : Column ρ) : Decoded ρ :=
  match f.find? c.key with
  | some j => do return c.set (← c.form.ofJson j) r
  | none =>
    if c.presence == .implied || (c.presence == .impliedByKey && !f.byPosition) then .ok r
    else .error (.missing c.key)

end Column

/-- A record written as an object, in the order of its columns. -/
def Form.record {ρ : Type} (columns : List (Column ρ)) (blank : ρ) : Form ρ :=
  .other
    (fun r => .ofMembers ((columns.filter (·.isWritten r)).map (Column.toMember r)))
    fun j => do
      let f ← Fields.ofJson (columns.map (·.key)) j
      columns.foldlM (Column.fill f) blank

end Inflow
