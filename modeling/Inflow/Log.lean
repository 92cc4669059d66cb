import Inflow.Zone
/-!
# Log messages

What a rank says while it works, as values; `Message.text` is the wording.
-/

namespace Inflow

inductive Level where
  | debug
  | info
  | warn
  deriving DecidableEq, Repr

def Level.name : Level → String
  | debug => "DEBUG"
  | info => "INFO"
  | warn => "WARN"

inductive Message where
  /-- Draws beyond the total weight of the ranks. -/
  | rankDrawsClamped (draws : Nat)
  /-- The number of particles that each rank gets. -/
  | apportioned (requested : Nat) (counts : List Nat)
  /-- Particles meant for elements without weight. -/
  | noWeight (particles : Nat)
  /-- Draws beyond the total weight of the elements. -/
  | elementDrawsClamped (draws : Nat)
  /-- The particles of a set that this rank releases. -/
  | setShare (kind : ZoneKind) (zone set count requested rank : Nat)
  /-- Moved particles that are in no cell of this rank. -/
  | notLocated (kind : ZoneKind) (zone set count : Nat)
  /-- A step left out because of the ceiling. -/
  | ceilingReached (step current projected ceiling : Nat)
  /-- A step that was carried out. -/
  | stepDone (step released here rank failed total : Nat)
  deriving DecidableEq, Repr

namespace Message

def level : Message → Level
  | apportioned .. | setShare .. => .debug
  | stepDone .. => .info
  | rankDrawsClamped .. | noWeight .. | elementDrawsClamped .. | notLocated ..
  | ceilingReached .. => .warn

/-- A list of counts in brackets. -/
def countsText (counts : List Nat) : String :=
  "[" ++ ", ".intercalate (counts.map Nat.repr) ++ "]"

def text : Message → String
  | rankDrawsClamped draws =>
    s!"Rank allocation clamped {draws} draws beyond the cumulative weight total"
  | apportioned requested counts =>
    s!"Rank allocation of {requested} particles: {countsText counts}"
  | noWeight particles =>
    s!"{particles} particles assigned to a zone part with zero total weight; none injected"
  | elementDrawsClamped draws =>
    s!"Element distribution clamped {draws} draws beyond the cumulative weight total"
  | setShare kind zone set count requested rank =>
    s!"Lagrangian {kind.name} zone {zone}, set {set}: {count} of {requested} particles on rank {rank}"
  | notLocated kind zone set count =>
    s!"Lagrangian {kind.name} zone {zone}, set {set}: {count} particles could not be located after coordinate modification"
  | ceilingReached step current projected ceiling =>
    s!"Injecting particles at time step {step} would increase the number of particles in the domain from {current} to {projected}, exceeding the maximum {ceiling}; no particles injected"
  | stepDone step released here rank failed total =>
    s!"Time step {step}: injected {released} particles ({here} on rank {rank}), {failed} failed, total {total}"

/-- The message as a line of a log. -/
def line (m : Message) : String := m.level.name ++ " " ++ m.text

end Message
end Inflow
