/-!
# Particle and event flags

Sets of marks, kept as the bits of a word.
-/

namespace Inflow

/-- The marks on a particle. -/
structure ParticleFlags where
  bits : UInt32 := 0
  deriving DecidableEq, Repr

namespace ParticleFlags

def empty : ParticleFlags := {}
/-- To be removed from the population. -/
def toDelete : ParticleFlags := ⟨1⟩
/-- Does not move. -/
def fixed : ParticleFlags := ⟨2⟩
/-- Deposited on a wall. -/
def deposited : ParticleFlags := ⟨4⟩
/-- Rolls along the wall it is deposited on. -/
def rolling : ParticleFlags := ⟨8⟩
/-- Moves in an imposed way. -/
def imposedMotion : ParticleFlags := ⟨16⟩

/-- The marks by name. -/
def names : List (String × ParticleFlags) :=
  [("TO_DELETE", toDelete), ("FIXED", fixed), ("DEPOSITED", deposited), ("ROLLING", rolling),
    ("IMPOSED_MOTION", imposedMotion)]

/-- Whether every mark of `g` is among those of `f`. -/
def contains (f g : ParticleFlags) : Bool := f.bits &&& g.bits == g.bits

def insert (f g : ParticleFlags) : ParticleFlags := ⟨f.bits ||| g.bits⟩

def remove (f g : ParticleFlags) : ParticleFlags := ⟨f.bits &&& ~~~g.bits⟩

def isEmpty (f : ParticleFlags) : Bool := f.bits == 0

end ParticleFlags

/-- The marks on a tracking event. -/
structure EventFlags where
  bits : UInt32 := 0
  deriving DecidableEq, Repr

namespace EventFlags

def empty : EventFlags := {}
def inflow : EventFlags := ⟨1⟩
def outflow : EventFlags := ⟨2⟩
def rebound : EventFlags := ⟨4⟩
def deposited : EventFlags := ⟨8⟩
def resuspended : EventFlags := ⟨16⟩

/-- The marks by name. -/
def names : List (String × EventFlags) :=
  [("INFLOW", inflow), ("OUTFLOW", outflow), ("REBOUND", rebound), ("DEPOSITED", deposited),
    ("RESUSPENDED", resuspended)]

/-- Whether every mark of `g` is among those of `f`. -/
def contains (f g : EventFlags) : Bool := f.bits &&& g.bits == g.bits

def insert (f g : EventFlags) : EventFlags := ⟨f.bits ||| g.bits⟩

end EventFlags
end Inflow
