import Inflow.Scalar
/-!
# Random streams

A stream turns the words of a generator into uniform values in `[0, 1)` and
normal deviates. Each word counts as one draw: a uniform value takes one, a
normal deviate always two. So the number of draws depends on the calls alone,
never on the values drawn.
-/

namespace Inflow

/-- A source of 64-bit words. -/
class Generator (γ : Type) where
  next : γ → UInt64 × γ

/-- A generator together with the number of words taken from it. -/
structure RandomStream (γ : Type) where
  generator : γ
  draws : Nat := 0

namespace RandomStream

variable {α γ : Type} [Scalar α] [Generator γ]

/-- The upper 53 bits of the next word. -/
def mantissa (s : RandomStream γ) : Nat × RandomStream γ :=
  let (word, generator) := Generator.next s.generator
  ((word >>> 11).toNat, { generator, draws := s.draws + 1 })

/-- The number of mantissas, `2⁵³`, as a product of exact scalars. -/
def mantissaCount : α := Scalar.ofNat (Nat.pow 2 26) * Scalar.ofNat (Nat.pow 2 27)

/-- A value in `[0, 1)`, a multiple of `2⁻⁵³`. -/
def uniform (s : RandomStream γ) : α × RandomStream γ :=
  let (k, s) := s.mantissa
  (Scalar.ofNat k / mantissaCount, s)

/-- A standard normal deviate from two words. The first is moved up by one
unit, so that its logarithm is finite. -/
def normal (s : RandomStream γ) : α × RandomStream γ :=
  let (k₁, s) := s.mantissa
  let (k₂, s) := s.mantissa
  let u₁ : α := Scalar.ofNat (k₁ + 1) / mantissaCount
  let u₂ : α := Scalar.ofNat k₂ / mantissaCount
  let two : α := Scalar.ofNat 2
  (Scalar.sqrt (-two * Scalar.log u₁) * Scalar.cos (two * Scalar.pi * u₂), s)

end RandomStream

/-- A computation that draws from a stream and may stop at a fault; the draws
made before the fault stay drawn. -/
abbrev Drawing (γ : Type) := ExceptT Fault (StateM (RandomStream γ))

namespace Drawing

variable {α γ β : Type} [Scalar α] [Generator γ]

def uniform : Drawing γ α := liftM (modifyGet RandomStream.uniform : StateM (RandomStream γ) α)

def normal : Drawing γ α := liftM (modifyGet RandomStream.normal : StateM (RandomStream γ) α)

/-- Stops at a fault. -/
def check (x : Checked β) : Drawing γ β := ExceptT.mk (pure x)

end Drawing
end Inflow
