import Inflow.Random.Stream
/-!
# The ChaCha generator

The words behind the random streams: the ChaCha block function with six double
rounds, keyed from a 64-bit seed and counting blocks from zero. A block is a
square of sixteen 32-bit words, which gives eight 64-bit ones, low half first.
-/

namespace Inflow.ChaCha

@[inline] def rotateLeft (x n : UInt32) : UInt32 := (x <<< n) ||| (x >>> (32 - n))

@[inline] def rotateRight (x n : UInt32) : UInt32 := (x >>> n) ||| (x <<< (32 - n))

/-- Four words side by side. -/
structure Row where
  a : UInt32
  b : UInt32
  c : UInt32
  d : UInt32
  deriving DecidableEq, Repr

namespace Row

@[inline] def add (r s : Row) : Row := ⟨r.a + s.a, r.b + s.b, r.c + s.c, r.d + s.d⟩

/-- The words of two rows, combined and turned to the left by `n` places. -/
@[inline] def xorTurn (r s : Row) (n : UInt32) : Row :=
  ⟨rotateLeft (r.a ^^^ s.a) n, rotateLeft (r.b ^^^ s.b) n, rotateLeft (r.c ^^^ s.c) n,
    rotateLeft (r.d ^^^ s.d) n⟩

/-- The row that begins with the second word and ends with the first. -/
@[inline] def shift (r : Row) : Row := ⟨r.b, r.c, r.d, r.a⟩

/-- Neighbouring words joined, the first one low. -/
def joined (r : Row) : List UInt64 :=
  [r.a.toUInt64 ||| (r.b.toUInt64 <<< 32), r.c.toUInt64 ||| (r.d.toUInt64 <<< 32)]

end Row

/-- A square of words. -/
structure Block where
  first : Row
  second : Row
  third : Row
  fourth : Row
  deriving DecidableEq, Repr

namespace Block

@[inline] def add (s t : Block) : Block :=
  ⟨s.first.add t.first, s.second.add t.second, s.third.add t.third, s.fourth.add t.fourth⟩

/-- Half of a quarter round in all columns. -/
@[inline] def mix (s : Block) (m n : UInt32) : Block :=
  let first := s.first.add s.second
  let fourth := s.fourth.xorTurn first m
  let third := s.third.add fourth
  ⟨first, s.second.xorTurn third n, third, fourth⟩

/-- A quarter round in each column. -/
@[inline] def columnRound (s : Block) : Block := (s.mix 16 12).mix 8 7

/-- Makes columns of the diagonals that go down to the right. -/
@[inline] def skew (s : Block) : Block :=
  ⟨s.first, s.second.shift, s.third.shift.shift, s.fourth.shift.shift.shift⟩

/-- Makes diagonals of the columns. -/
@[inline] def unskew (s : Block) : Block :=
  ⟨s.first, s.second.shift.shift.shift, s.third.shift.shift, s.fourth.shift⟩

/-- One round over the columns and one over the diagonals. -/
def doubleRound (s : Block) : Block := s.columnRound.skew.columnRound.unskew

def rounds : Nat → Block → Block
  | 0, s => s
  | n + 1, s => rounds n s.doubleRound

/-- The 64-bit words of a block. -/
def words (s : Block) : List UInt64 :=
  s.first.joined ++ s.second.joined ++ s.third.joined ++ s.fourth.joined

end Block

/-- Two rows of words that a generator keeps to itself. -/
structure Key where
  upper : Row
  lower : Row
  deriving DecidableEq, Repr

/-- The block before the rounds: constants, key, block number, two zero words. -/
def start (key : Key) (number : UInt64) : Block where
  first := ⟨0x61707865, 0x3320646e, 0x79622d32, 0x6b206574⟩
  second := key.upper
  third := key.lower
  fourth := ⟨number.toUInt32, (number >>> 32).toUInt32, 0, 0⟩

/-- The key stream block with the given number. -/
def block (key : Key) (number : UInt64) : Block :=
  let s := start key number
  (s.rounds 6).add s

/-- The next state of a linear congruential sequence. -/
def advance (seed : UInt64) : UInt64 := seed * 6364136223846793005 + 11634580027462260723

/-- The word that a state of the sequence gives, permuted. -/
def permuted (s : UInt64) : UInt32 :=
  rotateRight (((s >>> 18) ^^^ s) >>> 27).toUInt32 (s >>> 59).toUInt32

/-- The next four words after a state of the sequence, and the state then. -/
def seedRow (seed : UInt64) : Row × UInt64 :=
  let s₁ := advance seed
  let s₂ := advance s₁
  let s₃ := advance s₂
  let s₄ := advance s₃
  (⟨permuted s₁, permuted s₂, permuted s₃, permuted s₄⟩, s₄)

/-- The generator between two draws: key, number of the next block, and the
words of the current block that are not drawn yet. -/
structure State where
  key : Key
  number : UInt64
  pending : List UInt64

def State.ofSeed (seed : UInt64) : State :=
  let (upper, seed) := seedRow seed
  { key := { upper, lower := (seedRow seed).1 }, number := 0, pending := [] }

def State.next (s : State) : UInt64 × State :=
  match s.pending with
  | word :: rest => (word, { s with pending := rest })
  | [] =>
    match (block s.key s.number).words with
    | word :: rest => (word, { s with number := s.number + 1, pending := rest })
    | [] => (0, s)

instance : Generator State := ⟨State.next⟩

end ChaCha

/-- The stream that a seed starts. -/
def RandomStream.ofSeed (seed : UInt64) : RandomStream ChaCha.State :=
  { generator := ChaCha.State.ofSeed seed }

end Inflow
