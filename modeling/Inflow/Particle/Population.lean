import Inflow.Particle.Record
/-!
# Populations

The particles of one rank, with the storage set aside for them and the count
and weight of those released in the current step. Within a step particles are
only added at the end, and only taken away from the end part that the step
added (`removeFrom`), so older particles keep their places.
-/

namespace Inflow

/-- A flag for each of `n` positions, up where the position is in `lost`. -/
def lostFlags (n : Nat) (lost : List Nat) : Array Bool :=
  lost.foldl (fun flags i => flags.setIfInBounds i true) (Array.replicate n false)

/-- The entries whose position is not in `lost`. -/
def dropPositions {β : Type} (xs : Array β) (lost : List Nat) : Array β :=
  ((xs.zip (lostFlags xs.size lost)).filter fun (_, l) => !l).map (·.1)

/-- One entry of a walk beside a list of flags: it takes the next flag, and stays
unless that is up. An entry after the last flag stays. -/
def strike {β : Type} : Array β × List Bool → β → Array β × List Bool
  | (kept, flags), x => (if flags.headD false then kept else kept.push x, flags.tail)

/-- The entries whose position is not in `lost`, from one walk that changes a table in place. -/
def strikePositions {β : Type} (xs : Array β) (lost : List Nat) : Array β :=
  (xs.foldl strike (#[], (lostFlags xs.size lost).toList)).1

structure Population (α : Type) where
  particles : Array (Particle α)
  /-- Number of particles that the storage set aside can hold. -/
  capacity : Nat
  /-- Particles released in the current step. -/
  released : Nat := 0
  /-- Statistical weight released in the current step. -/
  releasedWeight : α

/-- What keeps storage from growing. -/
inductive GrowthLimit where
  /-- The largest size of a table. -/
  | table
  /-- The memory there is. -/
  | memory
  deriving DecidableEq, Repr

/-- More storage asked for than can be had. -/
structure GrowthError where
  requested : Nat
  limit : GrowthLimit
  deriving DecidableEq, Repr

def GrowthError.reason (e : GrowthError) : String :=
  "memory allocation failed because " ++
    match e.limit with
    | .table => "the computed capacity exceeded the collection's maximum"
    | .memory => "the memory allocator returned an error"

/-- Whether memory is given out for so many bytes. -/
abbrev Memory := Nat → Bool

namespace Memory

/-- Memory that is given out up to a limit. -/
def upTo (limit : Nat) : Memory := fun bytes => bytes ≤ limit

/-- The memory of a machine of which nothing else is known. -/
def usual : Memory := upTo Count.memoryLimit

end Memory

/-- The indices from `start` on and before `stop`. -/
structure Span where
  start : Nat
  stop : Nat
  deriving DecidableEq, Repr

/-- What came of a change that may fail, and the population after it, whether it failed or not. -/
structure Population.Change (α ε β : Type) where
  result : Except ε β
  population : Population α

namespace Population

variable {α : Type}

/-- The number of bytes of storage for one particle. -/
def recordBytes : Nat := 536

/-- No particles, and storage for `capacity` of them. -/
def withCapacity [Zero α] (capacity : Nat) : Checked (Population α) := do
  Count.store capacity recordBytes
  return { particles := #[], capacity, releasedWeight := 0 }

def empty [Zero α] : Population α := { particles := #[], capacity := 0, releasedWeight := 0 }

variable (pop : Population α)

def size : Nat := pop.particles.size

/-- Forgets what was released in the step before. -/
def beginStep [Zero α] : Population α := { pop with released := 0, releasedWeight := 0 }

/-- Counts `n` particles of total weight `weight` as released in the current step. -/
def recordReleased [Add α] (n : Nat) (weight : α) : Checked (Population α) := do
  let released ← Count.add pop.released n
  return { pop with released, releasedWeight := pop.releasedWeight + weight }

/-- The storage that growth aims at, where room for `n` particles is asked for. -/
def target (n : Nat) : Nat := max n (min (2 * pop.capacity) Count.limit)

/-- The number of particles to set storage aside for beyond those there are. -/
def reservation (n : Nat) : Nat := pop.target n - pop.size

/-- Sets storage aside for exactly `extra` particles beyond those there are. -/
def reserve (memory : Memory) (extra : Nat) : Change α GrowthLimit Unit :=
  let capacity := pop.size + extra
  if Count.byteLimit < capacity * recordBytes then { result := .error .table, population := pop }
  else if memory (capacity * recordBytes) then { result := .ok (), population := { pop with capacity } }
  else { result := .error .memory, population := pop }

/-- Makes room for `n` particles, if memory is given out for it. Growth at least
doubles the storage. -/
def ensureCapacityFrom (memory : Memory) (n : Nat) : Change α GrowthError Unit :=
  if n ≤ pop.capacity then { result := .ok (), population := pop }
  else
    let reserved := pop.reserve memory (pop.reservation n)
    { result := reserved.result.mapError fun limit => { requested := n, limit }
      population := reserved.population }

/-- The population with room for `n` particles in the usual memory. -/
def ensureCapacity (n : Nat) : Except GrowthError (Population α) :=
  let made := pop.ensureCapacityFrom .usual n
  made.result.map fun _ => made.population

/-- Resets the particle at index `i` to the blank record. -/
def blankAt [Zero α] (i : Nat) : Checked (Population α) :=
  if i < pop.particles.size then
    .ok { pop with particles := pop.particles.setIfInBounds i .blank }
  else .error .outOfRange

/-- Appends `n` blank particles, if memory is given out for them, and gives their
indices; the new size must be a count. -/
def appendBlankFrom [Zero α] (memory : Memory) (n : Nat) : Checked (Change α GrowthError Span) := do
  let stop ← Count.add pop.size n
  let made := pop.ensureCapacityFrom memory stop
  match made.result with
  | .error e => return { made with result := .error e }
  | .ok () =>
    let particles := made.population.particles ++ Array.replicate n .blank
    return { result := .ok { start := pop.size, stop }, population := { made.population with particles } }

/-- The population with `n` blank particles more in the usual memory. -/
def appendBlank [Zero α] (n : Nat) : Checked (Except GrowthError (Population α)) := do
  let made ← pop.appendBlankFrom .usual n
  return made.result.map fun _ => made.population

/-- The particles from index `start` on. -/
def tail (start : Nat) : Array (Particle α) := pop.particles.extract start pop.particles.size

/-- The particles before index `start`, followed by others. -/
def withTail (start : Nat) (fresh : Array (Particle α)) : Population α :=
  { pop with particles := pop.particles.shrink start ++ fresh }

/-- Removes particles from the part beginning at `start`, given their indices
in that part. Repeated indices count once, indices past the end not at all.
Also says how many particles are gone. -/
def removeFrom (start : Nat) (lost : List Nat) : Nat × Population α :=
  if lost.isEmpty || pop.size ≤ start then (0, pop)
  else
    let next := pop.withTail start (dropPositions (pop.tail start) lost)
    (pop.size - next.size, next)

/-- Keeps the particles with a property. -/
def retain (keep : Particle α → Bool) : Population α :=
  { pop with particles := pop.particles.filter keep }

end Population
end Inflow
