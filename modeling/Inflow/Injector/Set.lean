import Inflow.Injector.State
import Inflow.Injector.Surroundings
import Inflow.Release.Placement
import Inflow.Release.State
import Inflow.Release.Attributes
/-!
# Releasing one set

The work of one set in a step, in the order in which it happens: the inputs are
checked and the particles shared out; blank records are appended, placed and
given their state; the first hook may move them, and moved particles are looked
up again or lost; attributes are set and the second hook may change them;
inflow events are recorded; what came out is checked and entered into the flow
rates. Failures are agreed on by all ranks at three points.
-/

namespace Inflow.Injector

variable {α γ ω : Type} [Scalar α] [Generator γ]

/-- Every element must be in the mesh, and a profile must fit the zone. -/
def checkInputs (q : Request α) (weights : Array α) (factors : Option (Array α)) :
    Except (InjectionError α) Unit :=
  match q.zone.elements.toList.find? (weights.size ≤ ·) with
  | some element => .error (.missingWeight q.place element weights.size)
  | none =>
    match factors with
    | some values =>
      if values.size = q.zone.elements.size then .ok ()
      else .error (.profileLength q.place q.zone.elements.size values.size)
    | none => .ok ()

/-- Shares the particles of a set out and appends blank records for this rank's
part. Gives the offsets of the elements and the index of the first record. -/
def openSet (env : Surroundings α ω) (q : Request α) : Step α γ ω (List Nat × Nat) := do
  let weights := env.mesh.weights q.kind
  let factors := q.set.factors q.zone
  Step.agree q.place (checkInputs q weights factors)
  let stream := (← get).injector.stream
  let layout ← Step.check (← Step.meet
    (Apportion.overZone q.set.count q.zone.elements weights factors env.seat stream))
  Step.setStream layout.stream
  Step.say layout.messages
  let count := layout.index.getLastD 0
  Step.say [.setShare q.kind q.zone.id q.set.id count q.set.count env.seat.rank]
  let grown ← Step.check ((← get).injector.population.appendBlankFrom env.memory count)
  -- A rank that has room has grown before it hears of one that has none.
  Step.setPopulation grown.population
  let range ← Step.agree q.place (grown.result.mapError .growth)
  return (layout.index, range.start)

/-- The records from index `start` on. -/
def fresh (start : Nat) : Step α γ ω (Array (Particle α)) := do
  return (← get).injector.population.tail start

def setFresh (start : Nat) (ps : Array (Particle α)) : Step α γ ω Unit :=
  Step.updateInjector fun i => { i with population := i.population.withTail start ps }

/-- Lets a hook edit fresh records. -/
def runHook (hook : Hook α ω) (call : HookCall α) (ps : Array (Particle α)) :
    Step α γ ω (Array (Particle α)) := do
  let (edited, outside) := hook call ps.toVector (← get).outside
  modify fun r => { r with outside }
  return (← Step.check edited).toArray

/-- The record of a particle after the first hook. Whatever the hook did, it
was in the saved record's cell and place before; all else of its previous state
is what the hook left. -/
def afterMove (rank : Nat) (saved p : Particle α) : Particle α :=
  { p.keepAsPrevious with
    cell := saved.cell
    previousRank := rank
    previousPosition := saved.position }

/-- The record of a particle after the second hook, with the saved record's
cell, and its position as the previous one. -/
def afterModify (saved p : Particle α) : Particle α :=
  { p with cell := saved.cell, previousPosition := saved.position }

/-- Places the fresh records, sets their state, and lets the first hook move them. -/
def releaseFresh (env : Surroundings α ω) (q : Request α) (dtp : α) (index : List Nat)
    (start : Nat) (faces : Option (Array Nat)) : Step α γ ω Unit := do
  let placed ← Step.check (Release.place q.zone index env.mesh env.seat.rank (← fresh start))
  let ready ← Step.draw (Release.initializeAll env.mesh q.set dtp faces placed)
  let moved ← runHook env.hooks.move { set := q.set, faces, sublayer := env.sublayer } ready
  setFresh start (ready.zipWith (afterMove env.seat.rank) moved)

/-- Whether some fresh record is away from its place. -/
def anyDisplaced (mesh : Mesh α) (ps : Array (Particle α)) : Checked Bool := do
  let flags ← ps.toList.mapM fun p => do
    return Release.isDisplaced (← fetch mesh.cellVolumes p.cell) p
  return flags.any id

/-- If some rank has moved particles, looks up the cells of all fresh ones and
drops those that are in none. Gives the number dropped and the faces left. -/
def relocateFresh (env : Surroundings α ω) (q : Request α) (start : Nat)
    (faces globalFaces : Option (Array Nat)) :
    Step α γ ω (Nat × Option (Array Nat) × Option (Array Nat)) := do
  let ps ← fresh start
  let displaced ← Step.check (anyDisplaced env.mesh ps)
  if ← Step.meet (Program.any displaced) then
    let ((relocated, lost), outside) :=
      env.tracker.relocate env.mesh ps.toVector env.sublayer (← get).outside
    modify fun r => { r with outside }
    setFresh start relocated.toArray
    if lost.isEmpty then return (0, faces, globalFaces)
    let (count, population) := (← get).injector.population.removeFrom start lost
    Step.setPopulation population
    Step.say [.notLocated q.kind q.zone.id q.set.id count]
    return (count, faces.map (strikePositions · lost), globalFaces.map (strikePositions · lost))
  else return (0, faces, globalFaces)

/-- Sets the attributes of the fresh records, lets the second hook change them,
and takes them through the rest of the step. -/
def finishFresh (env : Surroundings α ω) (q : Request α) (dtp : α) (level start : Nat)
    (faces : Option (Array Nat)) : Step α γ ω Unit := do
  let model := (← get).injector.settings.model
  let ready ← Step.draw
    (Release.attributes { model, fluid := env.fluid, level, dtp } q.set (← fresh start))
  let modified ← runHook env.hooks.modify { set := q.set, faces, sublayer := env.sublayer } ready
  setFresh start ((ready.zipWith afterModify modified).map (Release.advance dtp))

/-- Buffers an event; the sink gets the batch that had to make room for it. -/
def recordEvent (e : TrackingEvent α) : Step α γ ω Unit :=
  modify fun r =>
    let (batch, events) := r.injector.events.push e
    { r with injector := { r.injector with events }, sink := r.sink.deliver batch }

/-- Buffers an inflow event for each of the particles, with the face beside it. -/
def recordInflow : List (Particle α) → List Nat → List Nat → Step α γ ω Unit
  | p :: ps, face :: faces, globalFace :: globalFaces => do
    recordEvent (.inflow p face globalFace)
    recordInflow ps faces globalFaces
  | _, _, _ => pure ()

/-- Records inflow events for the fresh particles of a boundary zone, if events are wanted. -/
def recordFresh (env : Surroundings α ω) (start : Nat) (faces globalFaces : Option (Array Nat)) :
    Step α γ ω Unit := do
  match faces, globalFaces with
  | some faces, some globalFaces =>
    let r ← get
    if r.injector.settings.collectEvents && r.sink.active then
      let room := r.injector.events.ensureCapacity (2 * env.mesh.faceCount)
      Step.updateInjector fun i => { i with events := room.state }
      if let some f := room.fault then throw (.fault f)
      recordInflow (← fresh start).toList faces.toList globalFaces.toList
  | _, _ => pure ()

/-- Adds the mass of each particle to the flow rates of its zone and class. -/
def addFlow (kind : ZoneKind) (zoneIndex : Nat) (flow : FlowRates α) :
    List (Particle α) → Checked (FlowRates α)
  | [] => .ok flow
  | p :: ps => do
    addFlow kind zoneIndex (← flow.add kind zoneIndex p.statClass (p.weight * p.mass)) ps

/-- The weight of particles, added up in their order. -/
def totalWeight (ps : List (Particle α)) : α := ps.foldl (fun w p => w + p.weight) 0

/-- Checks the fresh particles and enters them into the flow rates. -/
def closeSet (q : Request α) (start : Nat) : Step α γ ω Nat := do
  let ps ← fresh start
  let model := (← get).injector.settings.model
  let violations ← Step.check (Admissibility.violations model start ps)
  Step.agree q.place
    (if violations.isEmpty then .ok () else .error (.inadmissible q.place violations))
  let flow ← Step.check (addFlow q.kind q.zoneIndex (← get).injector.flow ps.toList)
  Step.updateInjector fun i => { i with flow }
  let population := (← get).injector.population
  Step.setPopulation (← Step.check (population.recordReleased ps.size (totalWeight ps.toList)))
  return ps.size

/-- Releases the particles of one set. -/
def injectSet (env : Surroundings α ω) (dtp : α) (level : Nat) (q : Request α) :
    Step α γ ω SetSummary := do
  let (index, start) ← openSet env q
  let (faces, globalFaces) ←
    if q.kind = .boundary then do
      pure (some (← Step.check (Release.faces q.zone index)),
        some (← Step.check (Release.globalFaces q.zone index)))
    else pure (none, none)
  releaseFresh env q dtp index start faces
  let (lost, faces, globalFaces) ← relocateFresh env q start faces globalFaces
  finishFresh env q dtp level start faces
  recordFresh env start faces globalFaces
  let kept ← closeSet q start
  return { place := q.place, kept, lost }

end Inflow.Injector
