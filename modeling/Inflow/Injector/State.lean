import Inflow.Settings
import Inflow.Registry
import Inflow.Apportion
import Inflow.Census
import Inflow.Checks.Setup
import Inflow.Checks.Admissibility
import Inflow.Particle.Population
import Inflow.Events.Buffer
import Inflow.Events.Sink
/-!
# Injectors

The injector of a rank owns its population, its random stream, the events not
yet handed on, and the flow rates of the last step. A step also changes the
census, the sink, the state of the surroundings and the log; together these are
a `Run`. A step that halts, for an error or a fault, leaves the run as it is at
that moment.
-/

namespace Inflow

structure Injector (α γ : Type) where
  settings : Settings α
  stream : RandomStream γ
  population : Population α
  events : EventBuffer α
  flow : FlowRates α

/-- Where in the registry something happened. -/
structure Place where
  kind : ZoneKind
  zone : Nat
  set : Nat
  deriving DecidableEq, Repr

/-- Why a step was given up. -/
inductive InjectionError (α : Type) where
  /-- The setup is faulty. -/
  | setup (issues : List (Issue α))
  /-- The population cannot grow. -/
  | growth (error : GrowthError)
  /-- Released particles have attributes that no particle may have. -/
  | inadmissible (place : Place) (violations : List (Violation α))
  /-- An element of the zone is not in the mesh. -/
  | missingWeight (place : Place) (element available : Nat)
  /-- The profile does not have one factor for each element. -/
  | profileLength (place : Place) (expected got : Nat)
  /-- Another rank gave up at this set. -/
  | peerFailure (place : Place)

/-- Why a step halts. -/
inductive Halt (α : Type) where
  | fault (f : Fault)
  | error (e : InjectionError α)

/-- The state that a step changes. -/
structure Run (α γ ω : Type) where
  injector : Injector α γ
  census : Census α
  sink : Sink α
  outside : ω
  log : Array Message := #[]

/-- A part of a rank's step: it changes the run, may halt, and may meet the other ranks. -/
abbrev Step (α γ ω : Type) := ExceptT (Halt α) (StateT (Run α γ ω) (Program α))

/-- The number and length of a step, and the number of the step before the run began. -/
structure TimeStep (α : Type) where
  step : Nat
  start : Nat
  dtp : α
  deriving DecidableEq

/-- What one set released on this rank. -/
structure SetSummary where
  place : Place
  /-- Particles kept. -/
  kept : Nat
  /-- Particles in no cell after they were moved. -/
  lost : Nat
  deriving DecidableEq, Repr

/-- What a step released. -/
structure StepSummary (α : Type) where
  /-- Particles kept on this rank. -/
  kept : Nat
  /-- Particles lost on this rank. -/
  lost : Nat
  /-- Statistical weight released on this rank. -/
  weight : α
  /-- Particles released over all ranks. -/
  released : Nat
  sets : List SetSummary

inductive StepOutcome (α : Type) where
  /-- The ceiling would be passed; nothing was released. -/
  | skipped (current projected ceiling : Nat)
  | injected (summary : StepSummary α)

namespace Request

variable {α : Type} (q : Request α)

def zone : Zone := q.entry.zone

def place : Place := { kind := q.kind, zone := q.zone.id, set := q.set.id }

end Request

namespace Step

variable {α γ ω β : Type}

/-- Halts at a fault. -/
def check (x : Checked β) : Step α γ ω β :=
  match x with
  | .ok b => pure b
  | .error f => throw (.fault f)

/-- Meets the other ranks. -/
def meet (p : Program α β) : Step α γ ω β := (liftM p : StateT (Run α γ ω) (Program α) β)

def say (messages : List Message) : Step α γ ω Unit :=
  modify fun r => { r with log := r.log ++ messages }

def updateInjector (f : Injector α γ → Injector α γ) : Step α γ ω Unit :=
  modify fun r => { r with injector := f r.injector }

def setStream (stream : RandomStream γ) : Step α γ ω Unit :=
  updateInjector fun i => { i with stream }

def setPopulation (population : Population α) : Step α γ ω Unit :=
  updateInjector fun i => { i with population }

/-- Draws from the injector's stream. -/
def draw (d : Drawing γ β) : Step α γ ω β := do
  let (result, stream) := d.run.run (← get).injector.stream
  setStream stream
  check result

/-- Makes a failure known to all ranks: where one rank failed, every rank gives
up, the others with a `peerFailure`. -/
def agree (place : Place) (own : Except (InjectionError α) β) : Step α γ ω β := do
  let someoneFailed ← meet (Program.any own.toBool.not)
  match own with
  | .error e => throw (.error e)
  | .ok b => if someoneFailed then throw (.error (.peerFailure place)) else pure b

end Step

/-- The injector at the beginning of a run with valid settings. -/
def Injector.start {α : Type} [Scalar α] (settings : Settings α) (stream : RandomStream γ) :
    Checked (Injector α γ) := do
  return {
    settings
    stream
    population := ← Population.withCapacity settings.initialCapacity
    events := ← EventBuffer.withCapacity 0
    flow := .unset }

/-- Hands the events in the buffer to the sink. -/
def Run.flushEvents {α γ ω : Type} (r : Run α γ ω) : Run α γ ω :=
  let (batch, events) := r.injector.events.flush
  { r with injector := { r.injector with events }, sink := r.sink.deliver batch }

end Inflow
