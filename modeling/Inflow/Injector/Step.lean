import Inflow.Injector.Set
/-!
# Steps

A step checks the setup, leaves everything alone if the ceiling could be
passed, and otherwise releases every set that is due, one after the other, and
enters what all ranks released into the census.
-/

namespace Inflow.Injector

variable {α γ ω : Type} [Scalar α] [Generator γ]

/-- Begins a step: nothing released yet, and flow rates at zero for the zones of the registry. -/
def beginStep (registry : Registry α) : Step α γ ω Unit := do
  Step.updateInjector fun i => { i with population := i.population.beginStep }
  let slots ← Step.check (← get).injector.settings.model.flowSlots
  let flow ← Step.check
    (FlowRates.zeros (registry.zones .boundary).length (registry.zones .volume).length slots)
  Step.updateInjector fun i => { i with flow }

/-- Releases the sets that are due, in their order. -/
def injectDue (env : Surroundings α ω) (time : TimeStep α) (level : Nat) :
    List (Request α) → Step α γ ω (List SetSummary)
  | [] => pure []
  | q :: rest => do
    let released := (← get).census.cumulativeTotal
    if ← Step.check (q.set.isDue time.step time.start released) then
      let summary ← injectSet env time.dtp level q
      let summaries ← injectDue env time level rest
      return summary :: summaries
    else injectDue env time level rest

/-- Ends a step: the census takes in what all ranks released, and the sink the flow rates. -/
def endStep (env : Surroundings α ω) (time : TimeStep α) (sets : List SetSummary) :
    Step α γ ω (StepSummary α) := do
  let kept := Count.total (sets.map (·.kept))
  let lost := Count.total (sets.map (·.lost))
  let r ← get
  let population := r.injector.population
  let entered ← Step.meet (r.census.commit
    { released := population.released, weight := population.releasedWeight, failed := lost })
  modify fun r => { r with census := entered.state }
  if let some f := entered.fault then throw (.fault f)
  modify fun r => { r with sink := r.sink.deliverFlow r.injector.flow }
  let census := entered.state
  Step.say [.stepDone time.step census.released kept env.seat.rank census.failed census.total]
  return { kept, lost, weight := population.releasedWeight, released := census.released, sets }

/-- Carries out one step. All ranks of a group do so together, with the same
registry and time. `wantedLevel` is the time level of the fluid to read. -/
def inject (env : Surroundings α ω) (registry : Registry α) (time : TimeStep α)
    (wantedLevel : Nat) : Step α γ ω (StepOutcome α) := do
  let settings := (← get).injector.settings
  let issues := registry.issues settings.model
  if !issues.isEmpty then throw (.error (.setup issues))
  beginStep registry
  let census := (← get).census
  let projected := census.projected registry.totalRequested
  if settings.ceiling < projected then
    Step.say [.ceilingReached time.step census.total projected settings.ceiling]
    return .skipped census.total projected settings.ceiling
  let sets ← injectDue env time (env.fluid.level wantedLevel) registry.requests
  return .injected (← endStep env time sets)

end Inflow.Injector
