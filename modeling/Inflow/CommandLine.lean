import Inflow.Codec.Scenario
import Inflow.Injector.Step
import Inflow.Injector.Report
import Inflow.Random.ChaCha
import Inflow.Ranks.Group
import Inflow.Decimal.Rounded
import Inflow.Json.Writer
/-!
# Command line

What the program prints and how it ends, as a function of its arguments and of
the file they name. A run goes on step by step until all steps are done or one
of them halts; what was printed until then stays printed.
-/

namespace Inflow.CommandLine

/-- How a run of the program ends. -/
inductive Ending where
  /-- A full run, whose duration is still to be printed. -/
  | finished (steps : Nat)
  /-- All is said. -/
  | exit (code : Nat)
  | fault (f : Fault)
  deriving DecidableEq, Repr

/-- What the program prints, line by line, and how it ends. -/
structure Transcript where
  output : List String := []
  errors : List String := []
  ending : Ending

def usage (program : String) : List String := [
  s!"Usage: {program} <scenario.json> [steps]",
  "",
  "Run a Lagrangian particle injection scenario.",
  "",
  "Arguments:",
  "  scenario.json  Path to scenario file",
  "  steps          Number of time steps (default: from scenario)",
  "",
  "Example scenario is generated with --example flag."]

/-- The lines of a text. -/
def lines (text : String) : List String := text.splitOn "\n"

def exampleLines : List String :=
  "Example scenario (scenario.json):" :: lines (Scenario.form.toJson .sample).pretty

/-- A count as an argument: digits, with or without a plus before them. -/
def readCount (argument : String) : Option Nat :=
  let digits := match argument.toList with
    | '+' :: rest => rest
    | cs => cs
  if digits.isEmpty || !digits.all Char.isDigit then none
  else
    let n := Json.digitsValue digits
    if n ≤ Count.limit then some n else none

/-- Flow rates have their shortest digits, with an exponent below `10⁻⁴` and from `10¹⁶`. -/
def flowLayout : Decimal.Layout where
  least := some (-4)
  beyond := some 16
  wholeMark := ".0"
  exponentMark := ""
  tie := .up

def flowText (values : List Float) : String :=
  "[" ++ ", ".intercalate (values.map flowLayout.text) ++ "]"

def boxText (b : Box Float) : String := "x".intercalate (b.layers.toList.map Nat.repr)

def header (s : Scenario Float) (steps faceCount : Nat) : List String := [
  "Lagrangian Injection",
  "====================",
  s!"Mesh: {boxText s.box} cells, {faceCount} boundary faces",
  s!"Zones: {s.registry.boundary.length} boundary, {s.registry.volume.length} volume",
  s!"dtp: {valueLayout.text s.dtp}",
  s!"Steps: {steps}",
  ""]

/-- A program on its own, with trackers that count their passes. -/
abbrev State := Run Float ChaCha.State Nat

/-- A run on its way: its state, the lines printed and the steps skipped. -/
structure Progress where
  state : State
  output : List String := []
  skipped : Nat := 0

def stepLine (step steps : Nat) (summary : StepSummary Float) (census : Census Float) : String :=
  s!"  Step {step}/{steps}: new={summary.released}, failed={summary.lost}, total={census.total}, weight={Decimal.fixed 3 census.weight}"

/-- Steps are reported ten times in a run, or every time in a short one. -/
def isReported (step steps : Nat) : Bool := step % max (steps / 10) 1 == 0

/-- One step of a run. -/
def runStep (s : Scenario Float) (env : Surroundings Float Nat) (step : Nat)
    (state : State) : Except (Halt Float) (StepOutcome Float) × State :=
  ((Injector.inject env s.registry { step, start := 0, dtp := s.dtp } 0).run.run state).alone

/-- The steps from `step` on, `left` of them. -/
def runSteps (s : Scenario Float) (env : Surroundings Float Nat) (steps : Nat) :
    (left step : Nat) → Progress → Except (Nat × Halt Float) Unit × Progress
  | 0, _, p => (.ok (), p)
  | left + 1, step, p =>
    match runStep s env step p.state with
    | (.error halt, state) => (.error (step, halt), { p with state })
    | (.ok (.skipped ..), state) =>
      runSteps s env steps left (step + 1) { p with state, skipped := p.skipped + 1 }
    | (.ok (.injected summary), state) =>
      let line := if isReported step steps then [stepLine step steps summary state.census] else []
      runSteps s env steps left (step + 1) { p with state, output := p.output ++ line }

/-- The report after all steps, up to a fault in it. -/
def finalReport (s : Scenario Float) (p : Progress) : List String × Checked (List String) :=
  let census := p.state.census
  let state := p.state.flushEvents
  let known := [
    "",
    "Final state:",
    s!"  Particles: {census.total}",
    s!"  Cumulative injected: {census.cumulativeTotal}",
    s!"  Cumulative failed: {census.cumulativeFailed}",
    s!"  Statistical weight: {Decimal.fixed 6 census.weight}",
    s!"  Skipped steps: {p.skipped}"]
    ++ if s.settings.collectEvents then [s!"  Inflow events: {state.sink.events.size}"] else []
  (known, do
    let boundary ← state.injector.flow.zoneTotals .boundary
    let volume ← state.injector.flow.zoneTotals .volume
    return [
      s!"  Last step flow rates: boundary {flowText boundary}, volume {flowText volume}",
      s!"  Random draws: {state.injector.stream.draws}",
      ""])

/-- What the steps of a scenario work with. -/
def surroundings (s : Scenario Float) (mesh : Mesh Float) (faceCount : Nat) : Surroundings Float Nat where
  seat := .alone
  mesh
  fluid := .uniform s.fluidVelocity s.fluidTemperature
  hooks := .none
  tracker := .byPosition
  sublayer := Array.replicate faceCount 0

/-- The state before the first step of a scenario. -/
def initial (s : Scenario Float) (injector : Injector Float ChaCha.State) : State where
  injector
  census := .zero
  sink := if s.settings.collectEvents then .recording else .inactive
  outside := 0

/-- Runs a scenario for a number of steps. -/
def runScenario (s : Scenario Float) (steps : Nat) : Transcript :=
  match (do return (← Mesh.ofBox s.box, ← s.box.faceCount) : Checked (Mesh Float × Nat)) with
  | .error f => { ending := .fault f }
  | .ok (mesh, faceCount) =>
    let head := header s steps faceCount
    match Injector.start s.settings (RandomStream.ofSeed (.ofNat s.settings.seed)) with
    | .error f => { output := head, ending := .fault f }
    | .ok injector =>
      let head := head ++ ["Running injection..."]
      match runSteps s (surroundings s mesh faceCount) steps steps 1 { state := initial s injector } with
      | (.error (_, .fault f), p) => { output := head ++ p.output, ending := .fault f }
      | (.error (step, .error e), p) =>
        { output := head ++ p.output
          errors := lines s!"Injection failed at step {step}: {e.message}"
          ending := .exit 1 }
      | (.ok _, p) =>
        match finalReport s p with
        | (known, .error f) => { output := head ++ p.output ++ known, ending := .fault f }
        | (known, .ok rest) =>
          { output := head ++ p.output ++ known ++ rest, ending := .finished steps }

/-- Runs the program named `program`; `read` gives the content of a file. -/
def run (program : String) (arguments : List String) (read : String → FileContent) : Transcript :=
  match arguments with
  | [] => { errors := usage program, ending := .exit 1 }
  | path :: rest =>
    if path = "--example" then { output := exampleLines, ending := .exit 0 }
    else
      match Scenario.load (read path) with
      | .error e => { errors := lines ("Error loading scenario: " ++ e.message), ending := .exit 1 }
      | .ok s => runScenario s ((rest.head?.bind readCount).getD s.steps)

end Inflow.CommandLine
