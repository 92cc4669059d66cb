import Inflow.Codec.Form
import Inflow.Census
import Inflow.FlowRates
import Inflow.Events.Event
import Inflow.Injector.State
/-!
# State as documents

The written form of particles, events, flow rates, census and time steps, which
a restart reads back. Nothing but the coal of a particle may be left out.
-/

namespace Inflow

def ParticleFlags.form : Form ParticleFlags :=
  .other (fun f => Form.word.toJson f.bits) fun j => do return ⟨← Form.word.ofJson j⟩

def EventFlags.form : Form EventFlags :=
  .other (fun f => Form.word.toJson f.bits) fun j => do return ⟨← Form.word.ofJson j⟩

namespace Rebound

def toJson : Rebound → Json
  | never => .ofString "None"
  | stepsSince n => .ofMembers [("StepsSince", .ofNat n)]

def ofJson : Json → Decoded Rebound
  | .object [(some "StepsSince", n)] => do
    return .stepsSince (← Decode.naturalUpTo (UInt32.size - 1) n)
  | j => Decode.named [("None", .never)] j

def form : Form Rebound := .other toJson ofJson

end Rebound

namespace CoalLayers

def empty : CoalLayers Float where
  waterMass := #[]
  coalMass := #[]
  cokeMass := #[]
  density := #[]
  shrinkingDiameter := 0
  initialDiameter := 0

def columns : List (Column (CoalLayers Float)) := [
  .required "water_mass" .series (·.waterMass) fun v c => { c with waterMass := v },
  .required "coal_mass" .series (·.coalMass) fun v c => { c with coalMass := v },
  .required "coke_mass" .series (·.cokeMass) fun v c => { c with cokeMass := v },
  .required "coal_density" .series (·.density) fun v c => { c with density := v },
  .required "shrinking_diameter" .real (·.shrinkingDiameter)
    fun x c => { c with shrinkingDiameter := x },
  .required "initial_diameter" .real (·.initialDiameter) fun x c => { c with initialDiameter := x }]

def form : Form (CoalLayers Float) := .record columns empty

end CoalLayers

namespace Particle

def columns : List (Column (Particle Float)) := [
  .required "cell_id" .count (·.cell) fun n p => { p with cell := n },
  .required "rank_id" .count (·.rank) fun n p => { p with rank := n },
  .required "coords" (.vector 3) (·.position) fun v p => { p with position := v },
  .required "velocity" (.vector 3) (·.velocity) fun v p => { p with velocity := v },
  .required "velocity_seen" (.vector 3) (·.velocitySeen) fun v p => { p with velocitySeen := v },
  .required "prev_cell_id" .count (·.previousCell) fun n p => { p with previousCell := n },
  .required "prev_rank_id" .count (·.previousRank) fun n p => { p with previousRank := n },
  .required "prev_coords" (.vector 3) (·.previousPosition)
    fun v p => { p with previousPosition := v },
  .required "prev_velocity" (.vector 3) (·.previousVelocity)
    fun v p => { p with previousVelocity := v },
  .required "residence_time" .real (·.residenceTime) fun x p => { p with residenceTime := x },
  .required "random_value" .real (·.randomValue) fun x p => { p with randomValue := x },
  .required "flags" ParticleFlags.form (·.flags) fun f p => { p with flags := f },
  .required "rebound" Rebound.form (·.rebound) fun b p => { p with rebound := b },
  .required "truncated" .real (·.truncated) fun x p => { p with truncated := x },
  .required "diameter" .real (·.diameter) fun x p => { p with diameter := x },
  .required "mass" .real (·.mass) fun x p => { p with mass := x },
  .required "density" .real (·.density) fun x p => { p with density := x },
  .required "stat_weight" .real (·.weight) fun x p => { p with weight := x },
  .required "stat_class" .count (·.statClass) fun n p => { p with statClass := n },
  .required "cp" .real (·.specificHeat) fun x p => { p with specificHeat := x },
  .required "temperature" .real (·.temperature) fun x p => { p with temperature := x },
  .required "temperature_seen" .real (·.temperatureSeen) fun x p => { p with temperatureSeen := x },
  .required "emissivity" .real (·.emissivity) fun x p => { p with emissivity := x },
  .required "aggregate_class_id" (.integerUpTo (Nat.pow 2 31 - 1)) (·.aggregateClass)
    fun i p => { p with aggregateClass := i },
  .required "aggregate_fractal_dim" .real (·.fractalDimension)
    fun x p => { p with fractalDimension := x },
  .required "fouling_index" .real (·.foulingIndex) fun x p => { p with foulingIndex := x },
  .required "radii" (.vector 3) (·.radii) fun v p => { p with radii := v },
  .required "orientation" (.vector 3) (·.orientation) fun v p => { p with orientation := v },
  .required "angular_velocity" (.vector 3) (·.angularVelocity)
    fun v p => { p with angularVelocity := v },
  .required "shape_param" (.vector 4) (·.shapeParameters)
    fun v p => { p with shapeParameters := v },
  .required "euler" (.vector 4) (·.euler) fun v p => { p with euler := v },
  .required "coal_number" .count (·.coalNumber) fun n p => { p with coalNumber := n },
  .impliedByKey "coal" (.nullable CoalLayers.form) (·.coal) fun c p => { p with coal := c }]

def form : Form (Particle Float) := .record columns blank

end Particle

namespace TrackingEvent

def columns : List (Column (TrackingEvent Float)) := [
  .required "particle" Particle.form (·.particle) fun p e => { e with particle := p },
  .required "face_id" .count (·.face) fun n e => { e with face := n },
  .required "face_global_id" .count (·.globalFace) fun n e => { e with globalFace := n },
  .required "flags" EventFlags.form (·.flags) fun f e => { e with flags := f }]

def form : Form (TrackingEvent Float) := .record columns (inflow .blank 0 0)

end TrackingEvent

namespace FlowRates

def columns : List (Column (FlowRates Float)) := [
  .required "n_stats" .count (·.stride) fun n r => { r with stride := n },
  .required "boundary" .series (·.boundary) fun v r => { r with boundary := v },
  .required "volume" .series (·.volume) fun v r => { r with volume := v }]

def form : Form (FlowRates Float) := .record columns unset

end FlowRates

namespace Census

def columns : List (Column (Census Float)) := [
  .required "n_g_cumulative_total" .count (·.cumulativeTotal)
    fun n c => { c with cumulativeTotal := n },
  .required "n_g_cumulative_failed" .count (·.cumulativeFailed)
    fun n c => { c with cumulativeFailed := n },
  .required "n_g_total" .count (·.total) fun n c => { c with total := n },
  .required "n_g_new" .count (·.released) fun n c => { c with released := n },
  .required "n_g_exit" .count (·.left) fun n c => { c with left := n },
  .required "n_g_deposited" .count (·.deposited) fun n c => { c with deposited := n },
  .required "n_g_failed" .count (·.failed) fun n c => { c with failed := n },
  .required "w_total" .real (·.weight) fun x c => { c with weight := x },
  .required "w_new" .real (·.weightReleased) fun x c => { c with weightReleased := x },
  .required "version" .count (·.version) fun n c => { c with version := n }]

def form : Form (Census Float) := .record columns zero

end Census

namespace TimeStep

def columns : List (Column (TimeStep Float)) := [
  .required "nt_cur" .count (·.step) fun n t => { t with step := n },
  .required "nt_prev" .count (·.start) fun n t => { t with start := n },
  .required "dtp" .real (·.dtp) fun x t => { t with dtp := x }]

def form : Form (TimeStep Float) := .record columns { step := 0, start := 0, dtp := 0 }

end TimeStep
end Inflow
