import Inflow.Codec.Form
import Inflow.Registry
/-!
# The registry as a document

The written form of zones, sets and the registry, and how it is read. Profiles
are functions and have no written form.
-/

namespace Inflow

def ZoneKind.names : List (String × ZoneKind) :=
  [("BoundaryFaces", .boundary), ("VolumeCells", .volume)]

def ZoneKind.form : Form ZoneKind := .named names

def BoundaryNature.names : List (String × BoundaryNature) :=
  [("Undefined", .undefined), ("Symmetry", .symmetry), ("Inlet", .inlet), ("Outlet", .outlet),
    ("Rebound", .rebound), ("Deposition1", .deposition1), ("Deposition2", .deposition2),
    ("DepositionDlvo", .depositionDlvo), ("Fouling", .fouling), ("User", .user)]

def BoundaryNature.form : Form BoundaryNature := .named names

def TemperatureProfile.names : List (String × TemperatureProfile) :=
  [("Seen", .seen), ("Imposed", .imposed)]

def TemperatureProfile.form : Form TemperatureProfile := .named names

namespace Zone

def blank : Zone := { id := 0, name := "", kind := .boundary, elements := #[] }

/-- A zone without a numbering is written without the last column. -/
def columns : List (Column Zone) := [
  .required "id" .count (·.id) fun n z => { z with id := n },
  .required "name" .text (·.name) fun t z => { z with name := t },
  .required "kind" ZoneKind.form (·.kind) fun k z => { z with kind := k },
  .required "elt_ids" (.array .count) (·.elements) fun xs z => { z with elements := xs },
  { Column.implied "global_ids" (.nullable (.array .count)) (·.globalIds)
      fun ids z => { z with globalIds := ids } with
    isWritten := (·.globalIds.isSome) }]

def form : Form Zone := .record columns blank

end Zone

namespace Velocity

def toJson : Velocity Float → Json
  | fluid => .ofMembers [("type", .ofString "FluidValue")]
  | normal magnitude =>
    .ofMembers [("type", .ofString "ImposedNorm"), ("magnitude", .ofFloat magnitude)]
  | components velocity =>
    .ofMembers [("type", .ofString "ImposedComponents"),
      ("components", Encode.vector .ofFloat velocity)]

/-- The speed beside the tag `ImposedNorm`. -/
def magnitudeForm : Form Float := .record [.required "magnitude" .real id fun x _ => x] 0

/-- The vector beside the tag `ImposedComponents`. -/
def componentsForm : Form (Vec3 Float) :=
  .record [.required "components" (.vector 3) id fun v _ => v] (Vector.replicate 3 0)

/-- The velocity with the given tag, from what stands beside the tag. -/
def ofTagged (tag : String) (content : Json) : Decoded (Velocity Float) :=
  match tag with
  | "FluidValue" =>
    match content with
    | .array (_ :: _) => .error (.expected "nothing but the type")
    | _ => .ok .fluid
  | "ImposedNorm" => do return .normal (← magnitudeForm.ofJson content)
  | "ImposedComponents" => do return .components (← componentsForm.ofJson content)
  | _ => .error (.expected "a known type")

/-- A velocity says its type under the key `type`, or first in an array. All
that stands beside the type is read. -/
def ofJson (j : Json) : Decoded (Velocity Float) :=
  if !j.isReadable then .error (.expected "readable values")
  else
    match j with
    | .object members =>
      match members.partition (·.1 == some "type") with
      | ([(_, tag)], rest) => do ofTagged (← Decode.text tag) (.object rest)
      | ([], _) => .error (.missing "type")
      | _ => .error (.repeated "type")
    | .array (tag :: rest) => do ofTagged (← Decode.text tag) (.array rest)
    | .array [] => .error (.missing "type")
    | _ => .error (.expected "a velocity")

def form : Form (Velocity Float) := .other toJson ofJson

end Velocity

namespace InjectionSet

def columns : List (Column (InjectionSet Float)) := [
  .implied "zone_id" .count (·.zone) fun n s => { s with zone := n },
  .implied "set_id" .count (·.id) fun n s => { s with id := n },
  .implied "location" ZoneKind.form (·.location) fun k s => { s with location := k },
  .implied "n_inject" .count (·.count) fun n s => { s with count := n },
  .implied "injection_frequency" (.integerUpTo (Nat.pow 2 63 - 1)) (·.frequency)
    fun i s => { s with frequency := i },
  .implied "velocity" Velocity.form (·.velocity) fun v s => { s with velocity := v },
  .implied "temperature_profile" TemperatureProfile.form (·.temperatureProfile)
    fun t s => { s with temperatureProfile := t },
  .implied "temperature" .real (·.temperature) fun x s => { s with temperature := x },
  .implied "diameter" .real (·.diameter) fun x s => { s with diameter := x },
  .implied "diameter_variance" .real (·.diameterDeviation)
    fun x s => { s with diameterDeviation := x },
  .implied "density" .real (·.density) fun x s => { s with density := x },
  .implied "cp" .real (·.specificHeat) fun x s => { s with specificHeat := x },
  .implied "emissivity" .real (·.emissivity) fun x s => { s with emissivity := x },
  .implied "stat_weight" .real (·.weight) fun x s => { s with weight := x },
  .implied "flow_rate" .real (·.flowRate) fun x s => { s with flowRate := x },
  .implied "cluster" .count (·.statClass) fun n s => { s with statClass := n },
  .implied "aggregate_class_id" (.integerUpTo (Nat.pow 2 31 - 1)) (·.aggregateClass)
    fun i s => { s with aggregateClass := i },
  .implied "aggregate_fractal_dim" .real (·.fractalDimension)
    fun x s => { s with fractalDimension := x },
  .implied "fouling_index" .real (·.foulingIndex) fun x s => { s with foulingIndex := x },
  .implied "coal_number" .count (·.coalNumber) fun n s => { s with coalNumber := n },
  .implied "radii" (.vector 3) (·.radii) fun v s => { s with radii := v },
  .implied "orientation" (.vector 3) (·.orientation) fun v s => { s with orientation := v },
  .implied "angular_velocity" (.vector 3) (·.angularVelocity)
    fun v s => { s with angularVelocity := v },
  .implied "shape_param" (.vector 4) (·.shapeParameters) fun v s => { s with shapeParameters := v },
  .implied "euler" (.vector 4) (·.euler) fun v s => { s with euler := v }]

def form : Form (InjectionSet Float) := .record columns standard

end InjectionSet

namespace ZoneEntry

def blank : ZoneEntry Float := { zone := .blank, nature := .undefined }

def columns : List (Column (ZoneEntry Float)) := [
  .required "zone" Zone.form (·.zone) fun z e => { e with zone := z },
  .implied "nature" BoundaryNature.form (·.nature) fun n e => { e with nature := n },
  .implied "sets" (.list InjectionSet.form) (·.sets) fun ss e => { e with sets := ss }]

def form : Form (ZoneEntry Float) := .record columns blank

end ZoneEntry

namespace Registry

def columns : List (Column (Registry Float)) := [
  .implied "boundary" (.list ZoneEntry.form) (·.boundary) fun es r => { r with boundary := es },
  .implied "volume" (.list ZoneEntry.form) (·.volume) fun es r => { r with volume := es }]

def form : Form (Registry Float) := .record columns {}

end Registry
end Inflow
