import Inflow.Codec.Form
import Inflow.Settings
/-!
# Settings as documents

The written form of settings, models and coal tables. All of it but the entries
of a coal table may be left out.
-/

namespace Inflow

def PhysicalModel.names : List (String × PhysicalModel) :=
  [("None", .inert), ("Heat", .heat), ("Coal", .coal)]

def PhysicalModel.form : Form PhysicalModel := .named names

def ShapeModel.names : List (String × ShapeModel) :=
  [("Sphere", .sphere), ("SpheroidJeffery", .spheroid)]

def ShapeModel.form : Form ShapeModel := .named names

namespace Coal

def blank : Coal Float := { density := 0, specificHeat := 0, waterFraction := 0, ashFraction := 0 }

def columns : List (Column (Coal Float)) := [
  .required "density" .real (·.density) fun x c => { c with density := x },
  .required "cp" .real (·.specificHeat) fun x c => { c with specificHeat := x },
  .required "water_fraction" .real (·.waterFraction) fun x c => { c with waterFraction := x },
  .required "ash_fraction" .real (·.ashFraction) fun x c => { c with ashFraction := x }]

def form : Form (Coal Float) := .record columns blank

end Coal

namespace Model

def columns : List (Column (Model Float)) := [
  .implied "physical_model" PhysicalModel.form (·.physics)
    fun p m => { m with physics := p },
  .implied "n_stat_classes" .count (·.classes) fun n m => { m with classes := n },
  .implied "agglomeration" .boolean (·.agglomeration) fun b m => { m with agglomeration := b },
  .implied "shape" ShapeModel.form (·.shape) fun s m => { m with shape := s },
  .implied "fouling" .boolean (·.fouling) fun b m => { m with fouling := b },
  .implied "solve_temperature" .boolean (·.solveTemperature)
    fun b m => { m with solveTemperature := b },
  .implied "solve_temperature_seen" .boolean (·.solveTemperatureSeen)
    fun b m => { m with solveTemperatureSeen := b },
  .implied "solve_diameter" .boolean (·.solveDiameter) fun b m => { m with solveDiameter := b },
  .implied "solve_mass" .boolean (·.solveMass) fun b m => { m with solveMass := b },
  .implied "radiative_coupling" .boolean (·.radiativeCoupling)
    fun b m => { m with radiativeCoupling := b },
  .implied "n_coal_layers" .count (·.coalLayers) fun n m => { m with coalLayers := n },
  .implied "coals" (.list Coal.form) (·.coals) fun cs m => { m with coals := cs }]

def form : Form (Model Float) := .record columns {}

end Model

namespace Settings

def columns : List (Column (Settings Float)) := [
  .implied "seed" .count (·.seed) fun n s => { s with seed := n },
  .implied "max_global_particles" .count (·.ceiling) fun n s => { s with ceiling := n },
  .implied "collect_tracking_events" .boolean (·.collectEvents)
    fun b s => { s with collectEvents := b },
  .implied "initial_capacity" .count (·.initialCapacity) fun n s => { s with initialCapacity := n },
  .implied "model" Model.form (·.model) fun m s => { s with model := m }]

def form : Form (Settings Float) := .record columns {}

end Settings
end Inflow
