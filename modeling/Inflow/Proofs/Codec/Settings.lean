import Inflow.Codec.Settings
import Inflow.Proofs.Codec.Form
/-!
# Settings that are read back

For coal tables, models and settings: which of them have a written form, what
may be left out of it, and what is read then. All of it but the entries of a
coal table may be left out, and each value has a default of its own.
-/

namespace Inflow

open Json (Omission)
open Form Json.Omission

variable {D : Omission}

/-! ## Coals -/

namespace Coal

/-- The numbers of a coal have a written form. -/
structure Storable (c : Coal Float) : Prop where
  density : c.density.isFinite
  specificHeat : c.specificHeat.isFinite
  waterFraction : c.waterFraction.isFinite
  ashFraction : c.ashFraction.isFinite

theorem keeps_form {c : Coal Float} (h : c.Storable) : form.Keeps c := by
  refine Reads.keeps (by decide) ?_
  refine .required rfl ((keeps_real h.density).without clear_none) ?_
  refine .required rfl ((keeps_real h.specificHeat).without clear_none) ?_
  refine .required rfl ((keeps_real h.waterFraction).without clear_none) ?_
  refine .required rfl ((keeps_real h.ashFraction).without clear_none) ?_
  exact .nil _

end Coal

/-! ## Models -/

theorem PhysicalModel.keeps_form (p : PhysicalModel) : form.Keeps p := by cases p <;> rfl

theorem ShapeModel.keeps_form (s : ShapeModel) : form.Keeps s := by cases s <;> rfl

namespace Model

/-- The numbers of a model have a written form. -/
structure Storable (m : Model Float) : Prop where
  classes : m.classes ≤ Count.limit
  coalLayers : m.coalLayers ≤ Count.limit
  coals : ∀ c ∈ m.coals, c.Storable

/-- What may be left out of a model. -/
def Omittable (path : List Json.Step) : Prop :=
  ∃ key ∈ ["physical_model", "n_stat_classes", "agglomeration", "shape", "fouling", "solve_temperature",
    "solve_temperature_seen", "solve_diameter", "solve_mass", "radiative_coupling", "n_coal_layers", "coals"],
    path = [.key key]

/-- The model with defaults in the place of what is left out. -/
def withDefaults (D : Omission) (m : Model Float) : Model Float where
  physics := if D.drops "physical_model" then .inert else m.physics
  classes := if D.drops "n_stat_classes" then 0 else m.classes
  agglomeration := if D.drops "agglomeration" then false else m.agglomeration
  shape := if D.drops "shape" then .sphere else m.shape
  fouling := if D.drops "fouling" then false else m.fouling
  solveTemperature := if D.drops "solve_temperature" then false else m.solveTemperature
  solveTemperatureSeen := if D.drops "solve_temperature_seen" then false else m.solveTemperatureSeen
  solveDiameter := if D.drops "solve_diameter" then false else m.solveDiameter
  solveMass := if D.drops "solve_mass" then false else m.solveMass
  radiativeCoupling := if D.drops "radiative_coupling" then false else m.radiativeCoupling
  coalLayers := if D.drops "n_coal_layers" then 1 else m.coalLayers
  coals := if D.drops "coals" then [] else m.coals

theorem reads {m : Model Float} (h : m.Storable) (hD : D.Within Omittable) :
    form.ofJson ((form.toJson m).without D) = .ok (m.withDefaults D) := by
  have clear : ∀ key, (D.under key).Clear := fun key => hD.under fun s path => by simp [Omittable]
  refine Reads.ofJson (by decide) ?_
  refine .implied rfl ((PhysicalModel.keeps_form _).without (clear _)) ?_
  refine .implied rfl ((keeps_count h.classes).without (clear _)) ?_
  refine .implied rfl ((keeps_boolean _).without (clear _)) ?_
  refine .implied rfl ((ShapeModel.keeps_form _).without (clear _)) ?_
  refine .implied rfl ((keeps_boolean _).without (clear _)) ?_
  refine .implied rfl ((keeps_boolean _).without (clear _)) ?_
  refine .implied rfl ((keeps_boolean _).without (clear _)) ?_
  refine .implied rfl ((keeps_boolean _).without (clear _)) ?_
  refine .implied rfl ((keeps_boolean _).without (clear _)) ?_
  refine .implied rfl ((keeps_boolean _).without (clear _)) ?_
  refine .implied rfl ((keeps_count h.coalLayers).without (clear _)) ?_
  refine .implied rfl ((keeps_list fun c hc => Coal.keeps_form (h.coals c hc)).without (clear _)) ?_
  exact .nil _

theorem withDefaults_none (m : Model Float) : m.withDefaults (fun _ => false) = m := rfl

end Model

/-! ## Settings -/

namespace Settings

/-- The numbers of settings have a written form. -/
structure Storable (s : Settings Float) : Prop where
  seed : s.seed ≤ Count.limit
  ceiling : s.ceiling ≤ Count.limit
  initialCapacity : s.initialCapacity ≤ Count.limit
  model : s.model.Storable

/-- What may be left out of settings. -/
inductive Omittable : List Json.Step → Prop
  | own {key} (h : key ∈ ["seed", "max_global_particles", "collect_tracking_events", "initial_capacity", "model"]) :
      Omittable [.key key]
  | model {path} (h : Model.Omittable path) : Omittable (.key "model" :: path)

theorem Omittable.inner {key : String} {s : Json.Step} {path : List Json.Step} (h : Omittable (.key key :: s :: path)) :
    key = "model" ∧ Model.Omittable (s :: path) := by
  cases h with
  | model h => exact ⟨rfl, h⟩

/-- The settings with defaults in the place of what is left out. -/
def withDefaults (D : Omission) (s : Settings Float) : Settings Float where
  seed := if D.drops "seed" then 0x5eed1a9e else s.seed
  ceiling := if D.drops "max_global_particles" then 18446744073709551615 else s.ceiling
  collectEvents := if D.drops "collect_tracking_events" then false else s.collectEvents
  initialCapacity := if D.drops "initial_capacity" then 1024 else s.initialCapacity
  model := if D.drops "model" then {} else s.model.withDefaults (D.under "model")

theorem reads {s : Settings Float} (h : s.Storable) (hD : D.Within Omittable) :
    form.ofJson ((form.toJson s).without D) = .ok (s.withDefaults D) := by
  have clear : ∀ key, key ≠ "model" → (D.under key).Clear := fun key hkey => hD.under fun _ _ hp => hkey hp.inner.1
  refine Reads.ofJson (by decide) ?_
  refine .implied rfl ((keeps_count h.seed).without (clear _ (by decide))) ?_
  refine .implied rfl ((keeps_count h.ceiling).without (clear _ (by decide))) ?_
  refine .implied rfl ((keeps_boolean _).without (clear _ (by decide))) ?_
  refine .implied rfl ((keeps_count h.initialCapacity).without (clear _ (by decide))) ?_
  refine .implied rfl (Model.reads h.model (hD.under fun _ _ hp => hp.inner.2)) ?_
  exact .nil _

end Settings
end Inflow
