import Inflow.Codec.Scenario
import Inflow.Proofs.Codec.Settings
import Inflow.Proofs.Codec.Registry
/-!
# Scenarios that are read back

A scenario that can be written is read back as it was. It is also read from
what remains when members that have a default are taken out, however many of
them and however deep they lie: then the defaults stand in their place, and
nothing else has changed.
-/

namespace Inflow

open Json (Omission)
open Form Json.Omission

variable {D : Omission}

namespace Box

/-- The numbers of a box have a written form. -/
structure Storable (b : Box Float) : Prop where
  layers : ∀ n ∈ b.layers, n ≤ Count.limit
  lengths : ∀ x ∈ b.lengths, x.isFinite

theorem keeps_form {b : Box Float} (h : b.Storable) : form.Keeps b := by
  refine Reads.keeps (by decide) ?_
  refine .required rfl ((keeps_vectorOf fun n hn => keeps_count (h.layers n hn)).without clear_none) ?_
  refine .required rfl ((keeps_vector h.lengths).without clear_none) ?_
  exact .nil _

end Box

namespace Scenario

/-- A scenario has a written form: its counts and ids are within the range that
they are stored in, its other numbers are finite, and its sets have no profiles. -/
structure Storable (s : Scenario Float) : Prop where
  settings : s.settings.Storable
  box : s.box.Storable
  registry : s.registry.Storable
  steps : s.steps ≤ Count.limit
  dtp : s.dtp.isFinite
  fluidVelocity : ∀ x ∈ s.fluidVelocity, x.isFinite
  fluidTemperature : s.fluidTemperature.isFinite

/-- What may be left out of a scenario. -/
inductive Omittable : List Json.Step → Prop
  | own {key}
      (h : key ∈ ["config", "mesh", "registry", "steps", "dtp", "fluid_velocity", "fluid_temperature"]) :
      Omittable [.key key]
  | config {path} (h : Settings.Omittable path) : Omittable (.key "config" :: path)
  | registry {path} (h : Registry.Omittable path) : Omittable (.key "registry" :: path)

theorem Omittable.inner {key : String} {s : Json.Step} {path : List Json.Step} (h : Omittable (.key key :: s :: path)) :
    key = "config" ∧ Settings.Omittable (s :: path) ∨ key = "registry" ∧ Registry.Omittable (s :: path) := by
  cases h with
  | config h => exact .inl ⟨rfl, h⟩
  | registry h => exact .inr ⟨rfl, h⟩

/-- The scenario with defaults in the place of what is left out. -/
def withDefaults (D : Omission) (s : Scenario Float) : Scenario Float where
  settings := if D.drops "config" then {} else s.settings.withDefaults (D.under "config")
  box := if D.drops "mesh" then .standard else s.box
  registry := if D.drops "registry" then {} else s.registry.withDefaults (D.under "registry")
  steps := if D.drops "steps" then 10 else s.steps
  dtp := if D.drops "dtp" then Scalar.ratio 1 1000 else s.dtp
  fluidVelocity := if D.drops "fluid_velocity" then Vector.replicate 3 0 else s.fluidVelocity
  fluidTemperature := if D.drops "fluid_temperature" then Scalar.ratio 29315 100 else s.fluidTemperature

theorem reads {s : Scenario Float} (h : s.Storable) (hD : D.Within Omittable) :
    form.ofJson ((form.toJson s).without D) = .ok (s.withDefaults D) := by
  have hconfig : (D.under "config").Within Settings.Omittable := hD.under fun s path hp => by simpa using hp.inner
  have hregistry : (D.under "registry").Within Registry.Omittable := hD.under fun s path hp => by simpa using hp.inner
  have clear : ∀ key, key ≠ "config" → key ≠ "registry" → (D.under key).Clear := fun key hc hr =>
    hD.under fun s path hp => by simpa [hc, hr] using hp.inner
  refine Reads.ofJson (by decide) ?_
  refine .implied rfl (Settings.reads h.settings hconfig) ?_
  refine .implied rfl ((Box.keeps_form h.box).without (clear _ (by decide) (by decide))) ?_
  refine .implied rfl (Registry.reads h.registry hregistry) ?_
  refine .implied rfl ((keeps_count h.steps).without (clear _ (by decide) (by decide))) ?_
  refine .implied rfl ((keeps_real h.dtp).without (clear _ (by decide) (by decide))) ?_
  refine .implied rfl ((keeps_vector h.fluidVelocity).without (clear _ (by decide) (by decide))) ?_
  refine .implied rfl ((keeps_real h.fluidTemperature).without (clear _ (by decide) (by decide))) ?_
  exact .nil _

theorem withDefaults_none {s : Scenario Float} (h : s.Storable) : s.withDefaults (fun _ => false) = s := by
  have hregistry := Registry.withDefaults_none h.registry
  exact congrArg (fun registry => { s with registry }) hregistry

/-- A scenario is read back from its document, and from what remains of it when
members with a default are taken out, with just those at their defaults. -/
theorem read_back {s : Scenario Float} (h : s.Storable) :
    form.ofJson (form.toJson s) = .ok s ∧
      ∀ D : Omission, (∀ path, D path = true → Omittable path) →
        form.ofJson ((form.toJson s).without D) = .ok (s.withDefaults D) := by
  constructor
  · have hread := reads h (D := fun _ => false) fun _ _ hs => (Bool.false_ne_true hs).elim
    rwa [Json.without_of_clear clear_none, withDefaults_none h] at hread
  · exact fun D hD => reads h fun s path hs => hD _ hs

/-! ## A scenario with parts left out -/

/-- Coal particles from a zone with a numbering. -/
def numbered : Scenario Float :=
  { standard with
    settings := { model := { physics := .coal, coals := [⟨1200, 1000, 0.1, 0.2⟩] } }
    registry := {
      boundary := [{
        zone := { id := 3, name := "inlet", kind := .boundary, elements := #[0, 2], globalIds := some #[7, 9] }
        nature := .inlet
        sets := [{ InjectionSet.standard with count := 5, velocity := .normal 2, diameter := 0.001 }] }] }
    steps := 7 }

/-- The numbering, the velocity of the set and the length of a step. -/
def partsLeftOut : Omission := fun path =>
  [[.key "dtp"], [.key "registry", .key "boundary", .item 0, .key "zone", .key "global_ids"],
    [.key "registry", .key "boundary", .item 0, .key "sets", .item 0, .key "velocity"]].contains path

theorem storable_numbered : numbered.Storable := by
  have hset : ∀ s ∈ [{ (InjectionSet.standard : InjectionSet Float) with
      count := 5, velocity := .normal 2, diameter := 0.001 }], s.Storable := by
    intro s hs
    rw [List.mem_singleton.1 hs]
    constructor
    case velocity => exact (by decide +kernel : (2 : Float).isFinite)
    case profile => rfl
    all_goals decide +kernel
  have hentry : ∀ e ∈ numbered.registry.boundary, e.Storable := by
    intro e he
    rw [List.mem_singleton.1 he]
    exact ⟨⟨by decide, by decide, by rintro _ ⟨⟩; decide⟩, hset⟩
  have hcoal : ∀ c ∈ numbered.settings.model.coals, c.Storable := by
    intro c hc
    rw [List.mem_singleton.1 hc]
    constructor <;> decide +kernel
  exact {
    settings := ⟨by decide, by decide, by decide, by decide, by decide, hcoal⟩
    box := ⟨by decide, by decide +kernel⟩
    registry := ⟨hentry, nofun⟩
    steps := by decide
    dtp := by decide +kernel
    fluidVelocity := by decide +kernel
    fluidTemperature := by decide +kernel }

theorem read_back_numbered :
    form.ofJson (form.toJson numbered) = .ok numbered ∧
      form.ofJson ((form.toJson numbered).without partsLeftOut) = .ok (numbered.withDefaults partsLeftOut) ∧
      ((numbered.withDefaults partsLeftOut).registry.boundary.map fun e => (e.zone.globalIds, e.sets.map (·.count))) =
        [(none, [5])] := by
  obtain ⟨hread, hwithout⟩ := read_back storable_numbered
  refine ⟨hread, hwithout partsLeftOut fun path hpath => ?_, by decide +kernel⟩
  rw [partsLeftOut, List.contains_iff_mem] at hpath
  simp only [List.mem_cons, List.not_mem_nil, or_false] at hpath
  rcases hpath with rfl | rfl | rfl
  · exact .own (by decide)
  · exact .registry (.entry (by decide) (.zone rfl))
  · exact .registry (.entry (by decide) (.set ⟨"velocity", by decide, rfl⟩))

end Scenario
end Inflow
