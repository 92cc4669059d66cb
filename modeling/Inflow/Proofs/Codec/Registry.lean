import Inflow.Codec.Registry
import Inflow.Proofs.Codec.Form
/-!
# Registries that are read back

For zones, velocities, sets and the registry: which of them have a written form,
what may be left out of it, and what is read then. A zone without a numbering is
written without one, a velocity names its variant, and a set falls back on the
standard set wherever it says nothing.
-/

namespace Inflow

open Json (Omission)
open Form Json.Omission

variable {D : Omission}

theorem ZoneKind.keeps_form (k : ZoneKind) : form.Keeps k := by cases k <;> rfl

theorem BoundaryNature.keeps_form (n : BoundaryNature) : form.Keeps n := by cases n <;> rfl

theorem TemperatureProfile.keeps_form (t : TemperatureProfile) : form.Keeps t := by cases t <;> rfl

/-! ## Zones -/

namespace Zone

/-- The ids of a zone have a written form. -/
structure Storable (z : Zone) : Prop where
  id : z.id ≤ Count.limit
  elements : ∀ e ∈ z.elements, e ≤ Count.limit
  globalIds : ∀ ids ∈ z.globalIds, ∀ i ∈ ids, i ≤ Count.limit

/-- What may be left out of a zone. -/
def Omittable (path : List Json.Step) : Prop := path = [.key "global_ids"]

/-- The zone without its numbering, if that is left out. -/
def withDefaults (D : Omission) (z : Zone) : Zone where
  id := z.id
  name := z.name
  kind := z.kind
  elements := z.elements
  globalIds := if D.drops "global_ids" then none else z.globalIds

theorem reads {z : Zone} (h : z.Storable) (hD : D.Within Omittable) :
    form.ofJson ((form.toJson z).without D) = .ok (z.withDefaults D) := by
  have clear : ∀ key, (D.under key).Clear := fun key => hD.under fun s path => by simp [Omittable]
  have keeps : ∀ key, key ≠ "global_ids" → D.drops key = false := fun key hkey =>
    hD.keeps fun hp => hkey (by simpa [Omittable] using hp)
  refine Reads.ofJson (by decide) ?_
  refine .required (keeps _ (by decide)) ((keeps_count h.id).without (clear _)) ?_
  refine .required (keeps _ (by decide)) ((keeps_text _).without (clear _)) ?_
  refine .required (keeps _ (by decide)) ((ZoneKind.keeps_form _).without (clear _)) ?_
  refine .required (keeps _ (by decide))
    ((keeps_array fun e he => keeps_count (h.elements e he)).without (clear _)) ?_
  -- The last column is not written for a zone without a numbering.
  obtain ⟨id, name, kind, elements, globalIds⟩ := z
  cases globalIds with
  | none =>
    refine .absent rfl (by simp [Column.implied]) ?_
    rw [withDefaults, ite_self]
    exact .nil _
  | some ids =>
    cases hd : D.drops "global_ids" with
    | true =>
      refine .absent (by simp [Column.remains, Column.implied, hd]) (by simp [Column.implied]) ?_
      rw [withDefaults, hd, if_pos rfl]
      exact .nil _
    | false =>
      have hids : (array count).Keeps ids := keeps_array fun i hi => keeps_count (h.globalIds ids rfl i hi)
      have hwritten : (array count).toJson ids ≠ .null := by
        intro hnull
        cases hnull
      refine .found (by simp [Column.remains, Column.implied, hd])
        ((keeps_nullable hids hwritten).without (clear "global_ids")) ?_
      rw [withDefaults, hd, if_neg Bool.false_ne_true]
      exact .nil _

theorem withDefaults_none (z : Zone) : z.withDefaults (fun _ => false) = z := rfl

end Zone

/-! ## Velocities -/

namespace Velocity

/-- The numbers of a velocity have a written form. -/
def Storable : Velocity Float → Prop
  | fluid => True
  | normal magnitude => magnitude.isFinite
  | components velocity => ∀ x ∈ velocity, x.isFinite

theorem isReadable_ofFloat (x : Float) : (Json.ofFloat x).isReadable = true := by
  rw [Json.ofFloat]
  split
  · simp [Json.isReadable, Json.Number.toFloat?, *]
  · rfl

theorem areReadable_map (xs : List Float) : Json.areReadable (xs.map .ofFloat) = true := by
  induction xs with
  | nil => rfl
  | cons x xs ih => rw [List.map_cons, Json.areReadable, isReadable_ofFloat, ih]; rfl

/-- What stands beside the type is read as the type says. -/
theorem ofJson_beside {tag key : String} {j : Json} (hkey : key ≠ "type") (hj : j.isReadable = true) :
    ofJson (.ofMembers [("type", .ofString tag), (key, j)]) = ofTagged tag (.ofMembers [(key, j)]) := by
  have hreadable : (Json.ofMembers [("type", .ofString tag), (key, j)]).isReadable = true := by
    simp [Json.ofMembers, Json.isReadable, Json.membersReadable, Json.ofString, hj]
  have hparts : (List.partition (·.1 == some "type") [(some "type", Json.ofString tag), (some key, j)]) =
      ([(some "type", Json.ofString tag)], [(some key, j)]) := by
    simp [List.partition_eq_filter_filter, hkey]
  rw [ofJson.eq_def, hreadable]
  simp only [Json.ofMembers, List.map_cons, List.map_nil, hparts]
  rfl

theorem keeps_form {v : Velocity Float} (h : v.Storable) : form.Keeps v := by
  cases v with
  | fluid => rfl
  | normal magnitude =>
    have hread : magnitudeForm.Keeps magnitude :=
      Reads.keeps (by decide) (.required rfl ((keeps_real h).without clear_none) (.nil _))
    have hread : magnitudeForm.ofJson (.ofMembers [("magnitude", .ofFloat magnitude)]) = .ok magnitude := hread
    refine (ofJson_beside (by decide) (isReadable_ofFloat magnitude)).trans ?_
    rw [ofTagged, hread]
    rfl
  | components velocity =>
    have hread : componentsForm.Keeps velocity :=
      Reads.keeps (by decide) (.required rfl ((keeps_vector h).without clear_none) (.nil _))
    have hread : componentsForm.ofJson (.ofMembers [("components", Encode.vector .ofFloat velocity)]) = .ok velocity :=
      hread
    refine (ofJson_beside (by decide) ?_).trans ?_
    · rw [Encode.vector, Encode.list, Json.isReadable]
      exact areReadable_map velocity.toList
    · rw [ofTagged, hread]
      rfl

end Velocity

/-! ## Sets -/

namespace InjectionSet

/-- The numbers of a set have a written form, and it has no profile. -/
structure Storable (s : InjectionSet Float) : Prop where
  zone : s.zone ≤ Count.limit
  id : s.id ≤ Count.limit
  count : s.count ≤ Count.limit
  frequency : -2 ^ 63 ≤ s.frequency ∧ s.frequency < 2 ^ 63
  profile : s.profile = none
  velocity : s.velocity.Storable
  temperature : s.temperature.isFinite
  diameter : s.diameter.isFinite
  diameterDeviation : s.diameterDeviation.isFinite
  density : s.density.isFinite
  specificHeat : s.specificHeat.isFinite
  emissivity : s.emissivity.isFinite
  weight : s.weight.isFinite
  flowRate : s.flowRate.isFinite
  statClass : s.statClass ≤ Count.limit
  aggregateClass : -2 ^ 31 ≤ s.aggregateClass ∧ s.aggregateClass < 2 ^ 31
  fractalDimension : s.fractalDimension.isFinite
  foulingIndex : s.foulingIndex.isFinite
  coalNumber : s.coalNumber ≤ Count.limit
  radii : ∀ x ∈ s.radii, x.isFinite
  orientation : ∀ x ∈ s.orientation, x.isFinite
  angularVelocity : ∀ x ∈ s.angularVelocity, x.isFinite
  shapeParameters : ∀ x ∈ s.shapeParameters, x.isFinite
  euler : ∀ x ∈ s.euler, x.isFinite

/-- What may be left out of a set: all of it. -/
def Omittable (path : List Json.Step) : Prop :=
  ∃ key ∈ ["zone_id", "set_id", "location", "n_inject", "injection_frequency", "velocity", "temperature_profile",
    "temperature", "diameter", "diameter_variance", "density", "cp", "emissivity", "stat_weight", "flow_rate",
    "cluster", "aggregate_class_id", "aggregate_fractal_dim", "fouling_index", "coal_number", "radii", "orientation",
    "angular_velocity", "shape_param", "euler"], path = [.key key]

/-- The set with the values of the standard set in the place of what is left out. -/
def withDefaults (D : Omission) (s : InjectionSet Float) : InjectionSet Float where
  zone := if D.drops "zone_id" then 0 else s.zone
  id := if D.drops "set_id" then 0 else s.id
  location := if D.drops "location" then .boundary else s.location
  count := if D.drops "n_inject" then 0 else s.count
  frequency := if D.drops "injection_frequency" then 1 else s.frequency
  profile := none
  velocity := if D.drops "velocity" then .fluid else s.velocity
  temperatureProfile := if D.drops "temperature_profile" then .seen else s.temperatureProfile
  temperature := if D.drops "temperature" then standard.temperature else s.temperature
  diameter := if D.drops "diameter" then standard.diameter else s.diameter
  diameterDeviation := if D.drops "diameter_variance" then standard.diameterDeviation else s.diameterDeviation
  density := if D.drops "density" then standard.density else s.density
  specificHeat := if D.drops "cp" then standard.specificHeat else s.specificHeat
  emissivity := if D.drops "emissivity" then standard.emissivity else s.emissivity
  weight := if D.drops "stat_weight" then standard.weight else s.weight
  flowRate := if D.drops "flow_rate" then standard.flowRate else s.flowRate
  statClass := if D.drops "cluster" then 0 else s.statClass
  aggregateClass := if D.drops "aggregate_class_id" then 1 else s.aggregateClass
  fractalDimension := if D.drops "aggregate_fractal_dim" then standard.fractalDimension else s.fractalDimension
  foulingIndex := if D.drops "fouling_index" then standard.foulingIndex else s.foulingIndex
  coalNumber := if D.drops "coal_number" then 1 else s.coalNumber
  radii := if D.drops "radii" then standard.radii else s.radii
  orientation := if D.drops "orientation" then standard.orientation else s.orientation
  angularVelocity := if D.drops "angular_velocity" then standard.angularVelocity else s.angularVelocity
  shapeParameters := if D.drops "shape_param" then standard.shapeParameters else s.shapeParameters
  euler := if D.drops "euler" then standard.euler else s.euler

theorem reads {s : InjectionSet Float} (h : s.Storable) (hD : D.Within Omittable) :
    form.ofJson ((form.toJson s).without D) = .ok (s.withDefaults D) := by
  have clear : ∀ key, (D.under key).Clear := fun key => hD.under fun s path => by simp [Omittable]
  refine Reads.ofJson (by decide) ?_
  refine .implied rfl ((keeps_count h.zone).without (clear _)) ?_
  refine .implied rfl ((keeps_count h.id).without (clear _)) ?_
  refine .implied rfl ((ZoneKind.keeps_form _).without (clear _)) ?_
  refine .implied rfl ((keeps_count h.count).without (clear _)) ?_
  refine .implied rfl ((keeps_integerUpTo h.frequency.1 (Int.le_sub_one_of_lt h.frequency.2)).without (clear _)) ?_
  refine .implied rfl ((Velocity.keeps_form h.velocity).without (clear _)) ?_
  refine .implied rfl ((TemperatureProfile.keeps_form _).without (clear _)) ?_
  refine .implied rfl ((keeps_real h.temperature).without (clear _)) ?_
  refine .implied rfl ((keeps_real h.diameter).without (clear _)) ?_
  refine .implied rfl ((keeps_real h.diameterDeviation).without (clear _)) ?_
  refine .implied rfl ((keeps_real h.density).without (clear _)) ?_
  refine .implied rfl ((keeps_real h.specificHeat).without (clear _)) ?_
  refine .implied rfl ((keeps_real h.emissivity).without (clear _)) ?_
  refine .implied rfl ((keeps_real h.weight).without (clear _)) ?_
  refine .implied rfl ((keeps_real h.flowRate).without (clear _)) ?_
  refine .implied rfl ((keeps_count h.statClass).without (clear _)) ?_
  refine .implied rfl
    ((keeps_integerUpTo h.aggregateClass.1 (Int.le_sub_one_of_lt h.aggregateClass.2)).without (clear _)) ?_
  refine .implied rfl ((keeps_real h.fractalDimension).without (clear _)) ?_
  refine .implied rfl ((keeps_real h.foulingIndex).without (clear _)) ?_
  refine .implied rfl ((keeps_count h.coalNumber).without (clear _)) ?_
  refine .implied rfl ((keeps_vector h.radii).without (clear _)) ?_
  refine .implied rfl ((keeps_vector h.orientation).without (clear _)) ?_
  refine .implied rfl ((keeps_vector h.angularVelocity).without (clear _)) ?_
  refine .implied rfl ((keeps_vector h.shapeParameters).without (clear _)) ?_
  refine .implied rfl ((keeps_vector h.euler).without (clear _)) ?_
  exact .nil _

theorem withDefaults_none {s : InjectionSet Float} (h : s.profile = none) : s.withDefaults (fun _ => false) = s := by
  cases s
  cases h
  rfl

end InjectionSet

/-! ## The registry -/

namespace ZoneEntry

/-- The zone and the sets of an entry have a written form. -/
structure Storable (e : ZoneEntry Float) : Prop where
  zone : e.zone.Storable
  sets : ∀ s ∈ e.sets, s.Storable

/-- What may be left out of an entry. -/
inductive Omittable : List Json.Step → Prop
  | own {key} (h : key ∈ ["nature", "sets"]) : Omittable [.key key]
  | zone {path} (h : Zone.Omittable path) : Omittable (.key "zone" :: path)
  | set {i path} (h : InjectionSet.Omittable path) : Omittable (.key "sets" :: .item i :: path)

theorem Omittable.single {key : String} (h : Omittable [.key key]) : key ∈ ["nature", "sets"] := by
  cases h with
  | own h => exact h
  | zone h => cases h

theorem Omittable.inner {key : String} {s : Json.Step} {path : List Json.Step} (h : Omittable (.key key :: s :: path)) :
    key = "zone" ∧ Zone.Omittable (s :: path) ∨
      key = "sets" ∧ ∃ i, s = .item i ∧ InjectionSet.Omittable path := by
  cases h with
  | zone h => exact .inl ⟨rfl, h⟩
  | set h => exact .inr ⟨rfl, _, rfl, h⟩

/-- The entry with defaults in the place of what is left out. -/
def withDefaults (D : Omission) (e : ZoneEntry Float) : ZoneEntry Float where
  zone := e.zone.withDefaults (D.under "zone")
  nature := if D.drops "nature" then .undefined else e.nature
  sets := if D.drops "sets" then [] else e.sets.mapIdx fun i s => s.withDefaults ((D.under "sets").inItem i)

theorem reads {e : ZoneEntry Float} (h : e.Storable) (hD : D.Within Omittable) :
    form.ofJson ((form.toJson e).without D) = .ok (e.withDefaults D) := by
  have hzone : (D.under "zone").Within Zone.Omittable := hD.under fun s path hp => by simpa using hp.inner
  have hset : ∀ i, ((D.under "sets").inItem i).Within InjectionSet.Omittable := fun i s path hs => by
    simpa using (hD _ _ hs).inner
  have hnature : (D.under "nature").Clear := hD.under fun s path hp => by simpa using hp.inner
  refine Reads.ofJson (by decide) ?_
  refine .required (hD.keeps fun hp => by simpa using hp.single) (Zone.reads h.zone hzone) ?_
  refine .implied rfl ((BoundaryNature.keeps_form _).without hnature) ?_
  refine .implied rfl (list_without fun i s hs => InjectionSet.reads (h.sets s (List.mem_of_getElem? hs)) (hset i)) ?_
  exact .nil _

theorem withDefaults_none {e : ZoneEntry Float} (h : e.Storable) : e.withDefaults (fun _ => false) = e := by
  have hsets : (e.sets.mapIdx fun _ s => s.withDefaults fun _ => false) = e.sets := by
    rw [List.mapIdx_eq_iff]
    intro i
    cases hs : e.sets[i]? with
    | none => rfl
    | some s => simp [InjectionSet.withDefaults_none (h.sets s (List.mem_of_getElem? hs)).profile]
  exact congrArg (fun sets => { e with sets }) hsets

end ZoneEntry

namespace Registry

/-- The entries of a registry have a written form. -/
structure Storable (r : Registry Float) : Prop where
  boundary : ∀ e ∈ r.boundary, e.Storable
  volume : ∀ e ∈ r.volume, e.Storable

/-- What may be left out of a registry. -/
inductive Omittable : List Json.Step → Prop
  | own {key} (h : key ∈ ["boundary", "volume"]) : Omittable [.key key]
  | entry {key i path} (h : key ∈ ["boundary", "volume"]) (hentry : ZoneEntry.Omittable path) :
      Omittable (.key key :: .item i :: path)

theorem Omittable.inner {key : String} {s : Json.Step} {path : List Json.Step} (h : Omittable (.key key :: s :: path)) :
    ∃ i, s = .item i ∧ ZoneEntry.Omittable path := by
  cases h with
  | entry _ hentry => exact ⟨_, rfl, hentry⟩

/-- The registry with defaults in the place of what is left out. -/
def withDefaults (D : Omission) (r : Registry Float) : Registry Float where
  boundary := if D.drops "boundary" then [] else
    r.boundary.mapIdx fun i e => e.withDefaults ((D.under "boundary").inItem i)
  volume := if D.drops "volume" then [] else r.volume.mapIdx fun i e => e.withDefaults ((D.under "volume").inItem i)

theorem reads {r : Registry Float} (h : r.Storable) (hD : D.Within Omittable) :
    form.ofJson ((form.toJson r).without D) = .ok (r.withDefaults D) := by
  have hentry : ∀ key i, ((D.under key).inItem i).Within ZoneEntry.Omittable := fun key i s path hs => by
    simpa using (hD _ _ hs).inner
  refine Reads.ofJson (by decide) ?_
  refine .implied rfl
    (list_without fun i e he => ZoneEntry.reads (h.boundary e (List.mem_of_getElem? he)) (hentry _ i)) ?_
  refine .implied rfl
    (list_without fun i e he => ZoneEntry.reads (h.volume e (List.mem_of_getElem? he)) (hentry _ i)) ?_
  exact .nil _

theorem withDefaults_none {r : Registry Float} (h : r.Storable) : r.withDefaults (fun _ => false) = r := by
  have hentries : ∀ es : List (ZoneEntry Float), (∀ e ∈ es, e.Storable) →
      (es.mapIdx fun _ e => e.withDefaults fun _ => false) = es := by
    intro es hes
    rw [List.mapIdx_eq_iff]
    intro i
    cases he : es[i]? with
    | none => rfl
    | some e => simp [ZoneEntry.withDefaults_none (hes e (List.mem_of_getElem? he))]
  have hboundary := hentries r.boundary h.boundary
  have hvolume := hentries r.volume h.volume
  cases r
  exact congr (congrArg Registry.mk hboundary) hvolume

end Registry
end Inflow
