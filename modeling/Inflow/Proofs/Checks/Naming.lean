import Inflow.Proofs.Checks.Setup
/-!
# What the issues of a report name

A report goes through the registry zone by zone, the zone itself first and then its
sets. What is wrong with a zone is told under the name of the zone. A set tells what is
wrong with it under its own copies of location and zone, so these issues name the zone
that the set stands in only where the copies are right. One of them is looked at: a set
with another location than its zone's container is reported as such. The other is not.
-/

namespace Inflow

variable {α : Type}

/-- What an issue can be about: a zone that stands among those of a kind, or one of its sets. -/
structure Subject (α : Type) where
  kind : ZoneKind
  entry : ZoneEntry α
  set : Option (InjectionSet α)

/-- Zone by zone, the zone and then its sets. -/
def Registry.subjects (r : Registry α) : List (Subject α) :=
  ZoneKind.all.flatMap fun kind => (r.zones kind).flatMap fun entry =>
    { kind, entry, set := none } :: entry.sets.map fun s => { kind, entry, set := some s }

/-- The issue names its subject. -/
structure Issue.Names (i : Issue α) (x : Subject α) : Prop where
  location : i.location = x.kind
  zone : i.zone = x.entry.zone.id
  set : i.set = x.set.map (·.id)

/-- The copies that a set has of the location and the zone it stands in are right. -/
structure InjectionSet.KnowsPlace (s : InjectionSet α) (kind : ZoneKind) (entry : ZoneEntry α) : Prop where
  location : s.location = kind
  zone : s.zone = entry.zone.id

/-- The subject is a zone, or a set that knows where it stands. -/
def Subject.KnowsPlace (x : Subject α) : Prop := ∀ s ∈ x.set, s.KnowsPlace x.kind x.entry

/-- An entry to which sets were added one by one. -/
inductive ZoneEntry.Assembled : ZoneEntry α → Prop
  | new (zone : Zone) (nature : BoundaryNature) : Assembled { zone, nature }
  | addSet {e : ZoneEntry α} (before : Assembled e) (s : InjectionSet α) : Assembled (e.addSet s)

/-- A set that is added to an entry is told where it stands. -/
theorem ZoneEntry.Assembled.knowsPlace {e : ZoneEntry α} (h : e.Assembled) :
    ∀ s ∈ e.sets, s.KnowsPlace e.zone.kind e := by
  induction h with
  | new zone nature => exact fun s hs => absurd hs List.not_mem_nil
  | @addSet e _ added ih =>
    intro s hs
    rcases List.mem_append.1 hs with hold | hnew
    · exact ⟨(ih s hold).location, (ih s hold).zone⟩
    · rw [List.mem_singleton.1 hnew]
      exact ⟨rfl, rfl⟩

variable [Scalar α]

/-! ## What can be wrong with a set -/

omit [Scalar α] in
theorem mem_complain {condition : Bool} {value : α} {complaint : Complaint} {found : α × Complaint} :
    found ∈ complain condition value complaint ↔ condition = true ∧ found = (value, complaint) := by
  unfold complain
  split <;> simp [*]

namespace InjectionSet

variable {s : InjectionSet α} {m : Model α} {i : Issue α}

theorem complaint_ne_location_of_composition {c : Coal α} {found : α × Complaint}
    (h : found ∈ compositionComplaints c) : found.2 ≠ .location := by
  simp only [compositionComplaints, List.mem_append, mem_complain] at h
  rcases h with (((⟨-, rfl⟩ | ⟨-, rfl⟩) | ⟨-, rfl⟩) | ⟨-, rfl⟩) | ⟨-, rfl⟩ <;> simp

/-- A set does not look at where it stands. -/
theorem complaint_ne_location (h : i ∈ s.issues m) : i.complaint ≠ .location := by
  unfold issues at h
  obtain ⟨found, hfound, rfl⟩ := List.mem_map.1 h
  simp only [List.mem_append] at hfound
  rcases hfound with (((hclass | hamount) | hsize) | hheat) | hcoal
  · simp only [classComplaints, List.mem_append, mem_complain] at hclass
    rcases hclass with (⟨-, rfl⟩ | ⟨-, rfl⟩) | ⟨-, rfl⟩ <;> simp
  · unfold amountComplaints at hamount
    simp only [List.mem_append, mem_complain] at hamount
    rcases hamount with (hvelocity | ⟨-, rfl⟩) | ⟨-, rfl⟩
    · split at hvelocity
      · obtain ⟨-, rfl⟩ := mem_complain.1 hvelocity
        simp
      · cases hvelocity
    · simp
    · simp
  · simp only [sizeComplaints, List.mem_append, List.mem_flatMap, mem_complain] at hsize
    rcases hsize with (((⟨-, rfl⟩ | ⟨-, rfl⟩) | ⟨-, rfl⟩) | ⟨-, rfl⟩) | ⟨r, -, -, rfl⟩ <;> simp
  · simp only [heatComplaints, List.mem_append, mem_complain] at hheat
    rcases hheat with (⟨-, rfl⟩ | ⟨-, rfl⟩) | ⟨-, rfl⟩ <;> simp
  · unfold coalComplaints at hcoal
    split at hcoal
    · simp only [List.mem_append, mem_complain] at hcoal
      rcases hcoal with (⟨-, rfl⟩ | ⟨-, rfl⟩) | hcomposition
      · simp
      · simp
      · split at hcomposition
        · exact complaint_ne_location_of_composition hcomposition
        · cases hcomposition
    · cases hcoal

/-- A set tells what is wrong with it under the names that it has. -/
theorem own_names (h : i ∈ s.issues m) : i.location = s.location ∧ i.zone = s.zone ∧ i.set = some s.id := by
  unfold issues at h
  obtain ⟨found, -, rfl⟩ := List.mem_map.1 h
  exact ⟨rfl, rfl, rfl⟩

end InjectionSet

/-! ## Subject by subject -/

namespace Subject

/-- A set that has another location than the container of its zone. -/
def misplaced (kind : ZoneKind) (entry : ZoneEntry α) (s : InjectionSet α) : List (Issue α) :=
  if s.location != kind then
    [{ location := kind, zone := entry.zone.id, set := some s.id, value := Scalar.ofNat s.zone,
       complaint := .location }]
  else []

/-- What is reported of a zone itself, or of one of its sets. -/
def issues (x : Subject α) (m : Model α) : List (Issue α) :=
  match x.set with
  | none => (x.entry.zoneComplaints x.kind m).map fun complaint =>
      { location := x.kind, zone := x.entry.zone.id, set := none, value := Scalar.ofNat x.entry.zone.id, complaint }
  | some s => misplaced x.kind x.entry s ++ s.issues m

theorem mem_misplaced {kind : ZoneKind} {entry : ZoneEntry α} {s : InjectionSet α} {i : Issue α} :
    i ∈ misplaced kind entry s ↔ s.location ≠ kind ∧
    i = { location := kind, zone := entry.zone.id, set := some s.id, value := Scalar.ofNat s.zone,
          complaint := .location } := by
  unfold misplaced
  split <;> simp_all

variable {x : Subject α} {m : Model α} {i : Issue α}

/-- What is wrong with a zone is told under its name. What is wrong with a set is told
under its id, but with the location and the zone that the set has noted. -/
theorem names_iff (x : Subject α) (h : i ∈ x.issues m) :
    i.set = x.set.map (·.id) ∧ (i.Names x ↔ i.complaint = .location ∨ x.KnowsPlace) := by
  obtain ⟨kind, entry, set⟩ := x
  cases set with
  | none =>
    obtain ⟨complaint, -, rfl⟩ := List.mem_map.1 h
    exact ⟨rfl, fun _ => .inr fun s hs => (Option.not_mem_none s hs).elim, fun _ => ⟨rfl, rfl, rfl⟩⟩
  | some s =>
    rcases List.mem_append.1 h with hmisplaced | hown
    · obtain ⟨-, rfl⟩ := mem_misplaced.1 hmisplaced
      exact ⟨rfl, fun _ => .inl rfl, fun _ => ⟨rfl, rfl, rfl⟩⟩
    · obtain ⟨hlocation, hzone, hset⟩ := InjectionSet.own_names hown
      refine ⟨hset, fun hnames => .inr ?_, fun hright => ?_⟩
      · rintro _ ⟨⟩
        exact ⟨hlocation.symm.trans hnames.location, hzone.symm.trans hnames.zone⟩
      · have hplace := hright.resolve_left (InjectionSet.complaint_ne_location hown) s rfl
        exact ⟨hlocation.trans hplace.location, hzone.trans hplace.zone, hset⟩

/-- A set with another location than its zone's container is reported for it by its right name. -/
theorem exists_misplaced (x : Subject α) {s : InjectionSet α} (hs : s ∈ x.set) (h : s.location ≠ x.kind) :
    ∃ i ∈ x.issues m, i.complaint = .location ∧ i.Names x := by
  obtain ⟨kind, entry, set⟩ := x
  obtain rfl := Option.mem_def.1 hs
  exact ⟨_, List.mem_append_left _ (mem_misplaced.2 ⟨h, rfl⟩), rfl, rfl, rfl, rfl⟩

end Subject

namespace Registry

variable {r : Registry α}

theorem entry_issues_eq (e : ZoneEntry α) (kind : ZoneKind) (m : Model α) : e.issues kind m =
    Subject.issues ⟨kind, e, none⟩ m ++ e.sets.flatMap fun s => Subject.issues ⟨kind, e, some s⟩ m := rfl

/-- The report is what there is to report of each subject, in their order. -/
theorem issues_eq_flatMap_subjects (r : Registry α) (m : Model α) :
    r.issues m = r.subjects.flatMap (·.issues m) := by
  simp only [issues, subjects, List.flatMap_assoc, List.flatMap_cons, List.flatMap_map, entry_issues_eq]

omit [Scalar α] in
theorem mem_subjects {x : Subject α} : x ∈ r.subjects ↔ x.entry ∈ r.zones x.kind ∧ ∀ s ∈ x.set, s ∈ x.entry.sets := by
  obtain ⟨kind, entry, set⟩ := x
  have hkind : kind ∈ ZoneKind.all := by cases kind <;> simp [ZoneKind.all]
  cases set <;> simp [subjects, hkind]

/-- A report goes through the registry subject by subject. An issue about a zone names
it. An issue about a set has the id of the set, and names the zone that the set stands in
if and only if it is about the location or the copies that the set has are right. They
are right for sets that were added to a zone of the right kind. And wherever a set has a
wrong location, there is an issue about this that names the zone. -/
theorem issues_named (r : Registry α) (m : Model α) :
    r.issues m = r.subjects.flatMap (·.issues m) ∧ ∀ x ∈ r.subjects,
      (∀ i ∈ x.issues m, i.set = x.set.map (·.id) ∧ (i.Names x ↔ i.complaint = .location ∨ x.KnowsPlace)) ∧
      (x.entry.Assembled → x.entry.zone.kind = x.kind → x.KnowsPlace) ∧
      ∀ s ∈ x.set, s.location ≠ x.kind → ∃ i ∈ r.issues m, i.complaint = .location ∧ i.Names x := by
  refine ⟨issues_eq_flatMap_subjects r m, fun x hx => ⟨fun i hi => x.names_iff hi, fun hassembled hkind s hs => ?_, ?_⟩⟩
  · have hplace := hassembled.knowsPlace s ((mem_subjects.1 hx).2 s hs)
    rwa [hkind] at hplace
  · intro s hs hlocation
    obtain ⟨i, hi, hfound⟩ := x.exists_misplaced (m := m) hs hlocation
    refine ⟨i, ?_, hfound⟩
    rw [issues_eq_flatMap_subjects]
    exact List.mem_flatMap.2 ⟨x, hx, hi⟩

/-! ## A set under a strange name -/

/-- A set of a density that no particle can have. -/
def hollowSet : InjectionSet Float := { InjectionSet.standard with density := -1 }

def fifthZone : ZoneEntry Float := { zone := { id := 5, name := "inlet", kind := .boundary, elements := #[0] } }

/-- Two zones with the number five. The set of the first was added to it; that of
the second stands there as it is, with all that was left open filled in. -/
def strayRegistry : Registry Float where
  boundary := [fifthZone.addSet hollowSet, { fifthZone with sets := [hollowSet] }]

/-- The set that was added, where it stands. -/
def addedSubject : Subject Float where
  kind := .boundary
  entry := fifthZone.addSet hollowSet
  set := some { hollowSet with zone := 5 }

/-- The set that was added is reported by its right name. -/
theorem issues_named_added : addedSubject ∈ strayRegistry.subjects ∧
    ∃ i ∈ strayRegistry.issues {}, i.complaint = .density ∧ i.Names addedSubject := by
  have hx : addedSubject ∈ strayRegistry.subjects := List.mem_cons_of_mem _ List.mem_cons_self
  obtain ⟨hreport, hsubjects⟩ := issues_named strayRegistry {}
  obtain ⟨hnames, hplaces, -⟩ := hsubjects addedSubject hx
  have hany : (addedSubject.issues {}).any (·.complaint == .density) = true := by decide +kernel
  obtain ⟨i, hi, hdensity⟩ := List.any_eq_true.1 hany
  refine ⟨hx, i, ?_, beq_iff_eq.1 hdensity, (hnames i hi).2.2 (.inr (hplaces (.addSet (.new _ _) _) rfl))⟩
  rw [hreport]
  exact List.mem_flatMap.2 ⟨addedSubject, hx, hi⟩

/-- The other set is reported under a number that no zone has. -/
theorem set_misnamed : (∃ i ∈ strayRegistry.issues {}, i.set = some 0 ∧ i.complaint = .density ∧ i.zone = 0) ∧
    ∀ kind, ∀ e ∈ strayRegistry.zones kind, e.zone.id = 5 := by
  constructor
  · have hany : (strayRegistry.issues {}).any (fun i => i.set == some 0 && (i.complaint == .density && i.zone == 0)) =
        true := by decide +kernel
    simpa only [List.any_eq_true, Bool.and_eq_true, beq_iff_eq] using hany
  · intro kind e he
    cases kind with
    | boundary =>
      rcases List.mem_pair.1 he with rfl | rfl
      · rfl
      · rfl
    | volume => cases he

end Registry
end Inflow
