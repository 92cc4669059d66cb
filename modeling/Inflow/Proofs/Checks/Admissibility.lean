import Inflow.Checks.Admissibility
import Inflow.Proofs.Fault
import Inflow.Proofs.Scalar.Order
/-!
# What the check of particles finds

The check reports nothing about a particle exactly if none of its attributes is
at most zero, or below zero. That is less than being above zero, or not below it:
a scalar that compares with nothing is none of these. Among scalars that are
numbers the two are the same.
-/

namespace Inflow.Admissibility

variable {α : Type}

/-- All layers of coal, and the diameters of their particle, have a property. -/
structure Layered (P : α → Prop) (c : CoalLayers α) : Prop where
  waterMass : ∀ x ∈ c.waterMass, P x
  coalMass : ∀ x ∈ c.coalMass, P x
  cokeMass : ∀ x ∈ c.cokeMass, P x
  density : ∀ x ∈ c.density, P x
  shrinkingDiameter : P c.shrinkingDiameter
  initialDiameter : P c.initialDiameter

/-- The attributes that are checked have the properties asked of them: one for
sizes, weights and the specific heat, and one for the layers of coal. -/
structure Meets (m : Model α) (size layer : α → Prop) (p : Particle α) : Prop where
  diameter : size p.diameter
  mass : size p.mass
  weight : size p.weight
  specificHeat : m.hasSpecificHeat → size p.specificHeat
  coal : m.burnsCoal → ∀ c, p.coal = some c → Layered layer c

variable {m : Model α} {size size' size'' layer layer' layer'' : α → Prop} {p : Particle α}

/-- Two properties of each attribute give a third. -/
theorem Meets.and_imp (h : Meets m size layer p) (h' : Meets m size' layer' p)
    (hsize : ∀ x, size x → size' x → size'' x) (hlayer : ∀ x, layer x → layer' x → layer'' x) :
    Meets m size'' layer'' p where
  diameter := hsize _ h.diameter h'.diameter
  mass := hsize _ h.mass h'.mass
  weight := hsize _ h.weight h'.weight
  specificHeat hm := hsize _ (h.specificHeat hm) (h'.specificHeat hm)
  coal hm c hc :=
    have hl := h.coal hm c hc
    have hl' := h'.coal hm c hc
    ⟨fun x hx => hlayer x (hl.waterMass x hx) (hl'.waterMass x hx),
      fun x hx => hlayer x (hl.coalMass x hx) (hl'.coalMass x hx),
      fun x hx => hlayer x (hl.cokeMass x hx) (hl'.cokeMass x hx),
      fun x hx => hlayer x (hl.density x hx) (hl'.density x hx),
      hlayer _ hl.shrinkingDiameter hl'.shrinkingDiameter, hlayer _ hl.initialDiameter hl'.initialDiameter⟩

variable [Scalar α]

/-- All attributes of the particle are as they should be. -/
def Admissible (m : Model α) (p : Particle α) : Prop := Meets m (0 < ·) (0 ≤ ·) p

/-- All attributes of the particle that are checked are numbers, so at most themselves. -/
def Numeric (m : Model α) (p : Particle α) : Prop := Meets m (fun x => x ≤ x) (fun x => x ≤ x) p

/-- The check has nothing against the particle. -/
def Unopposed (m : Model α) (p : Particle α) : Prop := Meets m (fun x => ¬ x ≤ 0) (fun x => ¬ x < 0) p

/-! ## The check -/

variable {i : Nat} {what : Attribute}

theorem needPositive_eq_nil {x : α} : needPositive i what x = [] ↔ ¬ x ≤ 0 := by
  unfold needPositive
  split <;> simp_all

theorem needNonNegative_eq_nil {layer : Option Nat} {x : α} : needNonNegative i what layer x = [] ↔ ¬ x < 0 := by
  unfold needNonNegative
  split <;> simp_all

theorem layerViolations_eq_nil {values : Array α} : layerViolations i what values = [] ↔ ∀ x ∈ values, ¬ x < 0 := by
  simp only [layerViolations, List.flatMap_eq_nil_iff, needNonNegative_eq_nil]
  constructor
  · intro h x hx
    obtain ⟨k, hk⟩ := List.getElem?_of_mem (Array.mem_toList_iff.2 hx)
    exact h (x, k) (List.mem_zipIdx_iff_getElem?.2 hk)
  · rintro h ⟨x, k⟩ hx
    exact h x (Array.mem_toList_iff.1 (List.mem_of_getElem? (List.mem_zipIdx_iff_getElem?.1 hx)))

theorem coalViolations_eq_nil {c : CoalLayers α} : coalViolations i c = [] ↔ Layered (fun x => ¬ x < 0) c := by
  simp only [coalViolations, List.append_eq_nil_iff, layerViolations_eq_nil, needNonNegative_eq_nil, and_assoc]
  constructor
  · rintro ⟨hwater, hcoal, hcoke, hdensity, hshrinking, hinitial⟩
    exact ⟨hwater, hcoal, hcoke, hdensity, hshrinking, hinitial⟩
  · rintro ⟨hwater, hcoal, hcoke, hdensity, hshrinking, hinitial⟩
    exact ⟨hwater, hcoal, hcoke, hdensity, hshrinking, hinitial⟩

/-- A particle is not reported exactly if the check has nothing against it. -/
theorem particleViolations_eq_nil : particleViolations m i p = [] ↔ Unopposed m p := by
  simp only [particleViolations, List.append_eq_nil_iff, ite_eq_right_iff, needPositive_eq_nil, and_assoc]
  constructor
  · rintro ⟨hdiameter, hmass, hweight, hspecificHeat, hlayers⟩
    refine ⟨hdiameter, hmass, hweight, hspecificHeat, fun hm c hc => ?_⟩
    have hnone := hlayers hm
    simp only [hc] at hnone
    exact coalViolations_eq_nil.1 hnone
  · rintro ⟨hdiameter, hmass, hweight, hspecificHeat, hlayers⟩
    refine ⟨hdiameter, hmass, hweight, hspecificHeat, fun hm => ?_⟩
    split
    · exact coalViolations_eq_nil.2 (hlayers hm _ ‹_›)
    · rfl

/-- Where no particle is reported, the check has nothing against any of them. -/
theorem unopposed_of_violations {first : Nat} {ps : Array (Particle α)} (h : violations m first ps = .ok []) :
    ∀ p ∈ ps, Unopposed m p := by
  obtain ⟨found, hfound, hnone⟩ := bind_eq_ok.1 h
  intro p hp
  obtain ⟨k, hk⟩ := List.getElem?_of_mem (Array.mem_toList_iff.2 hp)
  have hmem : (p, k) ∈ ps.toList.zipIdx := List.mem_zipIdx_iff_getElem?.2 hk
  obtain ⟨own, hown, hcheck⟩ := exists_mem_of_mapM_eq_ok hfound hmem
  obtain ⟨i, -, hcheck⟩ := bind_eq_ok.1 hcheck
  rw [pure_eq_ok] at hnone hcheck
  rw [hcheck] at hown
  exact particleViolations_eq_nil.1 (List.flatten_eq_nil_iff.1 hnone.symm _ hown)

theorem violations_eq_error {first : Nat} {ps : Array (Particle α)} {f : Fault} (h : violations m first ps = .error f) :
    f = .overflow := by
  unfold violations at h
  obtain ⟨⟨p, i⟩, -, h⟩ := exists_mem_of_mapM_eq_error (bind_pure_eq_error.1 h)
  exact Count.checked_eq_error (bind_pure_eq_error.1 h)

/-! ## Numbers -/

variable [OrderedScalar α]

/-- A particle that the check has nothing against is admissible if and only if its attributes are numbers. -/
theorem admissible_iff_numeric (h : Unopposed m p) : Admissible m p ↔ Numeric m p := by
  constructor
  · intro hadmissible
    exact hadmissible.and_imp hadmissible (fun x hx _ => (OrderedScalar.ordered_of_le (OrderedScalar.le_of_lt hx)).2)
      fun x hx _ => (OrderedScalar.ordered_of_le hx).2
  · intro hnumeric
    refine h.and_imp hnumeric (fun x hx hself => ?_) fun x hx hself => ?_
    · have hle := (OrderedScalar.total hself OrderedScalar.zero_le_zero).resolve_left hx
      exact (OrderedScalar.lt_iff 0 x).2 ⟨hle, hx⟩
    · exact OrderedScalar.le_of_not_lt hself OrderedScalar.zero_le_zero hx

end Inflow.Admissibility
