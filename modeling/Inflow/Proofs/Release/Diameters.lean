import Inflow.Proofs.Checks.Admissibility
import Inflow.Proofs.Checks.Setup
import Inflow.Proofs.Injector.Release
import Inflow.Proofs.Scalar.Signs
import Inflow.Random.ChaCha
/-!
# Sampled diameters

The diameter of a particle is that of its set, or a normal deviate away from it and then
within three standard deviations. A set is accepted if three deviations do not exceed its
diameter, so every diameter can be sampled and none is below zero. Where three deviations
are as much as the diameter, the interval begins at zero, and a deviate that is far enough
below leaves a particle without size, which the check of particles reports.
-/

namespace Inflow.Release

variable {α γ : Type} [Scalar α]

/-- The diameter that a normal deviate gives. -/
def sampledDiameter (set : InjectionSet α) (deviate : α) : Checked α :=
  let spread := deviationLimit * set.diameterDeviation
  Scalar.clamp (set.diameter - spread) (set.diameter + spread) (set.diameter + deviate * set.diameterDeviation)

section Made

variable [Generator γ]

/-- A diameter that is drawn for a set: its own, or one that a deviate gives. -/
def DrawnDiameter (γ : Type) [Generator γ] (set : InjectionSet α) (d : α) : Prop :=
  if 0 < set.diameterDeviation then ∃ s : RandomStream γ, sampledDiameter set s.normal.1 = .ok d else d = set.diameter

theorem gives_diameter (set : InjectionSet α) : (diameter set : Drawing γ α).Gives (DrawnDiameter γ set) := by
  unfold diameter DrawnDiameter
  split
  · intro s d hd
    exact ⟨s, hd⟩
  · exact Drawing.gives_pure rfl

/-- A particle with its attributes, made of one without and a diameter. -/
def Made (x : Setting α) (set : InjectionSet α) (p : Particle α) (d : α) (p' : Particle α) : Prop :=
  withCoal x set (withShape x set (withHeat x set (withSize x set d p))) = .ok p'

/-- Every fresh particle is made with a diameter of its own. -/
theorem gives_made (x : Setting α) (set : InjectionSet α) (ps : Array (Particle α)) :
    (attributes x set ps : Drawing γ _).Gives fun ready =>
      ∀ p' ∈ ready, ∃ p d, DrawnDiameter γ set d ∧ Made x set p d p' := by
  have hone : ∀ p, (attributesOf x set p : Drawing γ _).Gives fun p' =>
      ∃ p d, DrawnDiameter γ set d ∧ Made x set p d p' :=
    fun p => Drawing.gives_bind (Drawing.gives_true _) fun velocity _ =>
      Drawing.gives_bind (gives_diameter set) fun d hd => Drawing.gives_check fun p' hp' => ⟨_, d, hd, hp'⟩
  refine Drawing.gives_bind (Drawing.gives_mapM hone _) fun ready hready => Drawing.gives_pure fun p' hp' => ?_
  obtain ⟨k, hk, rfl⟩ := List.mem_iff_getElem.1 (List.mem_toArray.1 hp')
  exact hready.get (hready.length_eq ▸ hk) hk

end Made

/-! ## What a made particle is like -/

variable {x : Setting α} {set : InjectionSet α} {p p' : Particle α} {d : α}

omit [Scalar α] in
theorem size_withHeat (x : Setting α) (set : InjectionSet α) (p : Particle α) :
    (withHeat x set p).diameter = p.diameter ∧ (withHeat x set p).mass = p.mass := by
  simp only [withHeat]
  split <;> exact ⟨rfl, rfl⟩

omit [Scalar α] in
theorem size_withShape (x : Setting α) (set : InjectionSet α) (p : Particle α) :
    (withShape x set p).diameter = p.diameter ∧ (withShape x set p).mass = p.mass := by
  simp only [withShape]
  split <;> exact ⟨rfl, rfl⟩

theorem size_withCoal (h : withCoal x set p = .ok p') : p'.diameter = p.diameter ∧ p'.mass = p.mass := by
  unfold withCoal at h
  split at h
  · obtain ⟨layers, -, h⟩ := bind_eq_ok.1 h
    rw [pure_eq_ok.1 h]
    exact ⟨rfl, rfl⟩
  · cases h
    exact ⟨rfl, rfl⟩

theorem diameter_of_made (h : Made x set p d p') : p'.diameter = d := by
  rw [(size_withCoal h).1, (size_withShape ..).1, (size_withHeat ..).1]
  rfl

/-! ## The interval of diameters -/

/-- A number is clipped to one end of an interval, or it is in there. -/
theorem clamp_cases [OrderedScalar α] {lo hi y : α} (h : lo ≤ hi) (hy : y ≤ y) :
    ∃ d, Scalar.clamp lo hi y = .ok d ∧ lo ≤ d ∧ d ≤ hi ∧ (d = lo ∧ y ≤ lo ∨ d = hi ∧ hi ≤ y ∨ d = y) := by
  obtain ⟨hlo, hhi⟩ := OrderedScalar.ordered_of_le h
  unfold Scalar.clamp
  rw [if_pos h]
  refine ⟨_, rfl, ?_⟩
  split
  · exact ⟨hlo, h, .inl ⟨rfl, OrderedScalar.le_of_lt ‹_›⟩⟩
  · split
    · exact ⟨h, hhi, .inr (.inl ⟨rfl, OrderedScalar.le_of_lt ‹_›⟩)⟩
    · exact ⟨OrderedScalar.le_of_not_lt hy hlo ‹_›, OrderedScalar.le_of_not_lt hhi hy ‹_›, .inr (.inr rfl)⟩

open Double Admissibility

variable {set : InjectionSet Float} {x : Setting Float}

/-- Whatever number the deviate is, there is a diameter for it, and it is within three standard
deviations. It is positive unless three deviations are as much as the diameter of the set, and
the deviate leads down to zero. -/
theorem exists_sampledDiameter {z : Float} (haccepted : set.issues x.model = [])
    (hdiameter : set.diameter.isFinite = true) (hdeviation : set.diameterDeviation.isFinite = true)
    (hpos : 0 < set.diameterDeviation) (hz : z ≤ z) :
    ∃ d, sampledDiameter set z = .ok d ∧ set.diameter - deviationLimit * set.diameterDeviation ≤ d ∧
      d ≤ set.diameter + deviationLimit * set.diameterDeviation ∧
      (0 < d ↔ deviationLimit * set.diameterDeviation < set.diameter ∨
        0 < set.diameter + z * set.diameterDeviation) := by
  have hreach := InjectionSet.spread_of_accepted haccepted
  obtain ⟨hspread, hle, hfin⟩ := isFinite_three_mul hpos hdeviation hdiameter hreach
  have hnumber := add_number hdiameter (mul_number hz hpos hdeviation)
  obtain ⟨d, hd, hlow, hhigh, hcases⟩ := clamp_cases (spread_le hpos hdeviation hdiameter hreach) hnumber
  have hend : 0 < set.diameter + deviationLimit * set.diameterDeviation :=
    OrderedScalar.lt_of_lt_of_le (OrderedScalar.lt_of_lt_of_le hspread hle)
      (le_add_self (OrderedScalar.le_of_lt hspread) hfin hdiameter)
  refine ⟨d, hd, hlow, hhigh, ?_⟩
  have hbegin : 0 < set.diameter - deviationLimit * set.diameterDeviation ↔
      deviationLimit * set.diameterDeviation < set.diameter := pos_sub_iff hdiameter hfin
  rw [← hbegin]
  rcases hcases with ⟨rfl, hy⟩ | ⟨rfl, hy⟩ | rfl
  · exact ⟨.inl, fun h => h.elim id fun hpos => OrderedScalar.lt_of_lt_of_le hpos hy⟩
  · exact ⟨fun _ => .inr (OrderedScalar.lt_of_lt_of_le hend hy), fun _ => hend⟩
  · exact ⟨.inr, fun h => h.elim (fun hpos => OrderedScalar.lt_of_lt_of_le hpos hlow) id⟩

theorem needPositive_eq_nil_iff {i : Nat} {what : Attribute} {y : Float} (hy : y ≤ y) :
    needPositive i what y = [] ↔ 0 < y := by
  rw [needPositive_eq_nil]
  refine ⟨fun h => ?_, fun h => ((OrderedScalar.lt_iff 0 y).1 h).2⟩
  exact (OrderedScalar.lt_iff 0 y).2 ⟨(OrderedScalar.total hy OrderedScalar.zero_le_zero).resolve_left h, h⟩

/-- The particles of an accepted set have its diameter, which is never reported, or a sampled
one. Whatever number the deviate is, there is a sampled diameter for it, and it is within three
standard deviations. It is not reported exactly if three standard deviations are less than the
diameter of the set, or if the deviate does not lead down to zero. -/
theorem diameters_within_spread [Generator γ] (haccepted : set.issues x.model = []) (hpos : 0 < set.diameter)
    (hdiameter : set.diameter.isFinite = true) (hdeviation : set.diameterDeviation.isFinite = true) :
    (∀ ps : Array (Particle Float), (attributes x set ps : Drawing γ _).Gives fun ready => ∀ p ∈ ready,
      if 0 < set.diameterDeviation then ∃ s : RandomStream γ, sampledDiameter set s.normal.1 = .ok p.diameter
      else p.diameter = set.diameter ∧ ∀ i, needPositive i .diameter p.diameter = []) ∧
    (0 < set.diameterDeviation → ∀ z : Float, z ≤ z → ∃ d, sampledDiameter set z = .ok d ∧
      set.diameter - deviationLimit * set.diameterDeviation ≤ d ∧
      d ≤ set.diameter + deviationLimit * set.diameterDeviation ∧
      ∀ i, needPositive i .diameter d = [] ↔
        deviationLimit * set.diameterDeviation < set.diameter ∨ 0 < set.diameter + z * set.diameterDeviation) := by
  constructor
  · intro ps s ready hready p' hp'
    obtain ⟨p, d, hd, hmade⟩ := gives_made x set ps s ready hready p' hp'
    rw [DrawnDiameter] at hd
    rw [diameter_of_made hmade]
    split at hd
    · rwa [if_pos ‹_›]
    · rw [if_neg ‹_›, hd]
      exact ⟨rfl, fun i => (needPositive_eq_nil_iff (le_self_of_isFinite hdiameter)).2 hpos⟩
  · intro hdev z hz
    obtain ⟨d, hd, hlow, hhigh, hpositive⟩ := exists_sampledDiameter haccepted hdiameter hdeviation hdev hz
    exact ⟨d, hd, hlow, hhigh, fun i =>
      (needPositive_eq_nil_iff (OrderedScalar.ordered_of_le hhigh).1).trans hpositive⟩

/-- A set whose diameter is three standard deviations. -/
def wideSet : InjectionSet Float := { InjectionSet.standard with diameter := 3, diameterDeviation := 1 }

/-- Inert particles in a fluid at rest. -/
def atRest : Setting Float where
  model := {}
  fluid := .uniform (Vector.replicate 3 0) 293
  level := 0
  dtp := 1

/-- A deviate of one half gives a diameter that is not reported, and one of minus four gives one that is. -/
theorem diameters_within_spread_wide :
    wideSet.issues atRest.model = [] ∧
      (∃ d, sampledDiameter wideSet 0.5 = .ok d ∧ needPositive 0 .diameter d = []) ∧
      ∃ d, sampledDiameter wideSet (-4) = .ok d ∧ needPositive 0 .diameter d ≠ [] := by
  have haccepted : wideSet.issues atRest.model = [] := List.isEmpty_iff.1 (by decide +kernel)
  obtain ⟨-, hsampled⟩ := diameters_within_spread (γ := ChaCha.State) haccepted (by decide +kernel)
    (by decide +kernel) (by decide +kernel)
  obtain ⟨d, hd, -, -, hup⟩ := hsampled (by decide +kernel) 0.5 (by decide +kernel)
  obtain ⟨d', hd', -, -, hdown⟩ := hsampled (by decide +kernel) (-4) (by decide +kernel)
  refine ⟨haccepted, ⟨d, hd, (hup 0).2 (by decide +kernel)⟩, d', hd', fun hnone => ?_⟩
  exact absurd ((hdown 0).1 hnone) (by decide +kernel)

/-- An accepted set and a deviate that leave a particle without size, which is reported. -/
theorem particle_without_size : wideSet.issues ({} : Model Float) = [] ∧ 0 < wideSet.diameter ∧
    wideSet.diameter.isFinite = true ∧ wideSet.diameterDeviation.isFinite = true ∧
    ∃ d, sampledDiameter wideSet (-4) = .ok d ∧ ¬ 0 < d ∧ (needPositive 0 .diameter d).length = 1 :=
  ⟨List.isEmpty_iff.1 (by decide +kernel), by decide +kernel, by decide +kernel, by decide +kernel, 0,
    by decide +kernel, by decide +kernel, by decide +kernel⟩

end Inflow.Release
