import Inflow.Proofs.Release.Diameters
/-!
# Layers of coal

A coal particle has equal layers of water, of coal and of coke. An accepted coal is made
of fractions of water and ash that do not sum to more than one, and the rest is coal. The
rest is computed in another order than the sum, so for fractions that sum to one only
because the sum is rounded it comes out below zero, and particles of an accepted coal are
reported. All other layers of a finite mass are at least zero.
-/

namespace Inflow.Release

open Double Admissibility

/-! ## What is not water or ash -/

variable {w a : Float}

theorem isFinite_of_fraction (hw : 0 ≤ w ∧ w ≤ 1) : w.isFinite = true :=
  isFinite_of_between isFinite_zero isFinite_one hw.1 hw.2

/-- What is left of one besides a fraction is a fraction. -/
theorem one_sub_between (hw : 0 ≤ w ∧ w ≤ 1) : 0 ≤ 1 - w ∧ 1 - w ≤ 1 := by
  have hwfin := isFinite_of_fraction hw
  have hround := rounded_float_sub isFinite_one hwfin
  have hle : toRat w ≤ toRat 1 := (le_iff_toRat hwfin isFinite_one).1 hw.2
  exact ⟨le_of_rounded hround isFinite_zero (sub_nonneg.2 hle), sub_le_self hw.1 hwfin isFinite_one⟩

/-- The rest is finite. It is positive if less than what is left besides the first fraction is
taken from it, and negative if more is. -/
theorem rest_spec (hw : 0 ≤ w ∧ w ≤ 1) (ha : 0 ≤ a ∧ a ≤ 1) :
    (1 - w - a).isFinite = true ∧ (0 < 1 - w - a ↔ a < 1 - w) ∧ (1 - w - a < 0 ↔ 1 - w < a) := by
  have hleft := one_sub_between hw
  have hleftfin := isFinite_of_fraction hleft
  have hafin := isFinite_of_fraction ha
  have hlow : toRat (-1) ≤ toRat (1 - w) - toRat a := by
    have hneg : toRat (-1) = -1 := by
      change -(((2 ^ 52 : ℕ) : ℚ) * 2 ^ (-52 : ℤ)) = -1
      norm_num
    have hleft0 : 0 ≤ toRat (1 - w) := (le_iff_toRat isFinite_zero hleftfin).1 hleft.1
    have ha1 : toRat a ≤ 1 := toRat_one ▸ (le_iff_toRat hafin isFinite_one).1 ha.2
    linarith
  have hfin := isFinite_of_between rfl hleftfin (le_of_rounded (rounded_float_sub hleftfin hafin) rfl hlow)
    (sub_le_self ha.1 hafin hleftfin)
  exact ⟨hfin, pos_sub_iff hleftfin hafin, sub_neg_iff hleftfin hafin⟩

/-- Fractions whose sum is below one even after rounding leave a rest. -/
theorem le_one_sub_of_sum_lt (hw : 0 ≤ w ∧ w ≤ 1) (ha : 0 ≤ a ∧ a ≤ 1) (hsum : w + a < 1) : a ≤ 1 - w := by
  have hwfin := isFinite_of_fraction hw
  have hafin := isFinite_of_fraction ha
  refine le_of_rounded (rounded_float_sub isFinite_one hwfin) hafin ?_
  by_contra hlt
  have hle : toRat 1 ≤ toRat w + toRat a := by linarith
  exact OrderedScalar.not_lt_of_le (le_of_rounded (rounded_float_add hwfin hafin) isFinite_one hle) hsum

/-! ## Layers -/

/-- One layer of a particle's mass. -/
def layerShare (layers : Nat) (mass : Float) : Float := mass / Scalar.ofNat (max layers 1)

theorem layerShare_spec {layers : Nat} (hlayers : max layers 1 * scalarBytes ≤ Count.byteLimit) {mass : Float}
    (hmass : 0 < mass) :
    0 ≤ layerShare layers mass ∧ ((layerShare layers mass).isFinite = true ↔ mass.isFinite = true) := by
  have hlimit : max layers 1 ≤ 2 ^ 63 := by
    have hbytes : Count.byteLimit ≤ 2 ^ 63 := by decide
    simp only [scalarBytes] at hlayers
    omega
  obtain ⟨hone, hfin⟩ := ofNat_between (Nat.lt_of_lt_of_le Nat.one_pos (Nat.le_max_right layers 1)) hlimit
  exact div_parts (OrderedScalar.le_of_lt hmass) hfin hone

/-- The layers of water, coal and coke, as they are made of a coal and a mass. -/
structure Layers (n : Nat) (c : Coal Float) (mass : Float) (l : CoalLayers Float) : Prop where
  storable : max n 1 * scalarBytes ≤ Count.byteLimit
  water : l.waterMass = Array.replicate (max n 1) (c.waterFraction * layerShare n mass)
  coal : l.coalMass = Array.replicate (max n 1) ((1 - c.waterFraction - c.ashFraction) * layerShare n mass)
  coke : l.cokeMass = Array.replicate (max n 1) 0

variable {set : InjectionSet Float} {x : Setting Float} {c : Coal Float} {p p' : Particle Float} {mass : Float}

theorem exists_withCoal_iff (hcoal : coalOf x.model set = some c) (p : Particle Float) :
    (∃ p', withCoal x set p = .ok p') ↔ max x.model.coalLayers 1 * scalarBytes ≤ Count.byteLimit := by
  simp only [withCoal, hcoal, coalLayers, bind_eq_ok, pure_eq_ok, Count.store]
  constructor
  · rintro ⟨p', l, ⟨u, hstore, -⟩, -⟩
    by_contra hlarge
    rw [if_neg hlarge] at hstore
    cases hstore
  · intro hfits
    exact ⟨_, _, ⟨(), if_pos hfits, rfl⟩, rfl⟩

theorem layers_of_withCoal (hcoal : coalOf x.model set = some c) (h : withCoal x set p = .ok p') :
    ∃ l, p'.coal = some l ∧ Layers x.model.coalLayers c p'.mass l := by
  have hfits := (exists_withCoal_iff hcoal p).1 ⟨p', h⟩
  rw [(size_withCoal h).2]
  simp only [withCoal, hcoal, coalLayers, bind_eq_ok, pure_eq_ok] at h
  obtain ⟨l, ⟨u, -, rfl⟩, rfl⟩ := h
  exact ⟨_, rfl, hfits, rfl, rfl, rfl⟩

/-- How far the layers of a positive mass are at least zero, and how far they are reported: layers
of water and coke never, and layers of coal exactly if the ash is more than what is left besides
the water, and the layer is not rounded to zero. -/
structure Graded (c : Coal Float) (mass : Float) (l : CoalLayers Float) : Prop where
  water : ∀ v ∈ l.waterMass, 0 ≤ v ↔ mass.isFinite = true ∨ 0 < c.waterFraction
  coke : ∀ v ∈ l.cokeMass, 0 ≤ v
  coal : ∀ v ∈ l.coalMass, 0 ≤ v ↔ c.ashFraction < 1 - c.waterFraction ∨
    mass.isFinite = true ∧ (c.ashFraction ≤ 1 - c.waterFraction ∨ Scalar.isZero v = true)
  water_unreported : ∀ i, layerViolations i .waterMass l.waterMass = []
  coke_unreported : ∀ i, layerViolations i .cokeMass l.cokeMass = []
  coal_reported : ∀ i, layerViolations i .coalMass l.coalMass = [] ↔
    c.ashFraction ≤ 1 - c.waterFraction ∨ ∀ v ∈ l.coalMass, Scalar.isZero v = true

theorem graded_of_layers {n : Nat} {l : CoalLayers Float} (h : Layers n c mass l) (hmass : 0 < mass)
    (hwater : 0 ≤ c.waterFraction ∧ c.waterFraction ≤ 1) (hash : 0 ≤ c.ashFraction ∧ c.ashFraction ≤ 1) :
    Graded c mass l := by
  obtain ⟨hshare, hfinite⟩ := layerShare_spec h.storable hmass
  obtain ⟨hrest, hpos, hneg⟩ := rest_spec hwater hash
  have hwaterfin := isFinite_of_fraction hwater
  have hrest0 : 0 ≤ 1 - c.waterFraction - c.ashFraction ↔ c.ashFraction ≤ 1 - c.waterFraction := by
    rw [← not_lt_iff_le isFinite_zero hrest, hneg,
      not_lt_iff_le (isFinite_of_fraction hash) (isFinite_of_fraction (one_sub_between hwater))]
  have heach : ∀ (v : Float) (P : Float → Prop), (∀ y ∈ Array.replicate (max n 1) v, P y) ↔ P v := by
    intro v P
    simp only [Array.mem_replicate]
    exact ⟨fun h => h v ⟨by omega, rfl⟩, fun h y hy => hy.2 ▸ h⟩
  constructor
  · rw [h.water, heach, nonneg_mul_iff_of_nonneg hwaterfin hshare, hfinite]
    exact ⟨fun h => h.elim .inr fun h => .inl h.1, fun h => h.elim (fun h => .inr ⟨h, .inl hwater.1⟩) .inl⟩
  · rw [h.coke, heach]
    exact OrderedScalar.zero_le_zero
  · rw [h.coal, heach, nonneg_mul_iff_of_nonneg hrest hshare, hfinite, hpos, hrest0]
  · intro i
    rw [layerViolations_eq_nil, h.water, heach, mul_neg_iff_of_nonneg hwaterfin hshare]
    exact fun h => OrderedScalar.not_lt_of_le hwater.1 h.1
  · intro i
    rw [layerViolations_eq_nil, h.coke, heach]
    exact OrderedScalar.not_lt_self
  · intro i
    rw [layerViolations_eq_nil, h.coal, heach, heach, mul_neg_iff_of_nonneg hrest hshare, ← hrest0,
      ← not_lt_iff_le isFinite_zero hrest]
    simp only [not_and, Bool.not_eq_false, or_iff_not_imp_left, not_not]

/-- The coal of an accepted set is in the table, and there are layers of it wherever they can be stored.
The layers of every fresh particle are at least zero, and not reported, as far as `Graded` says, which
is in all respects if the mass is finite and the fractions sum to less than one. -/
theorem layers_of_accepted [Generator γ] (haccepted : set.issues x.model = []) (hcoal : x.model.burnsCoal = true) :
    ∃ c, coalOf x.model set = some c ∧
      (∀ p : Particle Float, (∃ p', withCoal x set p = .ok p') ↔
        max x.model.coalLayers 1 * scalarBytes ≤ Count.byteLimit) ∧
      (c.waterFraction + c.ashFraction < 1 → c.ashFraction ≤ 1 - c.waterFraction) ∧
      ∀ ps : Array (Particle Float), (attributes x set ps : Drawing γ _).Gives fun ready => ∀ p ∈ ready, 0 < p.mass →
        ∃ l, p.coal = some l ∧ l.coalMass.size = max x.model.coalLayers 1 ∧ Graded c p.mass l := by
  obtain ⟨c, hc, hwater, hash, -⟩ := InjectionSet.coal_of_accepted haccepted hcoal
  have hof : coalOf x.model set = some c := (if_pos hcoal).trans hc
  refine ⟨c, hof, exists_withCoal_iff hof, le_one_sub_of_sum_lt hwater hash, fun ps s ready hready p' hp' hmass => ?_⟩
  obtain ⟨p, d, -, hmade⟩ := gives_made x set ps s ready hready p' hp'
  obtain ⟨l, hl, hlayers⟩ := layers_of_withCoal hof hmade
  exact ⟨l, hl, by rw [hlayers.coal, Array.size_replicate], graded_of_layers hlayers hmass hwater hash⟩

/-- Particles of one coal with two layers, in a fluid at rest. -/
def burning (water ash : Float) : Setting Float where
  model := { physics := .coal, coalLayers := 2, coals := [⟨1000, 1000, water, ash⟩] }
  fluid := .uniform (Vector.replicate 3 0) 293
  level := 0
  dtp := 1

/-- A particle of a coal with some water and ash has layers of coal, and all of them are at least zero. -/
theorem layers_of_accepted_moist : ∃ p : Particle Float,
    (∀ s : RandomStream ChaCha.State,
      (attributes (burning 0.25 0.5) .standard #[.blank]).run.run s = (.ok #[p], s)) ∧
      0 < p.mass ∧ ∃ l, p.coal = some l ∧ l.coalMass.size = 2 ∧ ∀ v ∈ l.coalMass, 0 ≤ v := by
  have haccepted : InjectionSet.standard.issues (burning 0.25 0.5).model = [] := List.isEmpty_iff.1 (by decide +kernel)
  obtain ⟨c, hc, -, -, hready⟩ := layers_of_accepted (γ := ChaCha.State) haccepted rfl
  obtain rfl := Option.some.inj hc
  refine ⟨_, fun s => rfl, by decide +kernel, ?_⟩
  obtain ⟨l, hl, hsize, hgraded⟩ := hready #[.blank] (.ofSeed 0) _ rfl _ (Array.mem_singleton_self _) (by decide +kernel)
  exact ⟨l, hl, hsize, fun v hv => (hgraded.coal v hv).2 (.inl (by decide +kernel))⟩

/-- An accepted coal of nine parts of water and one of ash, whose layers of coal come out below zero. -/
theorem coal_below_zero : InjectionSet.standard.issues (burning 0.9 0.1).model = [] ∧
    ∃ p : Particle Float, (∀ s : RandomStream ChaCha.State,
      (attributes (burning 0.9 0.1) .standard #[.blank]).run.run s = (.ok #[p], s)) ∧
      0 < p.mass ∧ p.mass.isFinite = true ∧
      ∃ l, p.coal = some l ∧ l.coalMass.all (fun v => decide (v < 0)) = true ∧
        (layerViolations 0 .coalMass l.coalMass).length = 2 :=
  ⟨List.isEmpty_iff.1 (by decide +kernel), _, fun s => rfl, by decide +kernel, by decide +kernel, _, rfl,
    by decide +kernel, by decide +kernel⟩

end Inflow.Release
