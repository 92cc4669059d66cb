import Mathlib
import Inflow.Proofs.Apportion.Exact
import Inflow.Proofs.Checks.Admissibility
import Inflow.Proofs.Checks.Setup
import Inflow.Proofs.FlowRates
import Inflow.Proofs.Injector.DrawAccounting
/-!
# The imposed mass flow

A set that imposes a flow rate gives every particle the weight that makes up for
its mass, so each carries one part of the mass that is to be released, out of as
many as the set asks for over all ranks. What the ranks keep of the set then
carries the parts of the particles kept, and all of the mass if none was lost.
The flow rates take in what was kept, each zone that of its own sets.

All of this reads the arithmetic as exact.
-/

namespace Inflow

variable {α γ ω : Type}

/-! ## Weights -/

namespace Release

variable [Scalar α] {set : InjectionSet α} {dtp : α} {p p' : Particle α}

/-- The weight of the particle is the one that its mass calls for. -/
def Weighed (set : InjectionSet α) (dtp : α) (p : Particle α) : Prop := p.weight = weightOf set dtp p.mass

theorem Weighed.of_eq (h : Weighed set dtp p) (hweight : p'.weight = p.weight) (hmass : p'.mass = p.mass) :
    Weighed set dtp p' := by
  rw [Weighed, hweight, hmass, h]

theorem weighed_withHeat (x : Setting α) (h : Weighed set dtp p) : Weighed set dtp (withHeat x set p) := by
  simp only [withHeat]
  split
  · exact h.of_eq rfl rfl
  · exact h

theorem weighed_withShape (x : Setting α) (h : Weighed set dtp p) : Weighed set dtp (withShape x set p) := by
  simp only [withShape]
  split
  · exact h.of_eq rfl rfl
  · exact h

theorem weighed_withCoal {x : Setting α} (h : Weighed set dtp p) (hp' : withCoal x set p = .ok p') :
    Weighed set dtp p' := by
  unfold withCoal at hp'
  split at hp'
  · obtain ⟨layers, -, hp'⟩ := bind_eq_ok.1 hp'
    rw [pure_eq_ok.1 hp']
    exact h.of_eq rfl rfl
  · cases hp'
    exact h

theorem weighed_advance (h : Weighed set dtp p) (dtp' : α) : Weighed set dtp (advance dtp' p) := by
  unfold advance
  split
  · exact h.of_eq rfl rfl
  · exact h

/-- Fresh particles are weighed, whatever their diameters are. -/
theorem weighed_attributes [Generator γ] (x : Setting α) (set : InjectionSet α) (ps : Array (Particle α)) :
    (attributes x set ps : Drawing γ _).Gives fun ready => ∀ p ∈ ready, Weighed set x.dtp p := by
  have hone : ∀ p, (attributesOf x set p : Drawing γ _).Gives (Weighed set x.dtp) := by
    intro p
    refine Drawing.gives_bind (Drawing.gives_true _) fun velocity _ => Drawing.gives_bind (Drawing.gives_true _)
      fun diameter _ => Drawing.gives_check fun p' hp' => ?_
    have hsize : Weighed set x.dtp (withSize x set diameter (withFluidVelocity set velocity p)) := rfl
    exact weighed_withCoal (weighed_withShape x (weighed_withHeat x hsize)) hp'
  refine Drawing.gives_bind (Drawing.gives_mapM hone _) fun ready hready => Drawing.gives_pure fun p hp => ?_
  obtain ⟨k, hk, rfl⟩ := List.mem_iff_getElem.1 (List.mem_toArray.1 hp)
  exact hready.get (hready.length_eq ▸ hk) hk

end Release

/-! ## Masses -/

section Mass

variable [ExactScalar α]

/-- The mass that particles stand for: each its own, as often as its weight says. -/
def massOf (ps : List (Particle α)) : α := (ps.map fun p => p.weight * p.mass).sum

theorem massOf_cons (p : Particle α) (ps : List (Particle α)) : massOf (p :: ps) = p.weight * p.mass + massOf ps := by
  rw [massOf, massOf, List.map_cons, List.sum_cons]

open Release (Weighed)

variable {set : InjectionSet α} {dtp : α}

/-- A weight makes up for the mass, so that each particle carries the same part of the flow. -/
theorem Release.Weighed.carries {p : Particle α} (h : Weighed set dtp p) (hrate : 0 < set.flowRate)
    (hcount : 0 < set.count) (hmass : 0 < p.mass) : p.weight * p.mass = set.flowRate * dtp / set.count := by
  have hn : (set.count : α) ≠ 0 := Nat.cast_ne_zero.2 hcount.ne'
  rw [h, Release.weightOf, if_pos ⟨hrate, hcount, hmass⟩, ExactScalar.ofNat_eq]
  field_simp

theorem massOf_of_weighed {ps : List (Particle α)} (hrate : 0 < set.flowRate) (hcount : 0 < set.count)
    (h : ∀ p ∈ ps, 0 < p.mass ∧ Weighed set dtp p) : massOf ps = ps.length * (set.flowRate * dtp / set.count) := by
  have heach : ps.map (fun p => p.weight * p.mass) = List.replicate ps.length (set.flowRate * dtp / set.count) := by
    rw [← List.map_const']
    exact List.map_congr_left fun p hp => (h p hp).2.carries hrate hcount (h p hp).1
  rw [massOf, heach, List.sum_replicate, nsmul_eq_mul]

end Mass

namespace Injector

open Step

open Release (Weighed)

/-! ## One set on one rank -/

section Set

variable [Scalar α] [Generator γ] {env : Surroundings α ω} {q : Request α} {r r' : Run α γ ω} {dtp : α} {level : Nat}

omit [Generator γ] in
theorem weighed_afterModify {set : InjectionSet α} {p : Particle α} (saved : Particle α) (h : Weighed set dtp p) :
    Weighed set dtp (afterModify saved p) := h.of_eq rfl rfl

/-- Without hooks, the particles that are kept are weighed as their attributes were set. -/
theorem Passage.Follows.weighed {x : Release.Setting α} {w : Passage α} (h : w.Follows γ env x q)
    (hhooks : env.hooks = .none) : ∀ p ∈ w.kept x.dtp, Weighed q.set x.dtp p := by
  obtain ⟨stream, hequipped⟩ := h.equipped
  have hweighed := Release.weighed_attributes x q.set w.remaining stream _ hequipped
  have hsame : w.modified = w.equipped := by
    obtain ⟨outside, v, hv, hmodified⟩ := h.modified
    rw [hhooks] at hv
    rw [hmodified, ← Except.ok.inj hv]
  intro _ hkept
  obtain ⟨p, hp, rfl⟩ := Array.mem_map.1 hkept
  obtain ⟨k, hk, rfl⟩ := Array.mem_iff_getElem.1 hp
  rw [Array.size_zipWith] at hk
  rw [Array.getElem_zipWith]
  have hmodified : Weighed q.set x.dtp w.modified[k] := by
    simp only [hsame]
    exact hweighed _ (Array.getElem_mem _)
  exact Release.weighed_advance (weighed_afterModify _ hmodified) _

/-- What a set has left on a rank without hooks: particles with a mass, and weighed. -/
theorem weighed_injectSet {s : SetSummary} (hhooks : env.hooks = .none)
    (h : (injectSet env dtp level q).Yields r s r') : ∀ p ∈ gainedSince r r', ¬ p.mass ≤ 0 ∧ Weighed q.set dtp p := by
  obtain ⟨w, hw, ⟨first, hadmitted⟩, -, hgrew⟩ := follows_injectSet h
  rw [hgrew.gainedSince_eq]
  refine fun p hp => ⟨?_, hw.weighed hhooks p (Array.mem_toList_iff.1 hp)⟩
  exact (Admissibility.unopposed_of_violations hadmitted p (Array.mem_toList_iff.1 hp)).mass

theorem length_gainedSince {s : SetSummary} (h : (injectSet env dtp level q).Yields r s r') :
    (gainedSince r r').length = s.kept := by
  obtain ⟨w, -, -, hkept, hgrew⟩ := follows_injectSet h
  rw [hgrew.gainedSince_eq, hkept, Array.length_toList]

/-! ## Flow rates of one set -/

theorem flow_prepareSet {index : List Nat} {start lost : Nat}
    (h : (prepareSet env dtp level q index start).Yields r lost r') : r'.injector.flow = r.injector.flow := by
  simp only [prepareSet, yields_bind, yields_check, yields_pure] at h
  obtain ⟨faces, r, ⟨-, rfl⟩, _, r₁, hrelease, left, r₂, hrelocate, _, r₃, hfinish, _, r₄, hrecord, -, rfl⟩ := h
  obtain ⟨placed, ready, moved, _, _, -, -, -, rfl⟩ := releaseFresh_cases hrelease
  have hrelocated : r₂.injector.flow = r.injector.flow := by
    rcases relocateFresh_cases hrelocate with ⟨-, rfl⟩ | ⟨_, _, _, _, -, -, rfl⟩ <;> rfl
  obtain ⟨equipped, modified, _, _, -, -, rfl⟩ := finishFresh_cases hfinish
  obtain ⟨events, sink, rfl⟩ := recordFresh_cases hrecord
  exact hrelocated

omit [Generator γ] in
theorem flow_closeSet {start kept : Nat} (h : (closeSet q start).Yields r kept r') :
    addFlow q.kind q.zoneIndex r.injector.flow (r'.injector.population.tail start).toList = .ok r'.injector.flow := by
  simp only [closeSet, yields_bind, yields_fresh, yields_get, yields_check, yields_agree, yields_updateInjector,
    yields_setPopulation, yields_pure, and_assoc, exists_and_left, exists_eq_left, exists_const] at h
  obtain ⟨violations, -, _, -, flow, hflow, population, hpopulation, -, rfl⟩ := h
  have hparticles := (Population.recordReleased_ok _ hpopulation).2
  rw [Population.tail, hparticles]
  exact hflow

/-- A set enters the particles that it leaves into the flow rates, once each. -/
theorem flow_injectSet {s : SetSummary} (h : (injectSet env dtp level q).Yields r s r') :
    addFlow q.kind q.zoneIndex r.injector.flow (gainedSince r r') = .ok r'.injector.flow := by
  rw [injectSet_eq] at h
  obtain ⟨⟨index, start⟩, m, hopen, hfill⟩ := yields_bind.1 h
  obtain ⟨layout, population, log, -, rfl, rfl, -, rfl⟩ := openSet_cases hopen
  rw [fillSet_eq] at hfill
  simp only [yields_bind, yields_pure] at hfill
  obtain ⟨lost, u, hprepare, kept, u', hclose, -, rfl⟩ := hfill
  have hflow := flow_closeSet hclose
  rwa [flow_prepareSet hprepare] at hflow

end Set

/-! ## One set of a group -/

section Group

variable {ranks : Nat}

/-- The number of particles that all ranks together have kept of a set. -/
def Visit.count (v : Visit α γ ω ranks) : Nat := ∑ i, (v.kept i).length

/-- The number of particles that all ranks together have lost of a set. -/
def Visit.lost (v : Visit α γ ω ranks) : Nat := ∑ i, (v.summary i).lost

/-- The mass that the particles kept of a set stand for, over all ranks. -/
def Visit.mass [ExactScalar α] (v : Visit α γ ω ranks) : α := ∑ i, massOf (v.kept i)

/-- The weight of a set's zone over all ranks. -/
def zoneWeight [ExactScalar α] (env : Fin ranks → Surroundings α ω) (q : Fin ranks → Request α) : α :=
  ∑ i, partWeight (env i) (q i)

variable [ExactScalar α] [Generator γ] {env : Fin ranks → Surroundings α ω} {v : Visit α γ ω ranks} {dtp : α}
  {level : Fin ranks → Nat}

/-- Particles of a set that imposes a flow rate carry as many parts of it as there are particles. -/
theorem mass_of_released (hhooks : ∀ i, (env i).hooks = .none)
    (houtline : ∀ i j, (v.request i).outline = (v.request j).outline)
    (h : Results (fun i => injectSet (env i) dtp (level i) (v.request i)) v.before v.summary v.after) {i : Fin ranks}
    (hrate : 0 < (v.request i).set.flowRate) (hcount : 0 < (v.request i).set.count) :
    (∀ j, ∀ p ∈ v.kept j, 0 < p.mass) ∧
      v.mass = (v.request i).set.flowRate * dtp * v.count / (v.request i).set.count := by
  have hkept : ∀ j, ∀ p ∈ v.kept j, 0 < p.mass ∧ Weighed (v.request j).set dtp p := by
    intro j p hp
    obtain ⟨hmass, hweighed⟩ := weighed_injectSet (hhooks j) (h.yields j) p hp
    exact ⟨not_le.1 hmass, hweighed⟩
  have hown : ∀ j, massOf (v.kept j) =
      (v.kept j).length * ((v.request i).set.flowRate * dtp / (v.request i).set.count) := by
    intro j
    have hsame := Request.flowRate_eq_of_outline (houtline j i)
    have hsame' := Request.count_eq_of_outline (houtline j i)
    rw [← hsame, ← hsame']
    exact massOf_of_weighed (hsame ▸ hrate) (hsame' ▸ hcount) (hkept j)
  refine ⟨fun j p hp => (hkept j p hp).1, ?_⟩
  calc v.mass = ∑ j, ((v.kept j).length : α) * ((v.request i).set.flowRate * dtp / (v.request i).set.count) :=
        Finset.sum_congr rfl fun j _ => hown j
    _ = v.count * ((v.request i).set.flowRate * dtp / (v.request i).set.count) := by
        rw [← Finset.sum_mul, Visit.count, Nat.cast_sum]
    _ = (v.request i).set.flowRate * dtp * v.count / (v.request i).set.count := by ring

/-- Where the zone has weight and nothing is lost, all particles that the set asks for are kept. -/
theorem count_of_released (hseat : Seated env) (houtline : ∀ i j, (v.request i).outline = (v.request j).outline)
    (h : Results (fun i => injectSet (env i) dtp (level i) (v.request i)) v.before v.summary v.after)
    (hweight : 0 < zoneWeight env v.request) (hlost : v.lost = 0) (i : Fin ranks) :
    v.count = (v.request i).set.count := by
  have hcount : ∀ j, (v.request j).set.count = (v.request i).set.count :=
    fun j => Request.count_eq_of_outline (houtline j i)
  obtain ⟨layouts, hlaid, hplaced⟩ := laid_of_injectSet hseat hcount i.pos h
  obtain ⟨tables, htables, rfl⟩ := hlaid.exists_tables hseat hcount
  obtain ⟨j, hj⟩ : ∃ j, 0 < (tables j).total := by
    by_contra hnone
    refine hweight.not_ge (Finset.sum_nonpos fun j _ => ?_)
    rw [partWeight_eq (htables j)]
    exact not_lt.1 fun hj => hnone ⟨j, hj⟩
  have hnone : ∀ k, (v.summary k).lost = 0 := fun k => Finset.sum_eq_zero_iff.1 hlost k (Finset.mem_univ k)
  rw [← Apportion.sum_placed_of_pos (v.request i).set.count
    (fun k => Cumulative.exists_ofWeights_of_buildIndexed (htables k)) (fun k => (v.before k).injector.stream) hj]
  refine Finset.sum_congr rfl fun k _ => ?_
  rw [Visit.kept, length_gainedSince (h.yields k), ← hplaced k, hnone k, Nat.add_zero]

end Group

/-! ## All sets -/

section Sets

variable {ranks : Nat}

/-- The set is one of the zone with this index among those of a kind. -/
def Visit.isOf (v : Visit α γ ω ranks) (i : Fin ranks) (kind : ZoneKind) (zone : Nat) : Bool :=
  (v.request i).kind = kind ∧ (v.request i).zoneIndex = zone

theorem Visit.isOf_iff (v : Visit α γ ω ranks) {i : Fin ranks} {kind : ZoneKind} {zone : Nat} :
    v.isOf i kind zone = true ↔ kind = (v.request i).kind ∧ zone = (v.request i).zoneIndex := by
  rw [isOf, decide_eq_true_eq, eq_comm, @eq_comm _ zone]

variable [ExactScalar α] {kind : ZoneKind} {zone : Nat}

/-- Particles that are entered for a zone are received by it, and by no other. -/
theorem received_addFlow {f f' : FlowRates α} {ps : List (Particle α)} (hstride : 0 < f.stride)
    (h : addFlow kind zone f ps = .ok f') : f'.stride = f.stride ∧ ∀ kind' zone',
      f'.received kind' zone' =
        f.received kind' zone' + if kind' = kind ∧ zone' = zone then massOf ps else 0 := by
  induction ps generalizing f with
  | nil =>
    cases h
    exact ⟨rfl, fun kind' zone' => by simp [massOf]⟩
  | cons p ps ih =>
    obtain ⟨m, hone, hrest⟩ := bind_eq_ok.1 h
    have hsame := FlowRates.stride_add hstride hone
    obtain ⟨hlast, hall⟩ := ih (hsame ▸ hstride) hrest
    refine ⟨hlast.trans hsame, fun kind' zone' => ?_⟩
    rw [hall, FlowRates.received_add hstride hone]
    split
    · rw [massOf_cons, add_assoc]
    · rfl

variable [Generator γ] {env : Fin ranks → Surroundings α ω} {rs ts : Fin ranks → Run α γ ω} {dtp : α}
  {level : Fin ranks → Nat} {vs : List (Visit α γ ω ranks)}

/-- What each zone has received, set by set. -/
theorem received_visits (h : Visits env dtp level rs vs ts) (i : Fin ranks)
    (hstride : 0 < (rs i).injector.flow.stride) (kind : ZoneKind) (zone : Nat) :
    (ts i).injector.flow.stride = (rs i).injector.flow.stride ∧
      (ts i).injector.flow.received kind zone = (rs i).injector.flow.received kind zone +
        ((vs.filter (·.isOf i kind zone)).map fun v => massOf (v.kept i)).sum := by
  induction h with
  | nil rs => exact ⟨rfl, by simp⟩
  | @cons v vs ts released _ ih =>
    obtain ⟨hsame, hreceived⟩ := received_addFlow hstride (flow_injectSet (released.yields i))
    obtain ⟨hlast, hall⟩ := ih (hsame ▸ hstride)
    refine ⟨hlast.trans hsame, ?_⟩
    rw [hall, hreceived, add_assoc, List.filter_cons]
    simp only [← v.isOf_iff]
    by_cases hv : v.isOf i kind zone = true
    · rw [if_pos hv, if_pos hv, List.map_cons, List.sum_cons]
      rfl
    · rw [if_neg hv, if_neg hv, zero_add]

end Sets

/-! ## The whole step -/

section Step

variable [ExactScalar α] [Generator γ] {ranks : Nat} {env : Fin ranks → Surroundings α ω}
  {registry : Fin ranks → Registry α} {rs ts : Fin ranks → Run α γ ω} {time : TimeStep α} {wantedLevel : Fin ranks → Nat}
  {s : Fin ranks → StepSummary α} {vs : List (Visit α γ ω ranks)}

/-- The first slot of each zone holds what the rank has kept of the zone's sets. -/
theorem Toured.get_flow (h : Toured env registry time wantedLevel rs s ts vs) (i : Fin ranks) {kind : ZoneKind}
    {zone : Nat} (hzone : zone < ((registry i).zones kind).length) : (ts i).injector.flow.get kind zone 0 =
      .ok ((vs.filter (·.isOf i kind zone)).map fun v => massOf (v.kept i)).sum := by
  obtain ⟨flow, us, hflow, hvisits, hend⟩ := h.visits
  have hempty := empty_of_freshFlow (hflow i)
  have hpos : 0 < (begun (rs i) (flow i)).injector.flow.stride := hempty.shaped.stride_pos
  obtain ⟨hstride, hreceived⟩ := received_visits hvisits i hpos kind zone
  have hnone : (begun (rs i) (flow i)).injector.flow.received kind zone = 0 := hempty.received kind zone
  have hfits : zone * (us i).injector.flow.stride ≤ Count.limit := by
    rw [hstride]
    refine le_trans (Nat.mul_le_mul_right _ hzone.le) ?_
    exact hempty.stride ▸ hempty.fits kind
  rw [hend i, FlowRates.get_eq_received hfits, hreceived, hnone, zero_add]

/-- A flow rate that a set imposes is honoured: what all ranks keep of the set
carries as many parts of the mass that is to be released in a step as particles
are kept, out of as many parts as the set asks for particles. That is all of the
mass if the zone has weight and nothing is lost. An accepted set asks for at least
one particle, and what is kept has passed the check, so it has a mass. The flow
rates read for a zone are, over all ranks, the masses of what was kept of its sets. -/
theorem mass_flow_honoured {outs : Fin ranks → Except (Halt α) (StepOutcome α) × Run α γ ω}
    (hshared : Shared env registry rs) (hhooks : ∀ i, (env i).hooks = .none)
    (hrun : Group.run (List.ofFn fun i => (inject (env i) (registry i) time (wantedLevel i)).on (rs i)) =
      some (List.ofFn outs)) {i : Fin ranks} {own : StepSummary α} (hi : (outs i).1 = .ok (.injected own)) :
    ∃ s ts vs, outs = (fun j => (.ok (.injected (s j)), ts j)) ∧ Toured env registry time wantedLevel rs s ts vs ∧
      (∀ j, (ts j).injector.population.particles.toList =
        (rs j).injector.population.particles.toList ++ vs.flatMap (·.kept j)) ∧
      (∀ v ∈ vs, ∀ j, (v.kept j).length = (v.summary j).kept) ∧
      (∀ v ∈ vs, ∀ j, 0 < (v.request j).set.flowRate → 0 < (v.request j).set.count ∧
        (∀ k, ∀ p ∈ v.kept k, 0 < p.mass) ∧
        v.mass = (v.request j).set.flowRate * time.dtp * v.count / (v.request j).set.count ∧
        (0 < zoneWeight env v.request → v.lost = 0 → v.mass = (v.request j).set.flowRate * time.dtp)) ∧
      ∀ j kind zone, zone < ((registry j).zones kind).length → ∃ read : Fin ranks → α,
        (∀ k, (ts k).injector.flow.get kind zone 0 = .ok (read k)) ∧
        ∑ k, read k = ((vs.filter (·.isOf j kind zone)).map (·.mass)).sum := by
  obtain ⟨s, ts, rfl, -⟩ := accounted_of_run hshared hrun hi
  obtain ⟨vs, htoured⟩ := toured_of_run hshared hrun
  refine ⟨s, ts, vs, rfl, htoured, fun j => ?_, fun v hv j => ?_, fun v hv j hrate => ?_, fun j kind zone hzone => ?_⟩
  · obtain ⟨flow, us, -, hvisits, hend⟩ := htoured.visits
    rw [hend j, particles_visits hvisits j]
    rfl
  · exact length_gainedSince ((htoured.released hv).yields j)
  · have hresults : Results (fun i => inject (env i) (registry i) time (wantedLevel i)) rs
        (fun i => .injected (s i)) ts := hrun
    have hcount := Registry.count_pos_of_accepted (accepted_of_yields (hresults.yields j)) (htoured.mem_requests hv j)
      hrate
    obtain ⟨hmass, hparts⟩ := mass_of_released hhooks (htoured.outline v hv) (htoured.released hv) hrate hcount
    refine ⟨hcount, hmass, hparts, fun hweight hlost => ?_⟩
    have hn : ((v.request j).set.count : α) ≠ 0 := Nat.cast_ne_zero.2 hcount.ne'
    rw [hparts, count_of_released hshared.seated (htoured.outline v hv) (htoured.released hv) hweight hlost j,
      mul_div_cancel_right₀ _ hn]
  · have hlength : ∀ k, ((registry k).zones kind).length = ((registry j).zones kind).length := by
      intro k
      rw [← List.length_map ZoneEntry.outline, ← Registry.zones_outline, hshared.outline k j, Registry.zones_outline,
        List.length_map]
    have hsame : ∀ k, vs.filter (·.isOf k kind zone) = vs.filter (·.isOf j kind zone) := by
      intro k
      refine List.filter_congr fun v hv => ?_
      have houtline := htoured.outline v hv k j
      rw [Visit.isOf, Visit.isOf, Request.kind_eq_of_outline houtline, Request.zoneIndex_eq_of_outline houtline]
    refine ⟨_, fun k => htoured.get_flow k (hlength k ▸ hzone), ?_⟩
    simp only [hsame]
    rw [sum_sum_map]
    rfl

end Step

/-! ## A pair with an imposed flow rate -/

/-- The pair's zone with a set of four particles of spread diameters that imposes a flow rate. -/
def steadyRegistry (i : Fin 2) : Registry ℚ :=
  { boundary := (spreadRegistry i).boundary.map fun entry =>
      { entry with sets := entry.sets.map fun set => { set with flowRate := 12 } } }

def halfStep : TimeStep ℚ := { firstStep with dtp := 1 / 2 }

theorem steadyShared : Shared calmEnv steadyRegistry (seededRuns 1) where
  ranks_pos := Nat.two_pos
  seated _ := rfl
  settings _ _ := by simp only [seededRuns, pairRuns]
  census _ _ := rfl
  outline _ _ := rfl

theorem steady_requests : ∀ i, ∀ q ∈ (steadyRegistry i).requests, 0 < partWeight (calmEnv i) q ∧
    q.set.flowRate = 12 ∧ q.set.count = 4 ∧ q.kind = .boundary ∧ q.zoneIndex = 0 := by
  decide +kernel

-- Elsewhere the rationals keep to the structure of their own.
local instance : ExactScalar ℚ where
  __ := (inferInstance : Scalar ℚ)
  __ := (inferInstance : Field ℚ)
  __ := (inferInstance : LinearOrder ℚ)
  __ := (inferInstance : IsStrictOrderedRing ℚ)
  ofNat_eq _ := rfl
  tiny_pos := OrderedScalar.zero_lt_tiny

/-- The pair releases the mass of half a time unit in four particles, whatever diameters it has drawn for them. -/
theorem mass_flow_honoured_onPair : ∃ (s : Fin 2 → StepSummary ℚ) (ts : Fin 2 → Run ℚ ChaCha.State Unit)
    (v : Visit ℚ ChaCha.State Unit 2),
    Results (fun i => inject (calmEnv i) (steadyRegistry i) halfStep 0) (seededRuns 1) (fun i => .injected (s i)) ts ∧
    Toured calmEnv steadyRegistry halfStep (fun _ => 0) (seededRuns 1) s ts [v] ∧ v.count = 4 ∧ v.mass = 6 ∧
    ∃ read : Fin 2 → ℚ, (∀ k, (ts k).injector.flow.get .boundary 0 0 = .ok (read k)) ∧ ∑ k, read k = 6 := by
  have hall : (Group.run (List.ofFn fun i =>
      (inject (calmEnv i) (steadyRegistry i) halfStep 0).on (seededRuns 1 i))).map
        (·.all fun out => releasedCount 4 out && keptAll out) = some true := by decide +kernel
  obtain ⟨s, ts, hrun, htest⟩ := released_of_all keptAll hall
  obtain ⟨s', ts', vs, houts, htoured, -, -, hsets, hflow⟩ :=
    mass_flow_honoured steadyShared (fun _ => rfl) hrun (i := 0) rfl
  obtain rfl : ts = ts' := funext fun i => congrArg Prod.snd (congrFun houts i)
  obtain rfl : s = s' := funext fun i => by
    simpa only [Except.ok.injEq, StepOutcome.injected.injEq] using congrArg Prod.fst (congrFun houts i)
  have hparts : ∀ i, (s i).sets.length = 1 ∧ lostIn (s i).sets = 0 := by
    intro i
    have htest := (htest i).2
    simp only [keptAll, Bool.and_eq_true, beq_iff_eq] at htest
    exact htest.1
  obtain ⟨v, rfl⟩ : ∃ v, vs = [v] := by
    rw [← List.length_eq_one_iff, ← (hparts 0).1, htoured.sets 0, List.length_map]
  have hrequest := fun i => steady_requests i _ (htoured.mem_requests List.mem_cons_self i)
  have hweight : 0 < zoneWeight calmEnv v.request := Finset.sum_pos (fun i _ => (hrequest i).1) ⟨0, Finset.mem_univ 0⟩
  have hlost : v.lost = 0 := by
    refine Finset.sum_eq_zero fun i _ => ?_
    simpa [lostIn, htoured.sets i] using (hparts i).2
  obtain ⟨-, hrate, hcount, hkind, hzone⟩ := hrequest 0
  obtain ⟨-, -, hmass, hwhole⟩ := hsets v List.mem_cons_self 0 (by rw [hrate]; decide)
  have hsix : v.mass = 6 := by
    rw [hwhole hweight hlost, hrate]
    norm_num [halfStep]
  obtain ⟨read, hread, hsum⟩ := hflow 0 .boundary 0 Nat.one_pos
  refine ⟨s, ts, v, hrun, htoured, ?_, hsix, read, hread, ?_⟩
  · rw [hsix, hrate, hcount] at hmass
    norm_num [halfStep] at hmass
    have hfour : (v.count : ℚ) = 4 := by linarith
    exact_mod_cast hfour
  · have hown : v.isOf 0 .boundary 0 = true := by
      rw [Visit.isOf, hkind, hzone]
      rfl
    rw [hsum, List.filter_cons, if_pos hown, List.filter_nil, List.map_singleton, List.sum_singleton, hsix]

end Injector
end Inflow
