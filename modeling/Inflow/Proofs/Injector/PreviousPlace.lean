import Inflow.Proofs.Injector.Preserved
import Inflow.Proofs.Injector.InflowEvents
/-!
# The previous place of kept particles

A particle that has just been released has its previous state at the element that
it was laid out on, if all goes well. The record of its previous position is made
again after the particle was moved and looked up, and the second hook has its way
with the previous cell and rank; so how far the previous state of a kept particle
can be trusted depends on what the hooks and the tracker have done to it. Hooks and
a tracker that are considerate do it no harm.
-/

namespace Inflow

variable {α γ ω : Type}

namespace Injector

open Step

variable [Scalar α] [Generator γ]

/-- The previous state of a particle is at the element in place `i` of the zone: at
the centre of the element and in the cell there, on the rank itself. -/
def PreviousAtHome (env : Surroundings α ω) (q : Request α) (i : Nat) (p : Particle α) : Prop :=
  Release.home q.zone env.mesh i = some (p.previousPosition, p.previousCell) ∧ p.previousRank = env.seat.rank

/-- Neither the first hook nor the tracker has left the particle at another
position, and the second hook has left it the cell and rank that it came from. -/
structure Life.Undisturbed (rank : Nat) (l : Life α) : Prop where
  position : l.located.position = l.placed.position
  cell : l.modified.previousCell = l.placed.cell
  rank : l.modified.previousRank = rank

omit [Generator γ] in
/-- The rest of a step moves a particle, and leaves its previous state alone. -/
theorem previous_last (dtp : α) (l : Life α) : (l.last dtp).previousPosition = l.equipped.position ∧
    (l.last dtp).previousCell = l.modified.previousCell ∧ (l.last dtp).previousRank = l.modified.previousRank := by
  unfold Life.last Release.advance
  split <;> exact ⟨rfl, rfl, rfl⟩

variable {env : Surroundings α ω} {q : Request α} {w : Passage α}

omit [Generator γ] in
theorem previousAtHome_iff {j : Nat} {l : Life α} (h : Traces env q w j l) (dtp : α) :
    PreviousAtHome env q l.element (l.last dtp) ↔ l.Undisturbed env.seat.rank := by
  obtain ⟨hposition, hcell, hrank⟩ := previous_last dtp l
  -- Attributes do not move a particle, so what is recorded after them is the position it was looked up at.
  rw [PreviousAtHome, h.home, hposition, hcell, hrank, h.remains.position, Option.some.injEq, Prod.mk.injEq]
  constructor
  · rintro ⟨⟨hposition, hcell⟩, hrank⟩
    exact ⟨hposition.symm, hcell.symm, hrank⟩
  · rintro ⟨hposition, hcell, hrank⟩
    exact ⟨⟨hposition.symm, hcell.symm⟩, hrank⟩

/-! ## Considerate surroundings -/

/-- The first hook leaves particles in their places, the second one leaves what it
is told of their previous places, and the tracker does both. Beyond that they may
change anything. -/
structure Considerate (env : Surroundings α ω) : Prop where
  move : Hook.Preserves env.hooks.move fun p => (p.position, p.cell)
  tracker : Tracker.Preserves env.tracker fun p => (p.position, p.previousCell, p.previousRank)
  modify : Hook.Preserves env.hooks.modify fun p => (p.previousCell, p.previousRank)

omit [Generator γ] in
/-- Where there are no hooks, and the tracker goes by the position alone, the surroundings are considerate. -/
theorem considerate_byPosition {env : Surroundings α Nat} (hhooks : env.hooks = .none)
    (htracker : env.tracker = .byPosition) : Considerate env where
  move := by
    rw [hhooks]
    exact Hook.preserves_idle _
  tracker := by
    rw [htracker]
    exact Tracker.preserves_byPosition fun _ _ => rfl
  modify := by
    rw [hhooks]
    exact Hook.preserves_idle _

/-- Considerate surroundings leave every particle undisturbed. -/
theorem undisturbed_of_considerate {x : Release.Setting α} (henv : Considerate env) (h : w.Follows γ env x q) {j : Nat}
    {l : Life α} (hl : Traces env q w j l) : l.Undisturbed env.seat.rank := by
  obtain ⟨hposition, hcell⟩ := Prod.mk.inj (eq_of_map_eq (h.moved.map_eq henv.move) hl.ready hl.moved)
  -- After the first hook the particle is where the hook has left it, and came from the cell it has left it in.
  have hlocated : (l.located.position, l.located.previousCell, l.located.previousRank) =
      (l.moved.position, l.moved.cell, env.seat.rank) :=
    eq_of_map_eq (h.located_eq henv.tracker) hl.arrived hl.located
  obtain ⟨hlocated, hprevious⟩ := Prod.mk.inj hlocated
  obtain ⟨hpreviousCell, hpreviousRank⟩ := Prod.mk.inj hprevious
  obtain ⟨hleftCell, hleftRank⟩ := Prod.mk.inj (eq_of_map_eq (h.modified.map_eq henv.modify) hl.equipped hl.modified)
  constructor
  · calc l.located.position = l.moved.position := hlocated
      _ = l.ready.position := hposition
      _ = l.placed.position := hl.stays.position
  · calc l.modified.previousCell = l.equipped.previousCell := hleftCell
      _ = l.located.previousCell := hl.remains.previousCell
      _ = l.moved.cell := hpreviousCell
      _ = l.ready.cell := hcell
      _ = l.placed.cell := hl.stays.cell
  · calc l.modified.previousRank = l.equipped.previousRank := hleftRank
      _ = l.located.previousRank := hl.remains.previousRank
      _ = env.seat.rank := hpreviousRank

/-! ## One step -/

/-- Of the particles that a step keeps, those have their previous state at the
element that they were laid out on which were left undisturbed, and no others;
where the surroundings are considerate, all have it there. -/
theorem previous_place_undisturbed {registry : Registry α} {time : TimeStep α} {wantedLevel : Nat} {r r' : Run α γ ω}
    {summary : StepSummary α} (h : (inject env registry time wantedLevel).Yields r (.injected summary) r') :
    ∃ ws, Gained env registry time wantedLevel r r' summary ws ∧
      List.Forall₂ (fun q w => ∀ (j : Nat) (p : Particle α), (w.kept time.dtp)[j]? = some p →
        ∃ l, Traces env q w j l ∧ p = l.last time.dtp ∧
          (PreviousAtHome env q l.element p ↔ l.Undisturbed env.seat.rank) ∧
          (Considerate env → PreviousAtHome env q l.element p)) (dueSets registry time r) ws := by
  obtain ⟨ws, hgained⟩ := gained_of_injected h
  refine ⟨ws, hgained, hgained.passages.imp fun q w hw j p hp => ?_⟩
  obtain ⟨l, hl, rfl⟩ := hw.1.exists_life hp
  have hiff := previousAtHome_iff hl time.dtp
  exact ⟨l, hl, rfl, hiff, fun henv => hiff.2 (undisturbed_of_considerate henv hw.1 hl)⟩

/-! ## A pair of which one rank moves its particles -/

/-- The previous positions of a rank's particles. -/
def previousPositions (out : PairEnd) : List (Vec3 ℚ) := out.2.injector.population.particles.toList.map (·.previousPosition)

/-- The particles of rank 1 have come from where the hook has put them, and not from their face. -/
theorem previous_place_disturbed :
    (Group.run (List.ofFn (pairStep ![0, 0] 10))).map (·.map previousPositions) =
      some [[], [.onAxis .y 1, .onAxis .y 1]] ∧
    ∀ i q, q ∈ (pairRegistry ![0, 0] i).requests → Release.home q.zone (pairEnv i).mesh 0 = some (.onAxis .x 1, 0) := by
  decide +kernel

/-- All particles that a rank has have come from where the hook has put them. -/
def comeFromHook (out : PairEnd) : Bool := (previousPositions out).all fun x => x = .onAxis .y 1

/-- The pair without hooks, and with a tracker that goes by the position alone. -/
def quietEnv (i : Fin 2) : Surroundings ℚ Nat where
  seat := { rank := i, size := 2 }
  mesh := (pairEnv i).mesh
  fluid := (pairEnv i).fluid
  hooks := .none
  tracker := .byPosition

def quietRuns (i : Fin 2) : Run ℚ ChaCha.State Nat where
  injector := (pairRuns 10 i).injector
  census := .zero
  sink := .recording
  outside := 0

/-- Where the pair has moved particles, two of four are kept, and each of them has a life.
Where nobody moves any, all four are kept, and all have their previous state at their faces. -/
theorem previous_place_undisturbed_onPair : (∃ (s : Fin 2 → StepSummary ℚ) (ts : Fin 2 → Run ℚ ChaCha.State Unit),
    Group.run (List.ofFn (pairStep ![0, 0] 10)) = some (List.ofFn fun i => (.ok (.injected (s i)), ts i)) ∧
    ∀ i, (s i).released = 2 ∧ (∀ p ∈ (ts i).injector.population.particles, p.previousPosition = .onAxis .y 1) ∧
      ∃ ws, Gained (pairEnv i) (pairRegistry ![0, 0] i) firstStep 0 (pairRuns 10 i) (ts i) (s i) ws ∧
        List.Forall₂ (fun q w => ∀ (j : Nat) (p : Particle ℚ), (w.kept firstStep.dtp)[j]? = some p →
          ∃ l, Traces (pairEnv i) q w j l ∧ p = l.last firstStep.dtp ∧
            (PreviousAtHome (pairEnv i) q l.element p ↔ l.Undisturbed (pairEnv i).seat.rank) ∧
            (Considerate (pairEnv i) → PreviousAtHome (pairEnv i) q l.element p))
          (dueSets (pairRegistry ![0, 0] i) firstStep (pairRuns 10 i)) ws) ∧
    ∃ (s : Fin 2 → StepSummary ℚ) (ts : Fin 2 → Run ℚ ChaCha.State Nat),
      Group.run (List.ofFn fun i => (inject (quietEnv i) (pairRegistry ![0, 0] i) firstStep 0).on (quietRuns i)) =
        some (List.ofFn fun i => (.ok (.injected (s i)), ts i)) ∧
      ∀ i, (s i).released = 4 ∧
        ∃ ws, Gained (quietEnv i) (pairRegistry ![0, 0] i) firstStep 0 (quietRuns i) (ts i) (s i) ws ∧
          List.Forall₂ (fun q w => ∀ (j : Nat) (p : Particle ℚ), (w.kept firstStep.dtp)[j]? = some p →
            ∃ l, Traces (quietEnv i) q w j l ∧ PreviousAtHome (quietEnv i) q l.element p)
            (dueSets (pairRegistry ![0, 0] i) firstStep (quietRuns i)) ws := by
  constructor
  · have hall : (Group.run (List.ofFn (pairStep ![0, 0] 10))).map
        (·.all fun out => releasedCount 2 out && comeFromHook out) = some true := by decide +kernel
    obtain ⟨s, ts, hrun, htest⟩ := released_of_all comeFromHook hall
    have hresults : Results (fun i => inject (pairEnv i) (pairRegistry ![0, 0] i) firstStep 0) (pairRuns 10)
        (fun i => .injected (s i)) ts := hrun
    refine ⟨s, ts, hrun, fun i => ⟨(htest i).1, fun p hp => ?_, previous_place_undisturbed (hresults.yields i)⟩⟩
    have hmem : p.previousPosition ∈ previousPositions (.ok (.injected (s i)), ts i) :=
      List.mem_map.2 ⟨p, Array.mem_toList_iff.2 hp, rfl⟩
    exact of_decide_eq_true (List.all_eq_true.1 (htest i).2 _ hmem)
  · have hall : (Group.run (List.ofFn fun i => (inject (quietEnv i) (pairRegistry ![0, 0] i) firstStep 0).on
        (quietRuns i))).map (·.all fun out => releasedCount 4 out && true) = some true := by decide +kernel
    obtain ⟨s, ts, hrun, htest⟩ := released_of_all (fun _ => true) hall
    have hresults : Results (fun i => inject (quietEnv i) (pairRegistry ![0, 0] i) firstStep 0) quietRuns
        (fun i => .injected (s i)) ts := hrun
    refine ⟨s, ts, hrun, fun i => ⟨(htest i).1, ?_⟩⟩
    obtain ⟨ws, hgained, hkept⟩ := previous_place_undisturbed (hresults.yields i)
    refine ⟨ws, hgained, hkept.imp fun q w hw j p hp => ?_⟩
    obtain ⟨l, hl, -, -, hconsiderate⟩ := hw j p hp
    exact ⟨l, hl, hconsiderate (considerate_byPosition rfl rfl)⟩

end Injector
end Inflow
