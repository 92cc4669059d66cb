import Inflow.Proofs.Checks.Admissibility
import Inflow.Proofs.Injector.Accounting
import Inflow.Proofs.Injector.Passage
import Inflow.Proofs.Ranks.Alone
import Inflow.Proofs.Scalar.Double
/-!
# Which particles a step admits

Every particle that a step adds has passed the check after all that was done to
it, by hooks and tracker too. So none of its attributes is zero or below where it
should be above, and the particle is admissible unless one of them is no number.
A mass that is no number passes the check, and comes out of attributes that the
check of the setup lets pass.
-/

namespace Inflow.Injector

open Step

open Admissibility (Admissible Numeric Unopposed)

section Step

variable {α γ ω : Type} [Scalar α] [Generator γ]

/-- The check has nothing against the particles that sets have kept. -/
theorem unopposed_of_passages {env : Surroundings α ω} {x : Release.Setting α} {qs : List (Request α)}
    {ws : List (Passage α)} (h : Passages γ env x qs ws) : ∀ p ∈ keptBy x.dtp ws, Unopposed x.model p := by
  induction h with
  | nil => exact fun p hp => absurd hp List.not_mem_nil
  | cons hw _ ih =>
    rw [keptBy, List.flatMap_cons]
    intro p hp
    obtain ⟨-, first, hnone⟩ := hw
    rcases List.mem_append.1 hp with hown | hrest
    · exact Admissibility.unopposed_of_violations hnone p (Array.mem_toList_iff.1 hown)
    · exact ih p hrest

/-- The check has nothing against a particle that a step adds, so the particle is
admissible if and only if the attributes that are checked are numbers. -/
theorem admissible_of_numbers [OrderedScalar α] {env : Surroundings α ω} {registry : Registry α} {time : TimeStep α}
    {wantedLevel : Nat} {r r' : Run α γ ω} {summary : StepSummary α}
    (h : (inject env registry time wantedLevel).Yields r (.injected summary) r') :
    ∃ added, r'.injector.population.particles.toList = r.injector.population.particles.toList ++ added ∧
      ∀ p ∈ added, Unopposed r.injector.settings.model p ∧
        (Admissible r.injector.settings.model p ↔ Numeric r.injector.settings.model p) := by
  obtain ⟨ws, hgained⟩ := gained_of_injected h
  refine ⟨keptBy time.dtp ws, hgained.particles, fun p hp => ?_⟩
  have hunopposed : Unopposed r.injector.settings.model p := unopposed_of_passages hgained.passages p hp
  exact ⟨hunopposed, Admissibility.admissible_iff_numeric hunopposed⟩

end Step

/-- All particles of a rank have a positive mass. -/
def allHeavy (out : PairEnd) : Bool := out.2.injector.population.particles.toList.all fun p => 0 < p.mass

/-- The particles of the pair have passed the check, and have masses. -/
theorem admissible_of_numbers_onPair : ∃ (s : Fin 2 → StepSummary ℚ) (ts : Fin 2 → Run ℚ ChaCha.State Unit),
    Group.run (List.ofFn (pairStep ![0, 0] 10)) = some (List.ofFn fun i => (.ok (.injected (s i)), ts i)) ∧
    ∀ i, (s i).released = 2 ∧ (∀ p ∈ (ts i).injector.population.particles, 0 < p.mass) ∧
      ∃ added,
        (ts i).injector.population.particles.toList = (pairRuns 10 i).injector.population.particles.toList ++ added ∧
        ∀ p ∈ added, Unopposed (pairRuns 10 i).injector.settings.model p ∧
          (Admissible (pairRuns 10 i).injector.settings.model p ↔
            Numeric (pairRuns 10 i).injector.settings.model p) := by
  have hall : (Group.run (List.ofFn (pairStep ![0, 0] 10))).map
      (·.all fun out => releasedCount 2 out && allHeavy out) = some true := by decide +kernel
  obtain ⟨s, ts, hrun, htest⟩ := released_of_all allHeavy hall
  have hresults : Results (fun i => inject (pairEnv i) (pairRegistry ![0, 0] i) firstStep 0) (pairRuns 10)
      (fun i => .injected (s i)) ts := hrun
  refine ⟨s, ts, hrun, fun i => ⟨(htest i).1, fun p hp => ?_, admissible_of_numbers (hresults.yields i)⟩⟩
  exact of_decide_eq_true (List.all_eq_true.1 (htest i).2 p (Array.mem_toList_iff.2 hp))

/-! ## A particle without a mass -/

/-- A zone of one cell, and a set of one particle without density and of a
diameter whose cube is infinite. -/
def hollowRegistry : Registry Float where
  volume := [{
    zone := { id := 0, name := "cells", kind := .volume, elements := #[0] }
    nature := .inlet
    sets := [{ InjectionSet.standard with count := 1, location := .volume, density := 0, diameter := 1e200 }] }]

def loneEnv : Surroundings Float Unit where
  seat := .alone
  mesh := {
    cellCenters := #[.ofAxes fun _ => 1]
    cellVolumes := #[1]
    faceCenters := #[]
    faceNormals := #[]
    faceSurfaces := #[]
    faceCells := #[]
    box := none }
  fluid := .uniform (.onAxis .x 1) 300
  hooks := .none
  tracker := { relocate := fun _ ps _ w => ((ps, []), w) }

def loneRun : Run Float ChaCha.State Unit where
  injector := {
    settings := { ceiling := 10 }
    stream := .ofSeed 0
    population := .empty
    events := {}
    flow := .unset }
  census := .zero
  sink := .recording
  outside := ()

/-- The first step of a rank on its own. -/
def hollowStep : Program Float (Except (Halt Float) (StepOutcome Float) × Run Float ChaCha.State Unit) :=
  (inject loneEnv hollowRegistry { step := 1, start := 0, dtp := 1 } 0).on loneRun

/-- The step has kept one particle, whose mass is no number. -/
def keptHollow (out : Except (Halt Float) (StepOutcome Float) × Run Float ChaCha.State Unit) : Bool :=
  match out.1 with
  | .ok (.injected s) => s.kept == 1 && out.2.injector.population.particles.toList.any fun p => ¬ p.mass ≤ p.mass
  | _ => false

/-- A step adds a particle whose mass is no number, and which is so not admissible. -/
theorem hollow_particle_admitted : ∃ s r', Group.run [hollowStep] = some [(.ok (.injected s), r')] ∧
    ∃ p ∈ r'.injector.population.particles, ¬ p.mass ≤ p.mass ∧ ¬ Admissible loneRun.injector.settings.model p := by
  have hinputs : hollowStep.flag? = some false := by decide +kernel
  have hroom : (hollowStep.afterVote false).flag? = some false := by decide +kernel
  -- The third vote is on displacement, which is told from a root; the tracker leaves the particle where it is.
  obtain ⟨b, hb⟩ := ((hollowStep.afterVote false).afterVote false).exists_alone_afterVote
  have hkept : ∀ b, keptHollow (((hollowStep.afterVote false).afterVote false).afterVote b).alone = true := by
    decide +kernel
  rw [Group.run_singleton, Program.alone_of_flag hinputs, Program.alone_of_flag hroom, hb]
  specialize hkept b
  generalize (((hollowStep.afterVote false).afterVote false).afterVote b).alone = out at hkept
  rcases out with ⟨_ | (_ | s), r'⟩
  · cases hkept
  · cases hkept
  · obtain ⟨p, hp, hmass⟩ := List.any_eq_true.1 (Bool.and_eq_true_iff.1 hkept).2
    have hself : ¬ p.mass ≤ p.mass := of_decide_eq_true hmass
    refine ⟨s, r', rfl, p, Array.mem_toList_iff.1 hp, hself, fun h => hself ?_⟩
    exact (OrderedScalar.ordered_of_le (OrderedScalar.le_of_lt h.mass)).2

end Inflow.Injector
