import Inflow.Proofs.Injector.Admission
import Inflow.Proofs.Injector.Ceiling
/-!
# Which steps are skipped

The ceiling is compared with what all sets ask for, the sets that are due and
those that are idle at the step alike. So a step is also skipped where the sets
that are due would fit, if what the idle ones ask for makes the difference, and
for no other reason.
-/

namespace Inflow.Injector

open Step

variable {α γ ω : Type}

/-! ## Sets that are due and sets that are idle -/

/-- The number of particles that the sets which are not due ask for. -/
def idleCount (time : TimeStep α) (released : Nat) (qs : List (Request α)) : Nat :=
  ((qs.filter fun q => !dueAt time released q).map (·.set.count)).sum

/-- Every set is due or idle. -/
theorem dueCount_add_idleCount (time : TimeStep α) (released : Nat) (qs : List (Request α)) :
    dueCount time released qs + idleCount time released qs = (qs.map (·.set.count)).sum := by
  induction qs with
  | nil => rfl
  | cons q qs ih =>
    unfold dueCount idleCount at *
    cases hdue : dueAt time released q <;> simp [hdue] <;> omega

/-- The number of particles there would be if all sets were released. -/
def wouldBe (registry : Registry α) (time : TimeStep α) (r : Run α γ ω) : Nat :=
  r.census.total + dueCount time r.census.cumulativeTotal registry.requests +
    idleCount time r.census.cumulativeTotal registry.requests

theorem projected_eq (registry : Registry α) (time : TimeStep α) (r : Run α γ ω) :
    r.census.projected registry.totalRequested = min (wouldBe registry time r) Count.limit := by
  rw [wouldBe, Nat.add_assoc, dueCount_add_idleCount, Census.projected, Count.addUpTo, Registry.totalRequested_eq]
  omega

/-! ## Skipping -/

variable [Scalar α] [Generator γ] {env : Surroundings α ω} {registry : Registry α} {time : TimeStep α}
  {wantedLevel : Nat} {r : Run α γ ω}

omit [Generator γ] in
/-- A skipped step can begin, and reports what it has compared. -/
theorem yields_skip_iff {current projected ceiling : Nat} :
    (∃ r', (skip registry time).Yields r (.skipped current projected ceiling) r') ↔
      (∃ flow, freshFlow registry r.injector.settings.model = .ok flow) ∧ current = r.census.total ∧
        projected = r.census.projected registry.totalRequested ∧ ceiling = r.injector.settings.ceiling := by
  constructor
  · rintro ⟨r', h⟩
    obtain ⟨-, flow, -, hflow, -⟩ := yields_skip h
    rw [Yields, on_skip time hflow, Program.can_done] at h
    cases h
    exact ⟨⟨flow, hflow⟩, rfl, rfl, rfl⟩
  · rintro ⟨⟨flow, hflow⟩, rfl, rfl, rfl⟩
    obtain ⟨out, hout, houtcome⟩ : ∃ out, (skip registry time).on r = .done out ∧ out.1 = .ok (.skipped r.census.total
        (r.census.projected registry.totalRequested) r.injector.settings.ceiling) := ⟨_, on_skip time hflow, rfl⟩
    refine ⟨out.2, yields_of_can ?_⟩
    rw [hout, ← houtcome]
    rfl

/-- A step that passes the ceiling is skipped, and no other step is. -/
theorem yields_inject_skipped_iff {current projected ceiling : Nat} :
    (∃ r', (inject env registry time wantedLevel).Yields r (.skipped current projected ceiling) r') ↔
      registry.issues r.injector.settings.model = [] ∧ PassesCeiling registry r ∧
        ∃ r', (skip registry time).Yields r (.skipped current projected ceiling) r' := by
  have hsame : registry.issues r.injector.settings.model = [] → PassesCeiling registry r →
      (inject env registry time wantedLevel).on r = (skip registry time).on r := by
    intro hissues hceiling
    rw [on_inject, if_pos hissues, if_pos hceiling]
  constructor
  · rintro ⟨r', h⟩
    obtain ⟨hissues, hceiling, -⟩ := yields_inject_skipped h
    exact ⟨hissues, hceiling, r', (yields_congr (hsame hissues hceiling)).1 h⟩
  · rintro ⟨hissues, hceiling, r', h⟩
    exact ⟨r', (yields_congr (hsame hissues hceiling)).2 h⟩

/-- A step whose setup is right is skipped if and only if the particles there are
and those that all sets ask for, due or idle, are above the ceiling. Otherwise it
goes on to release the sets that are due. -/
theorem skipped_exactly (env : Surroundings α ω) (registry : Registry α) (time : TimeStep α) (wantedLevel : Nat)
    (r : Run α γ ω) :
    (∀ current projected ceiling,
      (∃ r', (inject env registry time wantedLevel).Yields r (.skipped current projected ceiling) r') ↔
        registry.issues r.injector.settings.model = [] ∧
        (∃ flow, freshFlow registry r.injector.settings.model = .ok flow) ∧
        current = r.census.total ∧ projected = min (wouldBe registry time r) Count.limit ∧
        ceiling = r.injector.settings.ceiling ∧ ceiling < projected) ∧
    (registry.issues r.injector.settings.model = [] → wouldBe registry time r ≤ r.injector.settings.ceiling →
      (inject env registry time wantedLevel).on r = (release env registry time wantedLevel).on r) := by
  constructor
  · intro current projected ceiling
    rw [yields_inject_skipped_iff, yields_skip_iff, PassesCeiling, projected_eq registry time]
    constructor
    · rintro ⟨hissues, hceiling, hflow, rfl, rfl, rfl⟩
      exact ⟨hissues, hflow, rfl, rfl, rfl, hceiling⟩
    · rintro ⟨hissues, hflow, rfl, rfl, rfl, hceiling⟩
      exact ⟨hissues, hceiling, hflow, rfl, rfl, rfl⟩
  · intro hissues hfits
    have hbelow : ¬ PassesCeiling registry r := by
      rw [PassesCeiling, projected_eq registry time]
      omega
    rw [on_inject, if_pos hissues, if_neg hbelow]

/-! ## A step skipped for a set that is idle -/

/-- One cell with two sets: a particle at every step, and four at every second. -/
def unevenRegistry : Registry Float where
  volume := [{
    zone := { id := 0, name := "cells", kind := .volume, elements := #[0] }
    nature := .inlet
    sets := [{ InjectionSet.standard with count := 1, location := .volume },
      { InjectionSet.standard with count := 4, frequency := 2, location := .volume, id := 1 }] }]

/-- A run with room for so many particles. -/
def roomFor (ceiling : Nat) : Run Float ChaCha.State Unit :=
  { loneRun with injector := { loneRun.injector with settings := { ceiling } } }

/-- The first step of a rank on its own. -/
def loneStep : TimeStep Float := { step := 1, start := 0, dtp := 1 }

theorem issues_unevenRegistry (ceiling : Nat) :
    unevenRegistry.issues (roomFor ceiling).injector.settings.model = [] := by
  have hnone : (unevenRegistry.issues ({} : Model Float)).isEmpty = true := by decide +kernel
  exact List.isEmpty_iff.1 hnone

theorem freshFlow_unevenRegistry (ceiling : Nat) :
    ∃ flow, freshFlow unevenRegistry (roomFor ceiling).injector.settings.model = .ok flow := ⟨_, rfl⟩

/-- Of five particles the first step would release one, but is skipped under a
ceiling of three; under a ceiling of five it is released. -/
theorem skipped_exactly_unevenSets :
    (∃ r', (inject loneEnv unevenRegistry loneStep 0).Yields (roomFor 3) (.skipped 0 5 3) r') ∧
      (inject loneEnv unevenRegistry loneStep 0).on (roomFor 5) =
        (release loneEnv unevenRegistry loneStep 0).on (roomFor 5) :=
  ⟨((skipped_exactly loneEnv unevenRegistry loneStep 0 (roomFor 3)).1 0 5 3).2
      ⟨issues_unevenRegistry 3, freshFlow_unevenRegistry 3, rfl, by decide +kernel, rfl, by decide⟩,
    (skipped_exactly loneEnv unevenRegistry loneStep 0 (roomFor 5)).2 (issues_unevenRegistry 5) (by decide +kernel)⟩

/-- A step is skipped although what is due would fit under the ceiling. -/
theorem skipped_although_due_fit :
    (∃ r', (inject loneEnv unevenRegistry loneStep 0).Yields (roomFor 3) (.skipped 0 5 3) r') ∧
      (roomFor 3).census.total + dueCount loneStep (roomFor 3).census.cumulativeTotal unevenRegistry.requests ≤
        (roomFor 3).injector.settings.ceiling := by
  refine ⟨yields_inject_skipped_iff.2 ⟨issues_unevenRegistry 3, ?_, ?_⟩, by decide +kernel⟩
  · rw [PassesCeiling]
    decide +kernel
  · exact yields_skip_iff.2 ⟨freshFlow_unevenRegistry 3, rfl, by decide +kernel, rfl⟩

end Inflow.Injector
