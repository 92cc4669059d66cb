import Inflow.Proofs.InjectionSet
import Inflow.Proofs.Injector.Accounting
import Inflow.Proofs.Injector.Abandoned
/-!
# Sets that are released once

A set that asks for one release is due at the step after the start of the run, and only
while nothing has been counted as released. The number of that step comes once, and the
count never goes down: a step that is skipped or given up leaves it, and a step that
releases particles adds those that are kept. So over all the steps of a run such sets
are released in one of them at most. Step zero is the exception, at which they are
always due.
-/

namespace Inflow.Injector

open Step

variable {α γ ω : Type} [Scalar α] [Generator γ] {ranks : Nat}

/-! ## The count over one step -/

section Census

variable {env : Surroundings α ω} {registry : Registry α} {time : TimeStep α} {wantedLevel : Nat}
  {r r' : Run α γ ω} {e : InjectionError α}

/-- A step that is given up has entered nothing into the census. -/
theorem census_of_errs (h : (inject env registry time wantedLevel).Errs r e r') : r'.census = r.census := by
  have hon := on_inject env registry time wantedLevel r
  split at hon
  · split at hon
    · exact (not_errs_skip ((errs_congr hon).1 h)).elim
    · rcases errs_bind.1 ((errs_congr hon).1 h) with hrelease | ⟨sets, m, -, hend⟩
      · obtain ⟨_, _, -, hgrew⟩ := abandoned_releaseSets hrelease
        exact hgrew.census
      · exact (not_errs_conclude hend).elim
  · obtain ⟨-, rfl⟩ := errs_throw.1 ((errs_congr hon).1 h)
    rfl

end Census

/-- A step of a group: what it starts from and what all ranks come to. -/
structure Turn (α γ ω : Type) (ranks : Nat) where
  env : Fin ranks → Surroundings α ω
  registry : Fin ranks → Registry α
  time : TimeStep α
  wantedLevel : Fin ranks → Nat
  before : Fin ranks → Run α γ ω
  outs : Fin ranks → Except (Halt α) (StepOutcome α) × Run α γ ω

namespace Turn

variable (t u : Turn α γ ω ranks)

/-- The ranks carry out the step. -/
structure Taken : Prop where
  shared : Shared t.env t.registry t.before
  run : Group.run (List.ofFn fun i => (inject (t.env i) (t.registry i) t.time (t.wantedLevel i)).on (t.before i)) =
    some (List.ofFn t.outs)

/-- Some rank may release the set: the step is not held back, and the set is due. -/
def MayRelease (q : Request α) : Prop :=
  ∃ i, (t.registry i).issues (t.before i).injector.settings.model = [] ∧
    ¬ PassesCeiling (t.registry i) (t.before i) ∧ q ∈ dueSets (t.registry i) t.time (t.before i)

/-- There is a set that is released at the first step only, and it may be released. -/
def ReleasesOnce : Prop := ∃ q, t.MayRelease q ∧ q.set.FirstStepOnly

/-- What rank `i` has counted as released before the step. -/
def countBefore (i : Fin ranks) : Nat := (t.before i).census.cumulativeTotal

/-- What rank `i` has counted as released after the step. -/
def countAfter (i : Fin ranks) : Nat := (t.outs i).2.census.cumulativeTotal

variable {t u}

theorem Taken.count_of_injected (h : t.Taken) {i : Fin ranks} {s : StepSummary α}
    (hi : (t.outs i).1 = .ok (.injected s)) :
    ∃ kept : Fin ranks → Nat, kept i = s.kept ∧ ∀ j, t.countAfter j = t.countBefore j + ∑ k, kept k := by
  obtain ⟨ss, ts, houts, haccounted⟩ := accounted_of_run h.shared h.run hi
  rw [houts] at hi
  cases hi
  refine ⟨fun k => keptIn (ss k).sets, (haccounted.kept i).symm, fun j => ?_⟩
  rw [countAfter, houts, (haccounted.census j).cumulativeTotal]
  rfl

/-- Nothing is taken from the count by a step. -/
theorem Taken.count_le (h : t.Taken) {i : Fin ranks} (hi : ¬ Faulted (t.outs i)) :
    t.countBefore i ≤ t.countAfter i := by
  have hcan := Group.can_of_run h.run i
  match hout : (t.outs i).1 with
  | .ok (.injected s) =>
    obtain ⟨kept, -, hcount⟩ := h.count_of_injected hout
    rw [hcount]
    exact Nat.le_add_right ..
  | .ok (.skipped current projected ceiling) =>
    obtain ⟨-, -, flow, log, -, hsame⟩ := yields_inject_skipped (yields_of_out hcan hout)
    rw [countAfter, hsame]
    rfl
  | .error (.error e) =>
    rw [countAfter, census_of_errs (errs_of_out hcan hout)]
    rfl
  | .error (.fault f) => exact absurd ⟨f, hout⟩ hi

/-- What is kept on a rank is counted on all. -/
theorem Taken.kept_le (h : t.Taken) {i : Fin ranks} {s : StepSummary α} (hi : (t.outs i).1 = .ok (.injected s))
    (j : Fin ranks) : s.kept ≤ t.countAfter j := by
  obtain ⟨kept, hkept, hcount⟩ := h.count_of_injected hi
  have hone : kept i ≤ ∑ k, kept k := Finset.single_le_sum (fun _ _ => Nat.zero_le _) (Finset.mem_univ i)
  rw [hcount, ← hkept]
  omega

/-- A set that is released at the first step only has its turn there, or at step zero. -/
theorem Taken.first_of_releasesOnce (h : t.Taken) (honce : t.ReleasesOnce) (hstep : t.time.step ≠ 0) :
    t.time.step = t.time.start + 1 ∧ ∀ i, t.countBefore i = 0 := by
  obtain ⟨q, ⟨i, -, -, hq⟩, hfrequency⟩ := honce
  have hdue := isDue_of_dueAt (List.mem_filter.1 hq).2
  rcases (hfrequency.due_iff hdue).1 rfl with ⟨hfirst, hcount⟩ | hzero
  · exact ⟨hfirst, fun j => (congrArg Census.cumulativeTotal (h.shared.census j i)).trans hcount⟩
  · exact absurd hzero hstep

/-! ## All steps of a run -/

variable (t u) in
/-- One step comes some time after another: that has not stopped at a fault, and
nothing has been taken from the count since. -/
structure Before : Prop where
  alive : ∀ i, ¬ Faulted (t.outs i)
  counted : ∀ i, t.countAfter i ≤ u.countBefore i

theorem Before.trans {v : Turn α γ ω ranks} (h : t.Before u) (hu : u.Taken) (hv : u.Before v) : t.Before v where
  alive := h.alive
  counted i := ((h.counted i).trans (hu.count_le (hv.alive i))).trans (hv.counted i)

end Turn

/-- The steps of a run that began after step `start`. Their numbers are different. -/
structure Succession (start : Nat) (turns : List (Turn α γ ω ranks)) : Prop where
  taken : ∀ t ∈ turns, t.Taken
  start : ∀ t ∈ turns, t.time.start = start
  distinct : turns.Pairwise fun t u => t.time.step ≠ u.time.step
  next : turns.IsChain Turn.Before

/-- Each step comes after all that stand before it. -/
theorem pairwise_before {turns : List (Turn α γ ω ranks)} (htaken : ∀ t ∈ turns, t.Taken)
    (hnext : turns.IsChain Turn.Before) : turns.Pairwise Turn.Before := by
  induction turns with
  | nil => exact .nil
  | cons t turns ih =>
    have hrest := ih (fun u hu => htaken u (List.mem_cons_of_mem t hu)) hnext.tail
    refine List.pairwise_cons.2 ⟨?_, hrest⟩
    cases turns with
    | nil => nofun
    | cons u turns =>
      have hu := (List.isChain_cons_cons.1 hnext).1
      intro v hv
      rcases List.mem_cons.1 hv with rfl | hv
      · exact hu
      · exact hu.trans (htaken u (by simp)) ((List.pairwise_cons.1 hrest).1 v hv)

/-- A periodic set is due at the multiples of its period, and a set without one at
the first step of a run that has released nothing, and at step zero. Over the steps
of a run, sets without a period are released in one step other than zero at most, and
in none after particles have been kept. -/
theorem released_at_first_step :
    (∀ (s : InjectionSet α) (step start released : Nat), start < Count.limit → step < Count.limit →
      ∃ due, s.isDue step start released = .ok due ∧
        (due = true ↔ if 0 < s.frequency then s.frequency.toNat ∣ step
          else step = start + 1 ∧ released = 0 ∨ step = 0)) ∧
    ∀ (start : Nat) (turns : List (Turn α γ ω ranks)), Succession start turns →
      (∀ t ∈ turns, t.ReleasesOnce → t.time.step ≠ 0 → t.time.step = start + 1 ∧ ∀ i, t.countBefore i = 0) ∧
      turns.Pairwise fun t u => u.ReleasesOnce → u.time.step ≠ 0 →
        (t.ReleasesOnce → t.time.step = 0) ∧ ∀ i s, (t.outs i).1 = .ok (.injected s) → s.kept = 0 := by
  refine ⟨fun s step start released hstart hstep => ?_, fun start turns h => ?_⟩
  · obtain ⟨due, hdue⟩ := s.exists_isDue released hstart hstep
    exact ⟨due, hdue, InjectionSet.due_iff hdue⟩
  · have hfirst : ∀ t ∈ turns, t.ReleasesOnce → t.time.step ≠ 0 →
        t.time.step = start + 1 ∧ ∀ i, t.countBefore i = 0 := fun t ht honce hstep =>
      h.start t ht ▸ (h.taken t ht).first_of_releasesOnce honce hstep
    refine ⟨hfirst, ?_⟩
    have hpairs := (pairwise_before h.taken h.next).and h.distinct
    refine hpairs.imp_of_mem fun {t u} ht hu ⟨hbefore, hdistinct⟩ honce hstep => ?_
    obtain ⟨hnumber, hnone⟩ := hfirst u hu honce hstep
    constructor
    · -- Both steps would have the number after the start.
      intro htoo
      by_contra hzero
      exact hdistinct ((hfirst t ht htoo hzero).1.trans hnumber.symm)
    · intro i _ hi
      have hcount := (hbefore.counted i).trans (hnone i).le
      exact Nat.le_zero.1 (((h.taken t ht).kept_le hi i).trans hcount)

/-- Sets without a period are not due at the first step of a run alone: one is due at
step zero of a run that began after step five, with three particles released before. -/
theorem due_at_step_zero :
    ¬ ∀ (s : InjectionSet ℚ) (step start released : Nat), start < Count.limit → step < Count.limit →
      s.frequency ≤ 0 →
        ∃ due, s.isDue step start released = .ok due ∧ (due = true ↔ step = start + 1 ∧ released = 0) := by
  intro hexact
  obtain ⟨due, hdue, hiff⟩ := hexact { InjectionSet.standard with frequency := 0 } 0 5 3 (by decide) (by decide) le_rfl
  cases (rfl : _ = Except.ok true).symm.trans hdue
  exact absurd (hiff.1 rfl) (by decide)

/-! ## A pair with a set that is released once -/

/-- The inlet of the pair, with a set that asks for one release. -/
def onceEntry : ZoneEntry ℚ where
  zone := { id := 0, name := "inlet", kind := .boundary, elements := #[0] }
  nature := .inlet
  sets := [{ InjectionSet.standard with count := 4, frequency := 0 }]

def onceRegistry (_ : Fin 2) : Registry ℚ where
  boundary := [onceEntry]

/-- The pair when so many particles have been counted as released. -/
def countedRuns (count : Nat) (i : Fin 2) : Run ℚ ChaCha.State Unit :=
  { pairRuns 10 i with census := { (Census.zero : Census ℚ) with cumulativeTotal := count } }

/-- The time of a step in a run that began after step zero. -/
def timeOf (step : Nat) : TimeStep ℚ := { step, start := 0, dtp := 1 }

/-- A step of a rank of the pair. -/
def onceStep (step count : Nat) (i : Fin 2) : Program ℚ PairEnd :=
  (inject (pairEnv i) (onceRegistry i) (timeOf step) 0).on (countedRuns count i)

/-- A step of the pair. -/
def onceTurn (step count : Nat) (outs : Fin 2 → PairEnd) : Turn ℚ ChaCha.State Unit 2 where
  env := pairEnv
  registry := onceRegistry
  time := timeOf step
  wantedLevel _ := 0
  before := countedRuns count
  outs

theorem taken_onceTurn {step count : Nat} {outs : Fin 2 → PairEnd}
    (h : Group.run (List.ofFn (onceStep step count)) = some (List.ofFn outs)) : (onceTurn step count outs).Taken where
  shared := {
    ranks_pos := Nat.two_pos
    seated := fun _ => rfl
    settings := fun _ _ => by simp only [onceTurn, countedRuns, pairRuns]
    census := fun _ _ => rfl
    outline := fun _ _ => rfl }
  run := h

/-- The set of the pair may be released at the first step. -/
theorem releasesOnce_onceTurn (outs : Fin 2 → PairEnd) : (onceTurn 1 0 outs).ReleasesOnce := by
  have hissues : ((onceRegistry 0).issues ({} : Model ℚ)).isEmpty = true := by decide +kernel
  have hroom : ¬ PassesCeiling (onceRegistry 0) (countedRuns 0 0) := by
    rw [PassesCeiling]
    decide +kernel
  let q : Request ℚ :=
    { kind := .boundary, zoneIndex := 0, entry := onceEntry
      set := { InjectionSet.standard with count := 4, frequency := 0 } }
  have hdue : dueSets (onceRegistry 0) (timeOf 1) (countedRuns 0 0) = [q] := rfl
  have honce : q.set.FirstStepOnly := le_refl (0 : Int)
  exact ⟨q, ⟨0, List.isEmpty_iff.1 hissues, hroom, hdue ▸ List.mem_singleton_self q⟩, honce⟩

/-- Two particles of the set are kept at step one, so it is not due at step two. -/
theorem released_at_first_step_onPair :
    ∃ t u : Turn ℚ ChaCha.State Unit 2, Succession 0 [t, u] ∧ t.time.step = 1 ∧ t.ReleasesOnce ∧
      u.time.step = 2 ∧ ¬ u.ReleasesOnce := by
  have hfirst : (Group.run (List.ofFn (onceStep 1 0))).map
      (·.all fun out => releasedCount 2 out && out.2.census.cumulativeTotal == 2) = some true := by decide +kernel
  have hsecond : (Group.run (List.ofFn (onceStep 2 2))).map (·.all fun out => releasedCount 0 out && true) =
      some true := by decide +kernel
  obtain ⟨s, ts, hrun, hcounted⟩ := released_of_all (fun out => out.2.census.cumulativeTotal == 2) hfirst
  obtain ⟨s', ts', hrun', -⟩ := released_of_all (fun _ => true) hsecond
  have hsuccession : Succession 0 [onceTurn 1 0 fun i => (.ok (.injected (s i)), ts i),
      onceTurn 2 2 fun i => (.ok (.injected (s' i)), ts' i)] := by
    constructor
    case taken => simpa using ⟨taken_onceTurn hrun, taken_onceTurn hrun'⟩
    case start => simp [onceTurn, timeOf]
    case distinct => simp [onceTurn, timeOf]
    case next =>
      refine List.isChain_cons_cons.2 ⟨⟨?_, fun i => (beq_iff_eq.1 (hcounted i).2).le⟩, .singleton _⟩
      rintro i ⟨f, hf⟩
      cases hf
  obtain ⟨-, hpairs⟩ := released_at_first_step.2 0 _ hsuccession
  refine ⟨_, _, hsuccession, rfl, releasesOnce_onceTurn _, rfl, fun honce => ?_⟩
  obtain ⟨honly, -⟩ := (List.pairwise_cons.1 hpairs).1 _ (List.mem_singleton_self _) honce (Nat.succ_ne_zero 1)
  exact Nat.one_ne_zero (honly (releasesOnce_onceTurn _))

end Inflow.Injector
