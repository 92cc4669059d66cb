import Inflow.Proofs.FlowRates
import Inflow.Proofs.Injector.Accounting
/-!
# The ceiling holds, and a skipped step leaves no trace

A step that could bring the number of particles over all ranks above the ceiling
is skipped by every rank and changes nothing that counts. Any other step stays
below: its sets release no more than they ask for, even together.
-/

/-! ## What all sets ask for -/

namespace Inflow.Registry

variable {α : Type}

theorem foldl_addUpTo (qs : List (Request α)) {n : Nat} (h : n ≤ Count.limit) :
    qs.foldl (fun n q => Count.addUpTo n q.set.count) n = min (n + (qs.map (·.set.count)).sum) Count.limit := by
  induction qs generalizing n with
  | nil => simp [Nat.min_eq_left h]
  | cons q qs ih =>
    have hle : Count.addUpTo n q.set.count ≤ Count.limit := Nat.min_le_right _ _
    rw [List.foldl_cons, ih hle, List.map_cons, List.sum_cons, Count.addUpTo]
    omega

/-- The sum of all counts, up to the limit. -/
theorem totalRequested_eq (r : Registry α) :
    r.totalRequested = min ((r.requests.map (·.set.count)).sum) Count.limit := by
  rw [totalRequested, foldl_addUpTo _ (Nat.zero_le _), Nat.zero_add]

end Inflow.Registry

namespace Inflow.Injector

open Step

variable {α γ ω : Type} [Scalar α]

omit [Scalar α] in
/-- The sets that are due ask for no more than all sets do. -/
theorem dueCount_le (time : TimeStep α) (released : Nat) (qs : List (Request α)) :
    dueCount time released (qs.map Request.outline) ≤ (qs.map (·.set.count)).sum := by
  have hsub := (List.filter_sublist (p := dueAt time released) (l := qs.map Request.outline)).map (·.set.count)
  calc dueCount time released (qs.map Request.outline)
      ≤ ((qs.map Request.outline).map (·.set.count)).sum := hsub.sum_le_sum fun _ _ => Nat.zero_le _
    _ = (qs.map (·.set.count)).sum := by
      rw [List.map_map]
      rfl

omit [Scalar α] in
/-- Below a ceiling that is less than the largest count, no sum has stopped at the limit. -/
theorem requested_le_of_not_passesCeiling {registry : Registry α} {r : Run α γ ω}
    (hlimit : r.injector.settings.ceiling < Count.limit) (h : ¬ PassesCeiling registry r) :
    r.census.total + (registry.requests.map (·.set.count)).sum ≤ r.injector.settings.ceiling := by
  rw [PassesCeiling, Census.projected, Registry.totalRequested_eq, Count.addUpTo] at h
  omega

/-! ## Releasing below the ceiling -/

variable [Generator γ] {ranks : Nat} {env : Fin ranks → Surroundings α ω} {registry : Fin ranks → Registry α}
  {rs : Fin ranks → Run α γ ω}

/-- Where the ceiling is not passed, there is room below it for all that the ranks
have kept of their sets and lost. -/
theorem room_below_ceiling (h : Shared env registry rs) {time : TimeStep α} {wantedLevel : Fin ranks → Nat}
    {i : Fin ranks} (hceiling : ¬ PassesCeiling (registry i) (rs i))
    (hlimit : (rs i).injector.settings.ceiling < Count.limit) {sets : Fin ranks → List SetSummary}
    {us : Fin ranks → Run α γ ω}
    (hresults : Results (fun j => releaseSets (env j) (registry j) time (wantedLevel j) (registry j).requests) rs sets
      us) :
    (rs i).census.total + ∑ k, (keptIn (sets k) + lostIn (sets k)) ≤ (rs i).injector.settings.ceiling := by
  have hdue := promised_of_results
    (together_releaseSets h time wantedLevel (fun j => h.requests_outline_eq j i) i) hresults h.ranks_pos
  calc (rs i).census.total + ∑ k, (keptIn (sets k) + lostIn (sets k))
      ≤ (rs i).census.total + ((registry i).requests.map (·.set.count)).sum :=
        Nat.add_le_add_left (hdue.trans (dueCount_le _ _ _)) _
    _ ≤ (rs i).injector.settings.ceiling := requested_le_of_not_passesCeiling hlimit hceiling

omit [Generator γ] in
/-- The census to which a step comes when there is room below the limit of counts:
whether a later entry stays in its range or not, the total has been entered. -/
theorem total_enteredBy {sets : Fin ranks → List SetSummary} {i : Fin ranks} {limit : Nat} (hlimit : limit < Count.limit)
    (hroom : (rs i).census.total + ∑ k, ((rs k).injector.population.released + lostIn (sets k)) ≤ limit) :
    Count.add (rs i).census.total (∑ k, (rs k).injector.population.released) =
      .ok (enteredBy rs sets i).state.total := by
  obtain ⟨hreleased, hfailed⟩ := sums_ownTotals rs sets
  rw [Finset.sum_add_distrib] at hroom
  have hadd : Count.add (rs i).census.total (∑ k, (rs k).injector.population.released) =
      .ok ((rs i).census.total + ∑ k, (rs k).injector.population.released) := Count.add_eq_ok.2 ⟨rfl, by omega⟩
  rw [enteredBy, Census.committed_eq_enter (by omega) (by omega), hreleased, Census.total_enter hadd, hadd]

/-- Once all ranks have released their sets, a step that has not passed the ceiling
comes to an end with all of it in the total, and with a total below the ceiling.
What a later entry may still stop at is not the total. -/
theorem ends_below_ceiling (h : Shared env registry rs) {time : TimeStep α} {wantedLevel : Fin ranks → Nat}
    {i : Fin ranks} (hissues : (registry i).issues (rs i).injector.settings.model = [])
    (hceiling : ¬ PassesCeiling (registry i) (rs i)) (hlimit : (rs i).injector.settings.ceiling < Count.limit)
    {sets : Fin ranks → List SetSummary} {us : Fin ranks → Run α γ ω}
    (hresults : Results (fun j => releaseSets (env j) (registry j) time (wantedLevel j) (registry j).requests) rs sets
      us) :
    ∃ outs, Group.run (List.ofFn fun j => (inject (env j) (registry j) time (wantedLevel j)).on (rs j)) =
        some (List.ofFn outs) ∧
      ∀ j, (outs j).2.injector = (us j).injector ∧
        Count.add (rs j).census.total (∑ k, (us k).injector.population.released) = .ok (outs j).2.census.total ∧
        (outs j).2.census.total ≤ (rs j).injector.settings.ceiling := by
  have hsets : ∀ j, _ := fun j => yields_releaseSets (hresults.yields j)
  obtain ⟨outs, hrun, hconcluded⟩ := run_conclude env time us sets
  refine ⟨outs, ?_, fun j => ?_⟩
  · simp only [h.on_inject_eq time wantedLevel hissues hceiling, release]
    exact (run_bind hresults fun k => conclude (env k) time).trans hrun
  · have hroom := room_below_ceiling h hceiling hlimit hresults
    rw [← h.census j i, ← h.settings j i, ← (hsets j).2.1,
      Finset.sum_congr rfl fun k _ => congrArg (· + lostIn (sets k)) (hsets k).2.2.2.1.symm] at hroom
    have hadd := total_enteredBy (h.settings j i ▸ hlimit) hroom
    rw [← (hconcluded j).census, (hsets j).2.1] at hadd
    refine ⟨(hconcluded j).injector, hadd, ?_⟩
    rw [Finset.sum_add_distrib, (hsets j).2.1] at hroom
    rw [(Count.add_eq_ok.1 hadd).1]
    omega

/-- The particles that a step adds on all ranks stay below the ceiling, and so
does the census, which adds them without leaving the range of counts. -/
theorem total_le_ceiling (h : Shared env registry rs) {time : TimeStep α} {wantedLevel : Fin ranks → Nat}
    {outs : Fin ranks → Except (Halt α) (StepOutcome α) × Run α γ ω}
    (hrun : Group.run (List.ofFn fun i => (inject (env i) (registry i) time (wantedLevel i)).on (rs i)) =
      some (List.ofFn outs)) {i : Fin ranks} {s : StepSummary α} (hi : (outs i).1 = .ok (.injected s))
    (hlimit : (rs i).injector.settings.ceiling < Count.limit) (j : Fin ranks) :
    Count.add (rs j).census.total (∑ k, (outs k).2.injector.population.released) = .ok (outs j).2.census.total ∧
      (outs j).2.census.total ≤ (rs j).injector.settings.ceiling := by
  obtain ⟨hissues, hceiling, sets, us, hresults, -⟩ := injected_of_run h hrun hi
  obtain ⟨ends, hends, hall⟩ := ends_below_ceiling h hissues hceiling hlimit hresults
  obtain rfl := Group.results_unique hends hrun
  rw [Finset.sum_congr rfl fun k _ => congrArg (·.population.released) (hall k).1]
  exact (hall j).2

/-! ## Skipping -/

/-- The run of a rank that took no part in a step: apart from the log, what it
has is what it had, nothing is released, and all flow rates are zero. -/
structure Untouched (registry : Registry α) (r r' : Run α γ ω) : Prop where
  particles : r'.injector.population.particles = r.injector.population.particles
  stream : r'.injector.stream = r.injector.stream
  events : r'.injector.events = r.injector.events
  settings : r'.injector.settings = r.injector.settings
  sink : r'.sink = r.sink
  census : r'.census = r.census
  outside : r'.outside = r.outside
  released : r'.injector.population.released = 0
  releasedWeight : r'.injector.population.releasedWeight = 0
  empty : r'.injector.flow.Empty (fun kind => (registry.zones kind).length) r.injector.settings.model.classes
  rates : ∀ kind zone statClass, zone < (registry.zones kind).length →
    statClass ≤ r.injector.settings.model.classes → r'.injector.flow.get kind zone statClass = .ok 0

omit [Generator γ] in
theorem untouched_begun {registry : Registry α} {r : Run α γ ω} {flow : FlowRates α}
    (h : freshFlow registry r.injector.settings.model = .ok flow) (log : Array Message) :
    Untouched registry r { begun r flow with log } := by
  have hempty := empty_of_freshFlow h
  exact ⟨rfl, rfl, rfl, rfl, rfl, rfl, rfl, rfl, rfl, hempty, fun _ _ _ => hempty.get⟩

omit [Generator γ] in
theorem on_skip {registry : Registry α} {r : Run α γ ω} {flow : FlowRates α} (time : TimeStep α)
    (h : freshFlow registry r.injector.settings.model = .ok flow) :
    let projected := r.census.projected registry.totalRequested
    let said := Message.ceilingReached time.step r.census.total projected r.injector.settings.ceiling
    (skip registry time).on r = .done (.ok (.skipped r.census.total projected r.injector.settings.ceiling),
      { begun r flow with log := r.log ++ [said] }) := by
  obtain ⟨⟨out, m⟩, hm, -⟩ := quiet_beginStep registry r
  have hbegin : (beginStep registry).Yields r () (begun r flow) := yields_beginStep.2 ⟨flow, h, rfl⟩
  rw [Yields, hm] at hbegin
  cases hbegin
  rw [skip, on_bind, hm]
  rfl

/-- Where one rank skips the step, all ranks do, without meeting each other. -/
theorem skipped_together (h : Shared env registry rs) {time : TimeStep α} (wantedLevel : Fin ranks → Nat)
    {i : Fin ranks} {current projected ceiling : Nat} {r' : Run α γ ω}
    (hi : (inject (env i) (registry i) time (wantedLevel i)).Yields (rs i) (.skipped current projected ceiling) r') :
    ∃ ts : Fin ranks → Run α γ ω, (∀ j, (inject (env j) (registry j) time (wantedLevel j)).on (rs j) =
      .done (.ok (.skipped current projected ceiling), ts j)) ∧ ∀ j, Untouched (registry j) (rs j) (ts j) := by
  obtain ⟨hissues, hceiling, flow, -, hflow, -⟩ := yields_inject_skipped hi
  have hall : ∀ j, ∃ t, (inject (env j) (registry j) time (wantedLevel j)).on (rs j) =
      .done (.ok (.skipped (rs i).census.total ((rs i).census.projected (registry i).totalRequested)
        (rs i).injector.settings.ceiling), t) ∧ Untouched (registry j) (rs j) t := by
    intro j
    have hfresh : freshFlow (registry j) (rs j).injector.settings.model = .ok flow := by
      rw [← hflow, ← freshFlow_outline (registry j), ← freshFlow_outline (registry i), h.outline j i, h.settings j i]
    have hrequested : (registry j).totalRequested = (registry i).totalRequested :=
      Registry.totalRequested_eq_of_outline (h.outline j i)
    have hskip : (inject (env j) (registry j) time (wantedLevel j)).on (rs j) = (skip (registry j) time).on (rs j) := by
      rw [on_inject, h.issues_eq j i, if_pos hissues, if_pos ((h.passesCeiling_iff j i).2 hceiling)]
    rw [hskip, on_skip time hfresh, hrequested, h.census j i, h.settings j i]
    exact ⟨_, rfl, untouched_begun hfresh _⟩
  choose ts hts huntouched using hall
  rw [Yields, hts i] at hi
  cases hi
  exact ⟨ts, hts, huntouched⟩

/-- Below a ceiling that is less than the largest count, a step that does not pass it
and whose sets are released has room for all of them before it enters any into the
census, and no end of it, not even one at a fault, is due to the total: all ranks
have what was released in a total that is no more than the ceiling. So it is where
particles are reported as injected. A step that one rank skips is skipped by all
ranks and leaves them untouched. -/
theorem ceiling_kept (h : Shared env registry rs) (hlimit : ∀ i, (rs i).injector.settings.ceiling < Count.limit)
    (time : TimeStep α) (wantedLevel : Fin ranks → Nat) :
    (∀ i, (registry i).issues (rs i).injector.settings.model = [] → ¬ PassesCeiling (registry i) (rs i) →
      ∀ sets us, Results (fun j => releaseSets (env j) (registry j) time (wantedLevel j) (registry j).requests) rs sets
          us →
        (∀ j, (us j).census.total + ∑ k, (us k).injector.population.released ≤ (rs j).injector.settings.ceiling) ∧
        ∃ outs, Group.run (List.ofFn fun j => (inject (env j) (registry j) time (wantedLevel j)).on (rs j)) =
            some (List.ofFn outs) ∧
          ∀ j, Count.add (us j).census.total (∑ k, (us k).injector.population.released) =
              .ok (outs j).2.census.total ∧
            (outs j).2.census.total ≤ (rs j).injector.settings.ceiling) ∧
    (∀ outs : Fin ranks → Except (Halt α) (StepOutcome α) × Run α γ ω,
      Group.run (List.ofFn fun i => (inject (env i) (registry i) time (wantedLevel i)).on (rs i)) =
        some (List.ofFn outs) →
      ∀ i s, (outs i).1 = .ok (.injected s) → ∀ j,
        Count.add (rs j).census.total (∑ k, (outs k).2.injector.population.released) = .ok (outs j).2.census.total ∧
        (outs j).2.census.total ≤ (rs j).injector.settings.ceiling) ∧
    ∀ i current projected ceiling r',
      (inject (env i) (registry i) time (wantedLevel i)).Yields (rs i) (.skipped current projected ceiling) r' →
      ∃ ts, Results (fun j => inject (env j) (registry j) time (wantedLevel j)) rs
          (fun _ => .skipped current projected ceiling) ts ∧
        ∀ j, Untouched (registry j) (rs j) (ts j) := by
  refine ⟨fun i hissues hceiling sets us hresults => ?_,
    fun outs hrun i s hi j => total_le_ceiling h hrun hi (hlimit i) j, fun i _ _ _ _ hi => ?_⟩
  · obtain ⟨outs, hrun, hall⟩ := ends_below_ceiling h hissues hceiling (hlimit i) hresults
    have hcensus : ∀ j, (us j).census = (rs j).census := fun j => (yields_releaseSets (hresults.yields j)).2.1
    simp only [hcensus]
    refine ⟨fun j => ?_, outs, hrun, fun j => (hall j).2⟩
    rw [← (Count.add_eq_ok.1 (hall j).2.1).1]
    exact (hall j).2.2
  · obtain ⟨ts, hts, huntouched⟩ := skipped_together h wantedLevel hi
    refine ⟨ts, ?_, huntouched⟩
    rw [Results]
    simp only [hts]
    exact Group.run_done _

/-- A step that is skipped at these numbers. -/
def skippedAt (current projected ceiling : Nat) (out : PairEnd) : Bool :=
  match out.1 with
  | .ok (.skipped c p n) => c == current && p == projected && n == ceiling
  | _ => false

theorem eq_of_skippedAt {current projected ceiling : Nat} {out : PairEnd}
    (h : skippedAt current projected ceiling out) : out.1 = .ok (.skipped current projected ceiling) := by
  unfold skippedAt at h
  split at h
  · rename_i hout
    simp only [Bool.and_eq_true, beq_iff_eq] at h
    obtain ⟨⟨rfl, rfl⟩, rfl⟩ := h
    exact hout
  · cases h

/-- The runs of the pair when all particles have been released that can be counted. -/
def pairRunsAtLimit (ceiling : Nat) (i : Fin 2) : Run ℚ ChaCha.State Unit :=
  { pairRuns ceiling i with census := { Census.zero with cumulativeTotal := Count.limit } }

/-- A rank that has stopped at a count that is too large. -/
def hasOverflowed (out : PairEnd) : Bool :=
  match out.1 with
  | .error (.fault f) => f == .overflow
  | _ => false

theorem eq_of_hasOverflowed {out : PairEnd} (h : hasOverflowed out) : out.1 = .error (.fault .overflow) := by
  unfold hasOverflowed at h
  split at h
  · rw [‹out.1 = _›, eq_of_beq h]
  · cases h

/-- Four particles fit under a ceiling of ten, even if they are too many for the
number of those released since the beginning, and not under one of three. -/
theorem ceiling_kept_onPair :
    (∃ outs : Fin 2 → PairEnd, Group.run (List.ofFn (pairStep ![0, 0] 10)) = some (List.ofFn outs) ∧
      ∀ i, (outs i).2.census.total ≤ 10) ∧
    (∃ outs : Fin 2 → PairEnd,
      Group.run (List.ofFn fun i => (inject (pairEnv i) (pairRegistry ![0, 0] i) firstStep 0).on (pairRunsAtLimit 10 i)) =
        some (List.ofFn outs) ∧
      ∀ i, (outs i).1 = .error (.fault .overflow) ∧ (outs i).2.census.total ≤ 10) ∧
    ∃ ts : Fin 2 → Run ℚ ChaCha.State Unit,
      Group.run (List.ofFn (pairStep ![0, 0] 3)) = some (List.ofFn fun i => (.ok (.skipped 0 4 3), ts i)) ∧
      ∀ i, Untouched (pairRegistry ![0, 0] i) (pairRuns 3 i) (ts i) := by
  have hten : ∀ i, (pairRuns 10 i).injector.settings.ceiling < Count.limit := fun _ => show 10 < Count.limit by decide
  refine ⟨?_, ?_, ?_⟩
  · have hall : (Group.run (List.ofFn (pairStep ![0, 0] 10))).map (·.all (releasedCount 2)) = some true := by
      decide +kernel
    obtain ⟨outs, hrun, hreleased⟩ := Group.results_of_all _ hall
    obtain ⟨s, hs⟩ := injected_of_releasedCount (hreleased 0)
    have hkept := (ceiling_kept (pairShared ![0, 0] 10) hten firstStep fun _ => 0).2.1 outs hrun 0 s hs
    exact ⟨outs, hrun, fun i => (hkept i).2⟩
  · have hshared : Shared pairEnv (pairRegistry ![0, 0]) (pairRunsAtLimit 10) :=
      ⟨Nat.two_pos, fun _ => rfl, (pairShared ![0, 0] 10).settings, fun _ _ => rfl, fun _ _ => rfl⟩
    have hsets : (Group.run (List.ofFn fun i => (releaseSets (pairEnv i) (pairRegistry ![0, 0] i) firstStep 0
        (pairRegistry ![0, 0] i).requests).on (pairRunsAtLimit 10 i))).map (·.all fun out => out.1.toBool && true) =
        some true := by
      decide +kernel
    have hall : (Group.run (List.ofFn fun i => (inject (pairEnv i) (pairRegistry ![0, 0] i) firstStep 0).on
        (pairRunsAtLimit 10 i))).map (·.all hasOverflowed) = some true := by
      decide +kernel
    obtain ⟨sets, us, hresults, -⟩ := exists_results_of_all (fun _ => true) hsets
    obtain ⟨-, outs, hrun, hkept⟩ := (ceiling_kept hshared hten firstStep fun _ => 0).1 0 (by decide +kernel)
      (by decide +kernel) sets us hresults
    obtain ⟨outs', hrun', hoverflowed⟩ := Group.results_of_all _ hall
    obtain rfl := Group.results_unique hrun hrun'
    exact ⟨outs, hrun, fun i => ⟨eq_of_hasOverflowed (hoverflowed i), (hkept i).2⟩⟩
  · have hall : (Group.run (List.ofFn (pairStep ![0, 0] 3))).map (·.all (skippedAt 0 4 3)) = some true := by
      decide +kernel
    obtain ⟨outs, hrun, hskipped⟩ := Group.results_of_all _ hall
    have hyields : (inject (pairEnv 0) (pairRegistry ![0, 0] 0) firstStep 0).Yields (pairRuns 3 0) (.skipped 0 4 3)
        (outs 0).2 := by
      rw [Yields, ← eq_of_skippedAt (hskipped 0)]
      exact Group.can_of_run hrun 0
    have hthree : ∀ i, (pairRuns 3 i).injector.settings.ceiling < Count.limit := fun _ => show 3 < Count.limit by decide
    exact (ceiling_kept (pairShared ![0, 0] 3) hthree firstStep fun _ => 0).2.2 0 0 4 3 _ hyields

end Inflow.Injector
