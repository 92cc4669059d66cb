import Inflow.Proofs.Injector.Agreement
/-!
# Every particle is accounted for

Four places count the particles of a step: the population itself, the count of
those released in it, the summaries of its sets, and the census. They agree
after every step, whatever hooks and tracker do, so the number of particles over
all ranks and the total of the census never drift apart.
-/

namespace Inflow.Injector

open Step

variable {α γ ω : Type} [Scalar α] [Generator γ]

/-! ## One set among others -/

theorem releaseSets_append (env : Surroundings α ω) (registry : Registry α) (time : TimeStep α) (wantedLevel : Nat)
    (qs qs' : List (Request α)) :
    (releaseSets env registry time wantedLevel (qs ++ qs') : Step α γ ω _) =
      releaseSets env registry time wantedLevel qs >>= fun before => do
        let after ← injectDue env time (env.fluid.level wantedLevel) qs'
        return before ++ after := by
  simp only [releaseSets, injectDue_append, bind_assoc]

variable {ranks : Nat} {env : Fin ranks → Surroundings α ω} {registry : Fin ranks → Registry α}
  {rs : Fin ranks → Run α γ ω}

/-- A set that is due comes after those before it: all ranks have come to the end
of these, and share its particles out from there. -/
theorem visited_of_results (h : Shared env registry rs) {time : TimeStep α} {wantedLevel : Fin ranks → Nat}
    {sets : Fin ranks → List SetSummary} {us : Fin ranks → Run α γ ω}
    (hrun : Results (fun i => releaseSets (env i) (registry i) time (wantedLevel i) (registry i).requests) rs sets us)
    {k : Nat} {q : Fin ranks → Request α} (hq : ∀ i, (registry i).requests[k]? = some (q i)) {first : Fin ranks}
    (hdue : dueAt time (rs first).census.cumulativeTotal (q first) = true) :
    ∃ before ms layouts,
      Results (fun i => releaseSets (env i) (registry i) time (wantedLevel i) ((registry i).requests.take k)) rs before
        ms ∧
      LaidOut env q ms layouts ∧
      ∀ i, ∃ own after, sets i = before i ++ own :: after ∧ own.place = (q i).place ∧
        own.kept + own.lost = (layouts i).placed := by
  have houtline : ∀ i, (q i).outline = (q first).outline := fun i => h.outline_eq hq i first
  have hsplit : ∀ i, (registry i).requests =
      (registry i).requests.take k ++ q i :: (registry i).requests.drop (k + 1) := by
    intro i
    obtain ⟨hk, hget⟩ := List.getElem?_eq_some_iff.1 (hq i)
    rw [← hget, List.getElem_cons_drop, List.take_append_drop]
  have htake : ∀ i, ((registry i).requests.take k).map Request.outline =
      ((registry first).requests.take k).map Request.outline := by
    intro i
    rw [List.map_take, List.map_take, h.requests_outline_eq i first]
  have happend : ∀ i,
      (releaseSets (env i) (registry i) time (wantedLevel i) (registry i).requests : Step α γ ω _) = _ :=
    fun i => (congrArg _ (hsplit i)).trans (releaseSets_append _ _ _ _ _ _)
  -- The group stops twice on the way: before the set, and before those after it.
  simp only [happend] at hrun
  obtain ⟨before, ms, -, hbefore, hrest⟩ :=
    results_split (together_releaseSets h time wantedLevel htake first) hrun h.ranks_pos
  have hms : ∀ i, dueAt time (ms i).census.cumulativeTotal (q i) = true := by
    intro i
    rw [(yields_releaseSets (hbefore.yields i)).2.1, h.census i first, ← hdue, dueAt, dueAt,
      Request.isDue_eq_of_outline (houtline i)]
  have hset : Results (fun i => injectSet (env i) time.dtp ((env i).fluid.level (wantedLevel i)) (q i) >>= fun own => do
      let after ← injectDue (env i) time ((env i).fluid.level (wantedLevel i)) ((registry i).requests.drop (k + 1))
      return before i ++ own :: after) ms sets us := by
    rw [Results] at hrest ⊢
    rw [← hrest]
    refine congrArg (fun ps => Group.run (List.ofFn ps)) (funext fun i => ?_)
    rw [on_bind, on_bind, on_injectDue_cons (isDue_of_dueAt (hms i)), if_pos rfl, ← on_bind, ← on_bind, bind_assoc]
    simp only [bind_assoc, pure_bind]
  obtain ⟨own, vs, ⟨layouts, hlaid, -, hall⟩, hown, hafter⟩ := results_split
    (together_injectSet h.seated (fun i => Request.count_eq_of_outline (houtline i)) time.dtp _) hset h.ranks_pos
  refine ⟨before, ms, layouts, hbefore, hlaid, fun i => ?_⟩
  obtain ⟨after, _, -, hpure⟩ := yields_bind.1 (hafter.yields i)
  exact ⟨own i, after, (yields_pure.1 hpure).1, (yields_injectSet (hown.yields i)).2, hall i⟩

/-! ## One step -/

/-- The books of a step in which all ranks released what was due. -/
structure Accounted (env : Fin ranks → Surroundings α ω) (registry : Fin ranks → Registry α) (time : TimeStep α)
    (wantedLevel : Fin ranks → Nat) (rs : Fin ranks → Run α γ ω) (s : Fin ranks → StepSummary α)
    (ts : Fin ranks → Run α γ ω) : Prop where
  /-- What is laid out for a set that is due is kept or lost, on each rank. -/
  visited : ∀ (k : Nat) (q : Fin ranks → Request α), (∀ i, (registry i).requests[k]? = some (q i)) →
    ∀ first, dueAt time (rs first).census.cumulativeTotal (q first) = true → ∃ before ms layouts,
      Results (fun i => releaseSets (env i) (registry i) time (wantedLevel i) ((registry i).requests.take k)) rs before
        ms ∧
      LaidOut env q ms layouts ∧
      ∀ i, ∃ own after, (s i).sets = before i ++ own :: after ∧ own.place = (q i).place ∧
        own.kept + own.lost = (layouts i).placed
  /-- There is one summary for each set that is due. -/
  places : ∀ i, (s i).sets.map (·.place) =
    ((registry i).requests.filter (dueAt time (rs i).census.cumulativeTotal)).map (·.place)
  size : ∀ i, (ts i).injector.population.size = (rs i).injector.population.size + keptIn (s i).sets
  released : ∀ i, (ts i).injector.population.released = keptIn (s i).sets
  kept : ∀ i, (s i).kept = keptIn (s i).sets
  census : ∀ i, Census.Counts (rs i).census (ts i).census (∑ j, keptIn (s j).sets) (∑ j, lostIn (s j).sets)

theorem accounted_of_run (h : Shared env registry rs) {time : TimeStep α} {wantedLevel : Fin ranks → Nat}
    {outs : Fin ranks → Except (Halt α) (StepOutcome α) × Run α γ ω}
    (hrun : Group.run (List.ofFn fun i => (inject (env i) (registry i) time (wantedLevel i)).on (rs i)) =
      some (List.ofFn outs)) {i : Fin ranks} {s : StepSummary α} (hi : (outs i).1 = .ok (.injected s)) :
    ∃ s ts, outs = (fun j => (.ok (.injected (s j)), ts j)) ∧ Accounted env registry time wantedLevel rs s ts := by
  obtain ⟨-, -, sets, us, hresults, hend⟩ := injected_of_run h hrun hi
  have hsets : ∀ j, _ := fun j => yields_releaseSets (hresults.yields j)
  have hcounts : ∀ j, Census.Counts (rs j).census (outs j).2.census (∑ j, keptIn (sets j)) (∑ j, lostIn (sets j)) := by
    intro j
    have hentered := counts_enteredBy (hend j).fault
    rwa [Finset.sum_congr rfl fun j _ => (hsets j).2.2.2.1, (hsets j).2.1, ← (hend j).census] at hentered
  refine ⟨fun j => summarize (us j) (sets j) (enteredBy us sets j).state, fun j => (outs j).2,
    funext fun j => Prod.ext (hend j).summary rfl, ?_, ?_, ?_, ?_, ?_, hcounts⟩
  · intro k q hq first hdue
    exact visited_of_results h hresults hq hdue
  · exact fun j => (hsets j).2.2.2.2
  · intro j
    rw [(hend j).injector]
    exact (hsets j).2.2.1
  · intro j
    rw [(hend j).injector]
    exact (hsets j).2.2.2.1
  · exact fun j => Count.total_eq_sum _

/-! ## Many steps -/

/-- What a group may go through: steps that all ranks come out of, and in between
anything that removes no particles and leaves the total of the census. -/
inductive History : (rs ts : Fin ranks → Run α γ ω) → Prop
  | start (rs : Fin ranks → Run α γ ω) : History rs rs
  | step {rs ms ts : Fin ranks → Run α γ ω} {env : Fin ranks → Surroundings α ω} {registry : Fin ranks → Registry α}
      {time : TimeStep α} {wantedLevel : Fin ranks → Nat} {outcomes : Fin ranks → StepOutcome α}
      (past : History rs ms) (shared : Shared env registry ms)
      (run : Results (fun i => inject (env i) (registry i) time (wantedLevel i)) ms outcomes ts) : History rs ts
  | between {rs ms ts : Fin ranks → Run α γ ω} (past : History rs ms)
      (size : ∀ i, (ts i).injector.population.size = (ms i).injector.population.size)
      (total : ∀ i, (ts i).census.total = (ms i).census.total) : History rs ts

/-- The particles of all ranks, less those that the census of rank `i` has. -/
def balance (rs : Fin ranks → Run α γ ω) (i : Fin ranks) : Int :=
  (∑ j, ((rs j).injector.population.size : Int)) - (rs i).census.total

theorem balance_of_accounted {time : TimeStep α} {wantedLevel : Fin ranks → Nat} {s : Fin ranks → StepSummary α}
    {ts : Fin ranks → Run α γ ω} (h : Accounted env registry time wantedLevel rs s ts) (i : Fin ranks) :
    balance ts i = balance rs i := by
  have hsize : ∑ j, ((ts j).injector.population.size : Int) =
      (∑ j, ((rs j).injector.population.size : Int)) + ∑ j, (keptIn (s j).sets : Int) := by
    rw [← Finset.sum_add_distrib]
    exact Finset.sum_congr rfl fun j _ => by rw [h.size j, Nat.cast_add]
  rw [balance, balance, hsize, (Count.add_eq_ok.1 (h.census i).total).1, Nat.cast_add, Nat.cast_sum]
  omega

/-- One step, released or skipped, keeps the balance of every rank. -/
theorem balance_step (h : Shared env registry rs) {time : TimeStep α} {wantedLevel : Fin ranks → Nat}
    {outcomes : Fin ranks → StepOutcome α} {ts : Fin ranks → Run α γ ω}
    (hrun : Results (fun i => inject (env i) (registry i) time (wantedLevel i)) rs outcomes ts) (i : Fin ranks) :
    balance ts i = balance rs i := by
  -- One rank that has released particles is enough for the books of all.
  by_cases hinjected : ∃ j s, outcomes j = .injected s
  · obtain ⟨j, s, hj⟩ := hinjected
    obtain ⟨s, us, houts, haccounted⟩ := accounted_of_run h hrun (i := j) (s := s) (by simp only [hj])
    obtain rfl : ts = us := funext fun k => congrArg Prod.snd (congrFun houts k)
    exact balance_of_accounted haccounted i
  · have hskipped : ∀ j, (ts j).injector.population.size = (rs j).injector.population.size ∧
        (ts j).census = (rs j).census := by
      intro j
      cases hj : outcomes j with
      | injected s => exact absurd ⟨j, s, hj⟩ hinjected
      | skipped current projected ceiling =>
        have hyields := hrun.yields j
        rw [hj] at hyields
        obtain ⟨-, -, flow, log, -, hts⟩ := yields_inject_skipped hyields
        rw [hts]
        exact ⟨rfl, rfl⟩
    rw [balance, balance, (hskipped i).2, Finset.sum_congr rfl fun j _ => by rw [(hskipped j).1]]

theorem balance_history {rs ts : Fin ranks → Run α γ ω} (h : History rs ts) (i : Fin ranks) :
    balance ts i = balance rs i := by
  induction h with
  | start => rfl
  | step _ shared run ih => rw [balance_step shared run, ih]
  | between _ size total ih =>
    rw [← ih, balance, balance, total i, Finset.sum_congr rfl fun j _ => by rw [size j]]

/-- The books of every step agree where one rank has released what was due, and
over all that a group goes through the particles of all ranks and the total of
the census stay the same distance apart. -/
theorem particles_accounted :
    (∀ (env : Fin ranks → Surroundings α ω) (registry : Fin ranks → Registry α) (rs : Fin ranks → Run α γ ω)
      (time : TimeStep α) (wantedLevel : Fin ranks → Nat)
      (outs : Fin ranks → Except (Halt α) (StepOutcome α) × Run α γ ω),
      Shared env registry rs →
      Group.run (List.ofFn fun i => (inject (env i) (registry i) time (wantedLevel i)).on (rs i)) =
        some (List.ofFn outs) →
      ∀ i s, (outs i).1 = .ok (.injected s) →
        ∃ s ts, outs = (fun j => (.ok (.injected (s j)), ts j)) ∧ Accounted env registry time wantedLevel rs s ts) ∧
    ∀ rs ts : Fin ranks → Run α γ ω, History rs ts → ∀ i, balance ts i = balance rs i :=
  ⟨fun _ _ _ _ _ _ h hrun _ _ hi => accounted_of_run h hrun hi, fun _ _ h => balance_history h⟩

/-- A step that has released a number of particles over both ranks. -/
def releasedCount (count : Nat) (out : Except (Halt ℚ) (StepOutcome ℚ) × Run ℚ ChaCha.State ω) : Bool :=
  match out.1 with
  | .ok (.injected s) => s.released == count
  | _ => false

theorem injected_of_releasedCount {count : Nat} {out : Except (Halt ℚ) (StepOutcome ℚ) × Run ℚ ChaCha.State ω}
    (h : releasedCount count out) : ∃ s, out.1 = .ok (.injected s) := by
  unfold releasedCount at h
  split at h
  · exact ⟨_, ‹_›⟩
  · cases h

/-- A pair that has released a number of particles and passes a test. -/
theorem released_of_all {count : Nat} {ps : Fin 2 → Program ℚ (Except (Halt ℚ) (StepOutcome ℚ) × Run ℚ ChaCha.State ω)}
    (test : Except (Halt ℚ) (StepOutcome ℚ) × Run ℚ ChaCha.State ω → Bool)
    (h : (Group.run (List.ofFn ps)).map (·.all fun out => releasedCount count out && test out) = some true) :
    ∃ (s : Fin 2 → StepSummary ℚ) (ts : Fin 2 → Run ℚ ChaCha.State ω),
      Group.run (List.ofFn ps) = some (List.ofFn fun i => (.ok (.injected (s i)), ts i)) ∧
      ∀ i, (s i).released = count ∧ test (.ok (.injected (s i)), ts i) := by
  obtain ⟨outs, hrun, hall⟩ := Group.results_of_all _ h
  have hreleased : ∀ i, ∃ s t, outs i = (.ok (.injected s), t) := by
    intro i
    obtain ⟨s, hs⟩ := injected_of_releasedCount (Bool.and_eq_true_iff.1 (hall i)).1
    exact ⟨s, (outs i).2, Prod.ext hs rfl⟩
  choose s ts houts using hreleased
  obtain rfl : outs = fun i => (.ok (.injected (s i)), ts i) := funext houts
  refine ⟨s, ts, hrun, fun i => ?_⟩
  obtain ⟨hcount, htest⟩ := Bool.and_eq_true_iff.1 (hall i)
  exact ⟨beq_iff_eq.1 hcount, htest⟩

/-- Of four particles each rank loses one, and the books agree. -/
theorem particles_accounted_onPair : ∃ (s : Fin 2 → StepSummary ℚ) (ts : Fin 2 → Run ℚ ChaCha.State Unit),
    Group.run (List.ofFn (pairStep ![0, 0] 10)) = some (List.ofFn fun i => (.ok (.injected (s i)), ts i)) ∧
    Accounted pairEnv (pairRegistry ![0, 0]) firstStep (fun _ => 0) (pairRuns 10) s ts ∧
    ∀ i, (s i).released = 2 ∧ balance ts i = 0 := by
  have hall : (Group.run (List.ofFn (pairStep ![0, 0] 10))).map (·.all (releasedCount 2)) = some true := by
    decide +kernel
  obtain ⟨outs, hrun, hreleased⟩ := Group.results_of_all _ hall
  obtain ⟨s, hs⟩ := injected_of_releasedCount (hreleased 0)
  have hshared := pairShared ![0, 0] 10
  obtain ⟨hbooks, hhistory⟩ := particles_accounted (α := ℚ) (γ := ChaCha.State) (ω := Unit)
  obtain ⟨s, ts, rfl, haccounted⟩ := hbooks _ _ _ _ _ _ hshared hrun 0 s hs
  refine ⟨s, ts, hrun, haccounted, fun i => ⟨beq_iff_eq.1 (hreleased i), ?_⟩⟩
  rw [hhistory _ _ (.step (.start (pairRuns 10)) hshared hrun) i]
  rfl

end Inflow.Injector
