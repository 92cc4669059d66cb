import Inflow.Proofs.Census
import Inflow.Proofs.FlowRates
import Inflow.Proofs.Injector.Group
/-!
# The whole step

A step is one of three things: it reports a faulty setup, it is skipped, or it
releases the sets that are due and ends with sums over all ranks. Which one is
decided from what the ranks share, so they all do the same.
-/

namespace Inflow.Injector

open Step

variable {α γ ω : Type}

/-! ## What the ranks share -/

variable {ranks : Nat} {env : Fin ranks → Surroundings α ω} {registry : Fin ranks → Registry α}
  {rs : Fin ranks → Run α γ ω}

/-- The ranks of a group carry out a step with the same settings, the same census
and registries of the same outline. All else may differ from rank to rank. -/
structure Shared (env : Fin ranks → Surroundings α ω) (registry : Fin ranks → Registry α) (rs : Fin ranks → Run α γ ω) :
    Prop where
  ranks_pos : 0 < ranks
  seated : Seated env
  settings : ∀ i j, (rs i).injector.settings = (rs j).injector.settings
  census : ∀ i j, (rs i).census = (rs j).census
  outline : ∀ i j, (registry i).outline = (registry j).outline

theorem Shared.requests_outline_eq (h : Shared env registry rs) (i j : Fin ranks) :
    (registry i).requests.map Request.outline = (registry j).requests.map Request.outline :=
  Registry.requests_eq_of_outline (h.outline i j)

/-- The sets in one position of all registries have one outline. -/
theorem Shared.outline_eq (h : Shared env registry rs) {k : Nat} {q : Fin ranks → Request α}
    (hq : ∀ i, (registry i).requests[k]? = some (q i)) (i j : Fin ranks) : (q i).outline = (q j).outline := by
  have hmap := congrArg (·[k]?) (h.requests_outline_eq i j)
  simpa only [List.getElem?_map, hq, Option.map_some, Option.some.injEq] using hmap

variable [Scalar α]

theorem Shared.issues_eq (h : Shared env registry rs) (i j : Fin ranks) :
    (registry i).issues (rs i).injector.settings.model = (registry j).issues (rs j).injector.settings.model := by
  rw [Registry.issues_eq_of_outline (h.outline i j), h.settings i j]

/-! ## Beginning -/

/-- The flow rates that a step begins with. -/
def freshFlow (registry : Registry α) (model : Model α) : Checked (FlowRates α) := do
  let slots ← model.flowSlots
  FlowRates.zeros (registry.zones .boundary).length (registry.zones .volume).length slots

theorem freshFlow_outline (registry : Registry α) (model : Model α) :
    freshFlow registry.outline model = freshFlow registry model := by
  simp only [freshFlow, Registry.zones_outline, List.length_map]

/-- A step begins with empty slots for each class of the zones that there are. -/
theorem empty_of_freshFlow {registry : Registry α} {model : Model α} {flow : FlowRates α}
    (h : freshFlow registry model = .ok flow) : flow.Empty (fun kind => (registry.zones kind).length) model.classes := by
  obtain ⟨slots, hslots, hzeros⟩ := bind_eq_ok.1 h
  obtain ⟨rfl, -⟩ := Count.add_eq_ok.1 hslots
  exact FlowRates.empty_of_zeros hzeros

/-- The run at the beginning of a step. -/
def begun (r : Run α γ ω) (flow : FlowRates α) : Run α γ ω :=
  { r with injector := { r.injector with population := r.injector.population.beginStep, flow } }

variable {r r' : Run α γ ω}

theorem quiet_beginStep (registry : Registry α) : Quiet (beginStep registry : Step α γ ω Unit) :=
  quiet_bind (quiet_updateInjector _) fun _ => quiet_bind quiet_get fun _ => quiet_bind (quiet_check _) fun _ =>
    quiet_bind (quiet_check _) fun _ => quiet_updateInjector _

theorem yields_beginStep {registry : Registry α} {u : Unit} : (beginStep registry).Yields r u r' ↔
    ∃ flow, freshFlow registry r.injector.settings.model = .ok flow ∧ r' = begun r flow := by
  simp only [beginStep, yields_bind, yields_updateInjector, yields_get, yields_check]
  constructor
  · rintro ⟨_, _, rfl, _, _, ⟨rfl, rfl⟩, slots, _, ⟨hslots, rfl⟩, flow, _, ⟨hflow, rfl⟩, rfl⟩
    exact ⟨flow, bind_eq_ok.2 ⟨slots, hslots, hflow⟩, rfl⟩
  · rintro ⟨flow, hflow, rfl⟩
    obtain ⟨slots, hslots, hflow⟩ := bind_eq_ok.1 hflow
    exact ⟨(), _, rfl, _, _, ⟨rfl, rfl⟩, slots, _, ⟨hslots, rfl⟩, flow, _, ⟨hflow, rfl⟩, rfl⟩

/-! ## Ending -/

/-- What a rank brings to the census at the end of a step. -/
def ownTotals (r : Run α γ ω) (sets : List SetSummary) : StepTotals α where
  released := r.injector.population.released
  weight := r.injector.population.releasedWeight
  failed := Count.total (sets.map (·.lost))

/-- The summary of a step that ends with a census. -/
def summarize (r : Run α γ ω) (sets : List SetSummary) (census : Census α) : StepSummary α where
  kept := Count.total (sets.map (·.kept))
  lost := Count.total (sets.map (·.lost))
  weight := r.injector.population.releasedWeight
  released := census.released
  sets := sets

/-- The run after a step that ends with a census. -/
def closed (env : Surroundings α ω) (time : TimeStep α) (sets : List SetSummary) (r : Run α γ ω) (census : Census α) :
    Run α γ ω :=
  let kept := Count.total (sets.map (·.kept))
  let said := Message.stepDone time.step census.released kept env.seat.rank census.failed census.total
  { r with census, sink := r.sink.deliverFlow r.injector.flow, log := r.log ++ [said] }

/-- How a rank ends a step once the census is entered. -/
def endWith (env : Surroundings α ω) (time : TimeStep α) (sets : List SetSummary) (r : Run α γ ω)
    (entered : Attempt (Census α)) : Except (Halt α) (StepSummary α) × Run α γ ω :=
  match entered.fault with
  | some f => (.error (.fault f), { r with census := entered.state })
  | none => (.ok (summarize r sets entered.state), closed env time sets r entered.state)

omit [Scalar α] in
theorem endWith_of_none {env : Surroundings α ω} {time : TimeStep α} {sets : List SetSummary}
    {entered : Attempt (Census α)} (h : entered.fault = none) : endWith env time sets r entered =
      (.ok (summarize r sets entered.state), closed env time sets r entered.state) := by
  rw [endWith, h]

omit [Scalar α] in
theorem endWith_of_some {env : Surroundings α ω} {time : TimeStep α} {sets : List SetSummary}
    {entered : Attempt (Census α)} {f : Fault} (h : entered.fault = some f) : endWith env time sets r entered =
      (.error (.fault f), { r with census := entered.state }) := by
  rw [endWith, h]

theorem on_endStep (env : Surroundings α ω) (time : TimeStep α) (sets : List SetSummary) (r : Run α γ ω) :
    (endStep env time sets).on r =
      r.census.commit (ownTotals r sets) >>= fun entered => .done (endWith env time sets r entered) := by
  unfold endStep endWith
  simp only [on_bind, on_get, on_meet, Program.done_bind, andThen, Program.bind_assoc]
  refine congrArg (_ >>= ·) (funext fun entered => ?_)
  cases entered.fault <;> rfl

/-- The census that a rank comes to with the others. -/
def enteredBy (rs : Fin ranks → Run α γ ω) (sets : Fin ranks → List SetSummary) (i : Fin ranks) : Attempt (Census α) :=
  (rs i).census.committed (List.ofFn fun j => ownTotals (rs j) (sets j))

omit [Scalar α] in
/-- What all ranks bring is summed up from what they have released and lost. -/
theorem sums_ownTotals (rs : Fin ranks → Run α γ ω) (sets : Fin ranks → List SetSummary) :
    ((List.ofFn fun j => ownTotals (rs j) (sets j)).map (·.released)).sum = ∑ j, (rs j).injector.population.released ∧
      ((List.ofFn fun j => ownTotals (rs j) (sets j)).map (·.failed)).sum = ∑ j, lostIn (sets j) := by
  have hfailed : ((fun totals : StepTotals α => totals.failed) ∘ fun j => ownTotals (rs j) (sets j)) =
      fun j => lostIn (sets j) := funext fun j => Count.total_eq_sum _
  rw [List.map_ofFn, List.map_ofFn, List.sum_ofFn, List.sum_ofFn, hfailed]
  exact ⟨rfl, rfl⟩

theorem counts_enteredBy {sets : Fin ranks → List SetSummary} {i : Fin ranks} (h : (enteredBy rs sets i).fault = none) :
    Census.Counts (rs i).census (enteredBy rs sets i).state (∑ j, (rs j).injector.population.released)
      (∑ j, lostIn (sets j)) := by
  have hcounts := Census.counts_committed h
  obtain ⟨hreleased, hfailed⟩ := sums_ownTotals rs sets
  rwa [hreleased, hfailed] at hcounts

variable (env rs) in
/-- The ranks end a step together, whatever comes out of it. -/
theorem ends_endStep (time : TimeStep α) (sets : Fin ranks → List SetSummary) :
    Group.Ends (fun _ => False) (· = fun i => endWith (env i) time (sets i) (rs i) (enteredBy rs sets i)) fun i =>
      (endStep (env i) time (sets i)).on (rs i) := by
  simp only [on_endStep]
  refine (Census.ends_commit (fun i => (rs i).census) fun i => ownTotals (rs i) (sets i)).bind (fun _ _ h => h.elim) ?_
  rintro _ - rfl
  exact .done rfl

/-- The end of a step that has released what was due. -/
def conclude (env : Surroundings α ω) (time : TimeStep α) (sets : List SetSummary) : Step α γ ω (StepOutcome α) := do
  return .injected (← endStep env time sets)

theorem conclude_meets (env : Surroundings α ω) (time : TimeStep α) (sets : List SetSummary) (r : Run α γ ω)
    (out : Except (Halt α) (StepOutcome α) × Run α γ ω) : (conclude env time sets).on r ≠ .done out := by
  rw [conclude, on_bind, on_endStep]
  intro h
  cases h

theorem together_endStep (time : TimeStep α) (sets : Fin ranks → List SetSummary)
    {E : (Fin ranks → InjectionError α) → (Fin ranks → Run α γ ω) → Prop} :
    Together (fun i => endStep (env i) time (sets i)) rs
      (fun _ ts => ∀ i, (ts i).census = (enteredBy rs sets i).state) E := by
  obtain ⟨cs, qs, hl, ⟨-, -, -, hno⟩ | ⟨_, rfl, rfl⟩⟩ := ends_endStep env rs time sets
  · exact hno.elim
  by_cases hfault : ∃ i f, (enteredBy rs sets i).fault = some f
  · obtain ⟨i, f, hf⟩ := hfault
    exact ⟨cs, _, hl, .inl ⟨i, _, rfl, f, congrArg Prod.fst (endWith_of_some hf)⟩⟩
  · have hnone : ∀ i, (enteredBy rs sets i).fault = none := by
      intro i
      cases hi : (enteredBy rs sets i).fault with
      | none => rfl
      | some f => exact absurd ⟨i, f, hi⟩ hfault
    have hends : (fun i => endWith (env i) time (sets i) (rs i) (enteredBy rs sets i)) = fun i =>
        (.ok (summarize (rs i) (sets i) (enteredBy rs sets i).state),
          closed (env i) time (sets i) (rs i) (enteredBy rs sets i).state) :=
      funext fun i => endWith_of_none (hnone i)
    refine ⟨cs, _, hl, .inr ⟨_, rfl, ?_⟩⟩
    rw [hends]
    exact .results fun i => rfl

/-- A rank comes out of the end of a step: with the census as far as the sums
over all ranks could be entered, and with the injector as the last set left it. -/
structure Concluded (rs : Fin ranks → Run α γ ω) (sets : Fin ranks → List SetSummary) (i : Fin ranks)
    (out : Except (Halt α) (StepOutcome α) × Run α γ ω) : Prop where
  fault : ∀ f, (enteredBy rs sets i).fault = some f → out.1 = .error (.fault f)
  summary : (enteredBy rs sets i).fault = none →
    out.1 = .ok (.injected (summarize (rs i) (sets i) (enteredBy rs sets i).state))
  census : out.2.census = (enteredBy rs sets i).state
  injector : out.2.injector = (rs i).injector

/-- Ranks that have released their sets all come out of the end of the step. -/
theorem run_conclude (env : Fin ranks → Surroundings α ω) (time : TimeStep α) (rs : Fin ranks → Run α γ ω)
    (sets : Fin ranks → List SetSummary) : ∃ outs,
      Group.run (List.ofFn fun i => (conclude (env i) time (sets i)).on (rs i)) = some (List.ofFn outs) ∧
      ∀ i, Concluded rs sets i (outs i) := by
  have hends : ∀ i, ∃ out, andThen (fun s : StepSummary α => (pure (.injected s) : Step α γ ω (StepOutcome α)))
      (endWith (env i) time (sets i) (rs i) (enteredBy rs sets i)) = .done out ∧ Concluded rs sets i out := by
    intro i
    cases hf : (enteredBy rs sets i).fault with
    | some f =>
      rw [endWith_of_some hf]
      refine ⟨_, rfl, fun g hg => ?_, fun hnone => ?_, rfl, rfl⟩
      · rw [Option.some.inj (hf.symm.trans hg)]
      · cases hf.symm.trans hnone
    | none =>
      rw [endWith_of_none hf]
      refine ⟨_, rfl, fun g hg => ?_, fun _ => rfl, rfl, rfl⟩
      cases hf.symm.trans hg
  choose outs hdone hconcluded using hends
  obtain ⟨cs, qs, hl, ⟨-, -, -, hno⟩ | ⟨_, rfl, rfl⟩⟩ := ends_endStep env rs time sets
  · exact hno.elim
  refine ⟨outs, ?_, hconcluded⟩
  simp only [conclude, on_bind]
  rw [Group.run_lockstep (hl.bind fun _ => andThen fun s : StepSummary α =>
    (pure (.injected s) : Step α γ ω (StepOutcome α)))]
  simp only [Program.done_bind, hdone]
  exact Group.run_done outs

/-- A rank has ended a step in which it released sets: the census has the sums
over all ranks, and the injector is as the last set left it. -/
structure Ended (rs : Fin ranks → Run α γ ω) (sets : Fin ranks → List SetSummary) (i : Fin ranks)
    (out : Except (Halt α) (StepOutcome α) × Run α γ ω) : Prop where
  summary : out.1 = .ok (.injected (summarize (rs i) (sets i) (enteredBy rs sets i).state))
  fault : (enteredBy rs sets i).fault = none
  census : out.2.census = (enteredBy rs sets i).state
  injector : out.2.injector = (rs i).injector

/-- Where one rank comes to the end of a step, all do. -/
theorem ended_of_run {time : TimeStep α} {sets : Fin ranks → List SetSummary}
    (hcensus : ∀ i j, (rs i).census = (rs j).census) {outs : Fin ranks → Except (Halt α) (StepOutcome α) × Run α γ ω}
    (hrun : Group.run (List.ofFn fun i => (conclude (env i) time (sets i)).on (rs i)) = some (List.ofFn outs))
    {i : Fin ranks} {o : StepOutcome α} (hi : (outs i).1 = .ok o) : ∀ j, Ended rs sets j (outs j) := by
  obtain ⟨ends, hends, hconcluded⟩ := run_conclude env time rs sets
  obtain rfl := Group.results_unique hends hrun
  have hnone : (enteredBy rs sets i).fault = none := by
    refine Option.eq_none_iff_forall_ne_some.2 fun f hf => ?_
    cases hi.symm.trans ((hconcluded i).fault f hf)
  -- All ranks enter the same sums into the same census, so none of them stops at a fault.
  have hall : ∀ j, (enteredBy rs sets j).fault = none := fun j => by
    rw [enteredBy, hcensus j i]
    exact hnone
  exact fun j => ⟨(hconcluded j).summary (hall j), hall j, (hconcluded j).census, (hconcluded j).injector⟩

/-! ## The three ways of a step -/

/-- The ceiling would be passed by what all sets ask for. -/
def PassesCeiling (registry : Registry α) (r : Run α γ ω) : Prop :=
  r.injector.settings.ceiling < r.census.projected registry.totalRequested

instance (registry : Registry α) (r : Run α γ ω) : Decidable (PassesCeiling registry r) :=
  inferInstanceAs (Decidable (_ < _))

/-- A step that releases nothing. -/
def skip (registry : Registry α) (time : TimeStep α) : Step α γ ω (StepOutcome α) := do
  beginStep registry
  let r ← get
  let projected := r.census.projected registry.totalRequested
  Step.say [.ceilingReached time.step r.census.total projected r.injector.settings.ceiling]
  return .skipped r.census.total projected r.injector.settings.ceiling

omit [Scalar α] in
theorem Shared.passesCeiling_iff (h : Shared env registry rs) (i j : Fin ranks) :
    PassesCeiling (registry i) (rs i) ↔ PassesCeiling (registry j) (rs j) := by
  unfold PassesCeiling
  rw [Registry.totalRequested_eq_of_outline (h.outline i j), h.settings i j, h.census i j]

variable [Generator γ]

/-- A step up to its end: begun, and with those of the sets released that are due. -/
def releaseSets (env : Surroundings α ω) (registry : Registry α) (time : TimeStep α) (wantedLevel : Nat)
    (qs : List (Request α)) : Step α γ ω (List SetSummary) := do
  beginStep registry
  injectDue env time (env.fluid.level wantedLevel) qs

/-- A step that releases all sets which are due. -/
def release (env : Surroundings α ω) (registry : Registry α) (time : TimeStep α) (wantedLevel : Nat) :
    Step α γ ω (StepOutcome α) :=
  releaseSets env registry time wantedLevel registry.requests >>= conclude env time

/-- What a step is, told from the run at its beginning. -/
theorem on_inject (env : Surroundings α ω) (registry : Registry α) (time : TimeStep α) (wantedLevel : Nat)
    (r : Run α γ ω) : (inject env registry time wantedLevel).on r =
      if registry.issues r.injector.settings.model = [] then
        if PassesCeiling registry r then (skip registry time).on r else (release env registry time wantedLevel).on r
      else .done (.error (.error (.setup (registry.issues r.injector.settings.model))), r) := by
  unfold inject
  rw [on_bind, on_get, Program.done_bind, andThen]
  by_cases hissues : registry.issues r.injector.settings.model = []
  · simp only [hissues, List.isEmpty_nil, Bool.not_true, Bool.false_eq_true, if_false, if_true]
    simp only [skip, release, releaseSets, bind_assoc, on_bind (beginStep registry)]
    obtain ⟨⟨out, m⟩, hm, -⟩ := quiet_beginStep registry r
    rw [hm]
    simp only [Program.done_bind]
    cases out with
    | error halt => simp only [andThen, ite_self]
    | ok u =>
      -- The census and the settings are still those that the ceiling is told from.
      obtain ⟨flow, -, rfl⟩ := yields_beginStep.1 (show (beginStep registry).Yields r u m by rw [Yields, hm]; rfl)
      simp only [andThen]
      rw [on_bind, on_get, Program.done_bind, andThen]
      by_cases hceiling : PassesCeiling registry r
      · rw [if_pos hceiling, if_pos (show _ < (begun r flow).census.projected _ from hceiling)]
        rfl
      · rw [if_neg hceiling, if_neg (show ¬ _ < (begun r flow).census.projected _ from hceiling)]
        rfl
  · simp only [List.isEmpty_eq_false_iff.2 hissues, Bool.not_false, if_true, if_neg hissues]
    rfl

/-! ## The sets of a group -/

/-- A run in which some sets are released, told from the run before the step. -/
theorem yields_releaseSets {env : Surroundings α ω} {registry : Registry α} {time : TimeStep α} {wantedLevel : Nat}
    {qs : List (Request α)} {sets : List SetSummary}
    (h : (releaseSets env registry time wantedLevel qs).Yields r sets r') :
    r'.injector.settings = r.injector.settings ∧ r'.census = r.census ∧
      r'.injector.population.size = r.injector.population.size + keptIn sets ∧
      r'.injector.population.released = keptIn sets ∧
      sets.map (·.place) = (qs.filter (dueAt time r.census.cumulativeTotal)).map (·.place) := by
  obtain ⟨_, m, hbegin, hdue⟩ := yields_bind.1 h
  obtain ⟨flow, -, rfl⟩ := yields_beginStep.1 hbegin
  obtain ⟨hreleased, hplaces⟩ := yields_injectDue hdue
  exact ⟨hreleased.settings, hreleased.census, hreleased.size, hreleased.released.trans (Nat.zero_add _), hplaces⟩

theorem together_releaseSets (h : Shared env registry rs) (time : TimeStep α) (wantedLevel : Fin ranks → Nat)
    {os : List (Request α)} {qs : Fin ranks → List (Request α)} (hqs : ∀ i, (qs i).map Request.outline = os)
    (first : Fin ranks) :
    Together (fun i => releaseSets (env i) (registry i) time (wantedLevel i) (qs i)) rs
      (fun sets _ => ∑ i, (keptIn (sets i) + lostIn (sets i)) ≤ dueCount time (rs first).census.cumulativeTotal os)
      (GaveUpAmong env (fun i => releaseSets (env i) (registry i) time (wantedLevel i)) qs rs) := by
  refine together_bind (together_results (together_quiet (Q := fun _ _ => True) (fun _ => quiet_beginStep _)
    fun _ _ _ => trivial)) fun _ ms hbegun hresults => ?_
  refine together_imp (together_injectDue h.seated time _ hqs fun i => ?_) (fun _ _ _ h => h) ?_
  · obtain ⟨flow, -, hms⟩ := yields_beginStep.1 (hbegun i)
    rw [hms, ← h.census i first]
    rfl
  · rintro es ts ⟨k, q, sets, us, hk, hbefore, hgave⟩
    exact ⟨k, q, sets, us, hk, (results_bind hresults.2).2 hbefore, hgave⟩

/-! ## Outcomes of a group -/

omit [Generator γ] in
/-- A step that is skipped leaves the run as it is begun, with one message more. -/
theorem yields_skip {registry : Registry α} {time : TimeStep α} {o : StepOutcome α}
    (h : (skip registry time).Yields r o r') : (∃ current projected ceiling, o = .skipped current projected ceiling) ∧
      ∃ flow log, freshFlow registry r.injector.settings.model = .ok flow ∧ r' = { begun r flow with log } := by
  simp only [skip, yields_bind, yields_get, yields_say, yields_pure] at h
  obtain ⟨_, m, hbegin, _, _, ⟨rfl, rfl⟩, _, _, rfl, rfl, rfl⟩ := h
  obtain ⟨flow, hflow, rfl⟩ := yields_beginStep.1 hbegin
  exact ⟨⟨_, _, _, rfl⟩, flow, _, hflow, rfl⟩

/-- A step comes to an end only if the check of the setup has nothing to report. -/
theorem accepted_of_yields {env : Surroundings α ω} {registry : Registry α} {time : TimeStep α} {wantedLevel : Nat}
    {o : StepOutcome α} (h : (inject env registry time wantedLevel).Yields r o r') :
    registry.issues r.injector.settings.model = [] := by
  by_contra hissues
  have hon := on_inject env registry time wantedLevel r
  rw [if_neg hissues] at hon
  exact yields_throw.1 ((yields_congr hon).1 h)

/-- A step that comes out as skipped is one that passes the ceiling. -/
theorem yields_inject_skipped {env : Surroundings α ω} {registry : Registry α} {time : TimeStep α}
    {wantedLevel current projected ceiling : Nat}
    (h : (inject env registry time wantedLevel).Yields r (.skipped current projected ceiling) r') :
    registry.issues r.injector.settings.model = [] ∧ PassesCeiling registry r ∧
      ∃ flow log, freshFlow registry r.injector.settings.model = .ok flow ∧ r' = { begun r flow with log } := by
  have hissues := accepted_of_yields h
  have hon := on_inject env registry time wantedLevel r
  rw [if_pos hissues] at hon
  by_cases hceiling : PassesCeiling registry r
  · rw [if_pos hceiling] at hon
    exact ⟨hissues, hceiling, (yields_skip ((yields_congr hon).1 h)).2⟩
  · rw [if_neg hceiling] at hon
    obtain ⟨sets, m, -, hend⟩ := yields_bind.1 ((yields_congr hon).1 h)
    obtain ⟨s, m', -, hpure⟩ := yields_bind.1 hend
    cases (yields_pure.1 hpure).1

/-- Ranks that see a sound setup, and no ceiling passed, go on to release sets. -/
theorem Shared.on_inject_eq (h : Shared env registry rs) (time : TimeStep α) (wantedLevel : Fin ranks → Nat)
    {i : Fin ranks} (hissues : (registry i).issues (rs i).injector.settings.model = [])
    (hceiling : ¬ PassesCeiling (registry i) (rs i)) (j : Fin ranks) :
    (inject (env j) (registry j) time (wantedLevel j)).on (rs j) =
      (release (env j) (registry j) time (wantedLevel j)).on (rs j) := by
  rw [on_inject, h.issues_eq j i, if_pos hissues, if_neg fun hj => hceiling ((h.passesCeiling_iff j i).1 hj)]

/-- Where one rank has released the sets that are due, all ranks have. -/
theorem injected_of_run (h : Shared env registry rs) {time : TimeStep α} {wantedLevel : Fin ranks → Nat}
    {outs : Fin ranks → Except (Halt α) (StepOutcome α) × Run α γ ω}
    (hrun : Group.run (List.ofFn fun i => (inject (env i) (registry i) time (wantedLevel i)).on (rs i)) =
      some (List.ofFn outs)) {i : Fin ranks} {s : StepSummary α} (hi : (outs i).1 = .ok (.injected s)) :
    (registry i).issues (rs i).injector.settings.model = [] ∧ ¬ PassesCeiling (registry i) (rs i) ∧ ∃ sets us,
      Results (fun j => releaseSets (env j) (registry j) time (wantedLevel j) (registry j).requests) rs sets us ∧
      ∀ j, Ended us sets j (outs j) := by
  have hcan : ((inject (env i) (registry i) time (wantedLevel i)).on (rs i)).Can (outs i) := Group.can_of_run hrun i
  rw [on_inject] at hcan
  by_cases hissues : (registry i).issues (rs i).injector.settings.model = []
  · rw [if_pos hissues] at hcan
    by_cases hceiling : PassesCeiling (registry i) (rs i)
    · rw [if_pos hceiling] at hcan
      obtain ⟨⟨_, _, _, ho⟩, -⟩ := yields_skip (yields_of_out hcan hi)
      cases ho
    · -- What the ranks share sends all of them the same way.
      simp only [h.on_inject_eq time wantedLevel hissues hceiling, release] at hrun
      obtain ⟨sets, us, -, hresults, hend⟩ :=
        run_split (together_releaseSets h time wantedLevel (fun j => h.requests_outline_eq j i) i) hrun hi
          fun b m out => conclude_meets _ _ _ _ _
      have hcensus : ∀ j, (us j).census = (rs j).census := fun j => (yields_releaseSets (hresults.yields j)).2.1
      exact ⟨hissues, hceiling, sets, us, hresults,
        ended_of_run (fun j k => by rw [hcensus, hcensus, h.census j k]) hend hi⟩
  · rw [if_neg hissues] at hcan
    rw [hcan] at hi
    cases hi

end Inflow.Injector
