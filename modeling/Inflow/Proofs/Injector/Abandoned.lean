import Inflow.Proofs.Injector.InflowEvents
/-!
# What an abandoned step leaves behind

A step that halts for an error is not undone. The census is as it was, and so are
the particles and the events from before; after these stand what the sets before
the failing one have kept, and what the work on the failing set had come to.
-/

namespace Inflow.Injector

open Step

variable {α γ ω : Type} [Scalar α] [Generator γ]

/-! ## Parts of a set's work -/

section Parts

variable {env : Surroundings α ω} {q : Request α} {r r' : Run α γ ω} {e : InjectionError α}

/-- A set is not opened if its inputs do not fit, or if some rank has no room. -/
theorem errs_openSet (h : (openSet env q).Errs r e r') :
    Reports q.place (checkInputs q (env.mesh.weights q.kind) (q.set.factors q.zone)) e ∧ r' = r ∨
    ∃ layout grown log,
      (Apportion.overZone q.set.count q.zone.elements (env.mesh.weights q.kind) (q.set.factors q.zone) env.seat
        r.injector.stream).Can (.ok layout) ∧
      r.injector.population.appendBlankFrom env.memory (layout.index.getLastD 0) = .ok grown ∧
      Reports q.place (grown.result.mapError .growth) e ∧
      r' = { r with injector := { r.injector with stream := layout.stream, population := grown.population }, log } := by
  simp only [openSet, errs_bind, errs_agree, errs_get, errs_check, errs_meet, errs_setStream, errs_say,
    errs_setPopulation, errs_pure, false_or, or_false, and_false, exists_false, yields_agree, yields_get, yields_check,
    yields_meet, yields_setStream, yields_say, yields_setPopulation] at h
  rcases h with h | h
  · exact .inl h
  · obtain ⟨_, _, ⟨-, rfl⟩, _, _, ⟨rfl, rfl⟩, _, _, ⟨hshare, rfl⟩, layout, _, ⟨rfl, rfl⟩, _, _, rfl, _,
      _, rfl, _, _, rfl, _, _, ⟨rfl, rfl⟩, grown, _, ⟨hgrown, rfl⟩, _, _, rfl, hreports, rfl⟩ := h
    exact .inr ⟨layout, grown, _, hshare, hgrown, hreports, rfl⟩

omit [Generator γ] in
theorem not_errs_relocateFresh {start : Nat} {faces globalFaces : Option (Array Nat)} :
    ¬ (relocateFresh env q start faces globalFaces).Errs r e r' := by
  intro h
  simp only [relocateFresh, errs_bind, errs_check, errs_meet, false_or] at h
  rcases h with h | ⟨_, _, -, _, _, -, someone, _, -, h⟩
  · exact not_errs_of_quiet (quiet_fresh _) h
  · split at h
    · simp only [errs_bind, errs_get, errs_modify, setFresh, errs_updateInjector, false_or] at h
      obtain ⟨_, _, -, _, _, -, _, _, -, h⟩ := h
      split at h
      · exact errs_pure.1 h
      · simp only [errs_bind, errs_get, errs_setPopulation, errs_say, errs_pure, and_false, exists_false, or_false] at h
    · exact errs_pure.1 h

/-- Between its opening and its checks a set has no errors. -/
theorem not_errs_prepareSet {dtp : α} {level start : Nat} {index : List Nat} :
    ¬ (prepareSet env dtp level q index start).Errs r e r' := by
  intro h
  simp only [prepareSet, errs_bind, errs_check, errs_pure, and_false, exists_false, or_false, false_or] at h
  rcases h with ⟨_, _, -, h | ⟨_, _, -, h | ⟨_, _, -, h | ⟨_, _, -, h⟩⟩⟩⟩
  · exact not_errs_of_quiet (quiet_releaseFresh _ _ _ _) h
  · exact not_errs_relocateFresh h
  · exact not_errs_of_quiet (quiet_finishFresh _ _ _ _) h
  · exact not_errs_of_quiet (quiet_recordFresh _ _ _) h

/-- How the check of a set's particles comes out. -/
def admission (q : Request α) (violations : List (Violation α)) : Except (InjectionError α) Unit :=
  if violations.isEmpty then .ok () else .error (.inadmissible q.place violations)

omit [Generator γ] in
/-- A set is not closed if the particles of some rank are not admissible. -/
theorem errs_closeSet {start : Nat} (h : (closeSet q start).Errs r e r') : ∃ violations,
    Admissibility.violations r.injector.settings.model start (r.injector.population.tail start) = .ok violations ∧
      Reports q.place (admission q violations) e ∧ r' = r := by
  simp only [closeSet, errs_bind, errs_agree, errs_get, errs_check, errs_updateInjector, errs_setPopulation, errs_pure,
    false_or, or_false, and_false, exists_false, yields_fresh, yields_get, yields_check] at h
  rcases h with h | ⟨_, _, ⟨rfl, rfl⟩, _, _, ⟨rfl, rfl⟩, violations, _, ⟨hviolations, rfl⟩, hreports, rfl⟩
  · exact (not_errs_of_quiet (quiet_fresh _) h).elim
  · exact ⟨violations, hviolations, hreports, rfl⟩

end Parts

/-! ## One set -/

variable (γ) in
/-- What a set that is given up for an error leaves behind on a rank: nothing,
where inputs do not fit or the rank has no room; blank records, where it has room
and a peer has none; and where particles are not admissible, its own or those of
a peer, all that it would have kept. -/
inductive LeavesBehind (env : Surroundings α ω) (x : Release.Setting α) (q : Request α) (recorded : Bool)
    (e : InjectionError α) : List (Particle α) → List (TrackingEvent α) → Prop
  | inputs (reports : Reports q.place (checkInputs q (env.mesh.weights q.kind) (q.set.factors q.zone)) e) :
      LeavesBehind env x q recorded e [] []
  | growth (error : GrowthError) (reports : e = .growth error) : LeavesBehind env x q recorded e [] []
  | blank (stream : RandomStream γ) (layout : Apportion.Layout γ)
      (laid : (Apportion.overZone q.set.count q.zone.elements (env.mesh.weights q.kind) (q.set.factors q.zone) env.seat
        stream).Can (.ok layout))
      (reports : e = .peerFailure q.place) :
      LeavesBehind env x q recorded e (List.replicate (layout.index.getLastD 0) .blank) []
  | admission (w : Passage α) (first : Nat) (violations : List (Violation α)) (follows : w.Follows γ env x q)
      (found : Admissibility.violations x.model first (w.kept x.dtp) = .ok violations)
      (reports : Reports q.place (admission q violations) e) :
      LeavesBehind env x q recorded e (w.kept x.dtp).toList (if recorded then w.inflow x.dtp else [])

variable {env : Surroundings α ω} {registry : Registry α} {q : Request α} {r r' : Run α γ ω} {e : InjectionError α}
  {time : TimeStep α}

theorem leavesBehind_openSet {x : Release.Setting α} {recorded : Bool} (h : (openSet env q).Errs r e r') :
    ∃ ps, LeavesBehind γ env x q recorded e ps [] ∧ Grew r r' ps [] := by
  rcases errs_openSet h with ⟨hreports, rfl⟩ | ⟨layout, grown, log, hlaid, hgrown, hreports, rfl⟩
  · exact ⟨[], .inputs hreports, .refl _⟩
  · obtain ⟨result, population⟩ := grown
    cases result with
    | error error =>
      -- A rank without room reports so, whatever its peers have found.
      obtain rfl : e = .growth error := by
        rcases hreports with hown | ⟨⟨_, hok⟩, -⟩
        · exact (Except.error.inj hown).symm
        · cases hok
      rw [Population.appendBlankFrom_failed hgrown]
      exact ⟨[], .growth error rfl, Grew.refl r |>.edit (List.append_nil _).symm _ _ _⟩
    | ok range =>
      have hpeer : e = .peerFailure q.place := by
        rcases hreports with hown | ⟨-, hpeer⟩
        · cases hown
        · exact hpeer
      exact ⟨_, .blank _ layout hlaid hpeer, grew_appendBlank ⟨range, hgrown⟩ layout.stream log⟩

/-- A set that is given up leaves behind what its work had come to. -/
theorem leavesBehind_injectSet {dtp : α} {level : Nat} (h : (injectSet env dtp level q).Errs r e r') :
    ∃ ps es, LeavesBehind γ env (setting env r dtp level) q (records r) e ps es ∧ Grew r r' ps es := by
  rw [injectSet_eq] at h
  rcases errs_bind.1 h with hopen | ⟨⟨index, start⟩, m, hopen, hfill⟩
  · obtain ⟨ps, hleaves, hgrew⟩ := leavesBehind_openSet hopen
    exact ⟨ps, [], hleaves, hgrew⟩
  · obtain ⟨layout, population, log, hlaid, rfl, rfl, hgrown, rfl⟩ := openSet_cases hopen
    -- The check comes last, when the particles stand in the population and their events are out.
    rw [fillSet_eq] at hfill
    simp only [errs_bind, not_errs_prepareSet, errs_pure, and_false, exists_false, or_false, false_or] at hfill
    obtain ⟨lost, s, hprepare, hclose⟩ := hfill
    obtain ⟨w, hw, hkept⟩ := follows_prepareSet hlaid (grew_appendBlank hgrown layout.stream log) hprepare
    obtain ⟨violations, hviolations, hreports, rfl⟩ := errs_closeSet hclose
    rw [hkept.tail, hkept.settings] at hviolations
    exact ⟨_, _, .admission w _ violations hw hviolations hreports, hkept⟩

/-! ## The whole step -/

variable (γ) in
/-- What sets that are given up for an error leave behind on a rank: those before
the failing one all that they have kept. -/
def AbandonedAmong (env : Surroundings α ω) (x : Release.Setting α) (qs : List (Request α)) (recorded : Bool)
    (e : InjectionError α) (ps : List (Particle α)) (es : List (TrackingEvent α)) : Prop :=
  ∃ before q after ws ps' es', qs = before ++ q :: after ∧ Passages γ env x before ws ∧
    LeavesBehind γ env x q recorded e ps' es' ∧
    ps = keptBy x.dtp ws ++ ps' ∧ es = (if recorded then inflowBy x.dtp ws else []) ++ es'

theorem abandoned_injectDue {level : Nat} {qs : List (Request α)} (h : (injectDue env time level qs).Errs r e r') :
    ∃ ps es, AbandonedAmong γ env (setting env r time.dtp level) (qs.filter (dueAt time r.census.cumulativeTotal))
      (records r) e ps es ∧ Grew r r' ps es := by
  induction qs generalizing r with
  | nil => exact (errs_pure.1 h).elim
  | cons q qs ih =>
    simp only [injectDue, errs_bind, errs_get, errs_check, false_or, yields_get, yields_check] at h
    obtain ⟨_, _, ⟨rfl, rfl⟩, due, r, ⟨hdue, rfl⟩, h⟩ := h
    split at h
    · rename_i hyes
      rw [List.filter_cons_of_pos (by simp [dueAt, hdue, hyes])]
      simp only [errs_bind, errs_pure, and_false, exists_false, or_false] at h
      rcases h with hset | ⟨summary, m, hset, hrest⟩
      · obtain ⟨ps, es, hleaves, hgrew⟩ := leavesBehind_injectSet hset
        refine ⟨ps, es, ⟨[], q, _, [], ps, es, rfl, .nil, hleaves, rfl, ?_⟩, hgrew⟩
        split <;> rfl
      · obtain ⟨w, hw, hadmitted, -, hfirst⟩ := follows_injectSet hset
        obtain ⟨_, _, ⟨before, q', after, ws, ps, es, hdue, hws, hleaves, rfl, rfl⟩, hgrew⟩ := ih hrest
        -- The rest starts where the first set ended, but which sets are due and what is recorded is as it was.
        rw [hfirst.census] at hdue
        rw [setting_eq hfirst.settings] at hws hleaves
        rw [records_eq hfirst.settings hfirst.active] at hleaves hgrew
        refine ⟨_, _, ⟨q :: before, q', after, w :: ws, ps, es, ?_, .cons ⟨hw, hadmitted⟩ hws, hleaves, rfl, rfl⟩, ?_⟩
        · rw [hdue, List.cons_append]
        · have hboth := hfirst.trans hgrew
          rw [← List.append_assoc, ← List.append_assoc] at hboth
          rwa [← inflow_append_inflowBy]
    · rename_i hno
      rw [List.filter_cons_of_neg (by simp [dueAt, hdue, hno])]
      exact ih h

theorem abandoned_releaseSets {wantedLevel : Nat} {qs : List (Request α)}
    (h : (releaseSets env registry time wantedLevel qs).Errs r e r') :
    ∃ ps es, AbandonedAmong γ env (setting env r time.dtp (env.fluid.level wantedLevel))
      (qs.filter (dueAt time r.census.cumulativeTotal)) (records r) e ps es ∧ Grew r r' ps es := by
  rcases errs_bind.1 h with hbegin | ⟨_, m, hbegin, hdue⟩
  · exact (not_errs_of_quiet (quiet_beginStep _) hbegin).elim
  · obtain ⟨flow, -, rfl⟩ := yields_beginStep.1 hbegin
    obtain ⟨ps, es, habandoned, hgrew⟩ := abandoned_injectDue hdue
    exact ⟨ps, es, habandoned, hgrew.particles, hgrew.emitted, hgrew.settings, hgrew.census, hgrew.active⟩

omit [Generator γ] in
theorem not_errs_conclude {sets : List SetSummary} : ¬ (conclude env time sets).Errs r e r' := by
  intro h
  simp only [conclude, errs_bind, errs_pure, and_false, exists_false, or_false] at h
  rw [Errs, on_endStep, Program.can_bind] at h
  obtain ⟨entered, -, hend⟩ := h
  rw [Program.can_done] at hend
  cases hfault : entered.fault with
  | some f =>
    rw [endWith_of_some hfault] at hend
    cases hend
  | none =>
    rw [endWith_of_none hfault] at hend
    cases hend

omit [Generator γ] in
theorem not_errs_skip : ¬ (skip registry time).Errs r e r' := by
  intro h
  simp only [skip, errs_bind, errs_get, errs_say, errs_pure, and_false, exists_false, or_false] at h
  exact not_errs_of_quiet (quiet_beginStep _) h

/-- A hook that gives particles a mass that no particle may have. -/
def spoil : Hook ℚ Unit := fun _ ps w => (.ok (ps.map fun p => { p with mass := -1 }), w)

/-- Rank 1 has particles that are not admissible. -/
def spoiltEnv (i : Fin 2) : Surroundings ℚ Unit :=
  { pairEnv i with hooks := if i.val = 1 then { Hooks.none with modify := spoil } else .none }

/-- The first step of a rank of the pair that wants events. -/
def spoiltStep (i : Fin 2) : Program ℚ PairEnd :=
  (inject (spoiltEnv i) (pairRegistry ![0, 0] i) firstStep 0).on (recordingRuns i)

/-- The step was given up, and there are particles, with one event each. -/
def leftBehind (out : PairEnd) : Bool :=
  givenUp out && out.2.injector.population.size != 0 && out.2.emitted.length == out.2.injector.population.size

/-- Both ranks give up, one of them for a failure of the other, and neither takes its particles back. -/
theorem exists_spoilt : ∃ (es : Fin 2 → InjectionError ℚ) (ts : Fin 2 → Run ℚ ChaCha.State Unit),
    Group.run (List.ofFn spoiltStep) = some (List.ofFn fun i => (.error (.error (es i)), ts i)) ∧
    ∀ i, (ts i).injector.population.size ≠ 0 ∧ (ts i).emitted.length = (ts i).injector.population.size := by
  have hall : (Group.run (List.ofFn spoiltStep)).map (·.all leftBehind) = some true := by decide +kernel
  obtain ⟨outs, hrun, hleft⟩ := Group.results_of_all leftBehind hall
  have herror : ∀ i, ∃ e, (outs i).1 = .error (.error e) := by
    intro i
    have hgiven := (Bool.and_eq_true_iff.1 (Bool.and_eq_true_iff.1 (hleft i)).1).1
    exact error_of_givenUp hgiven
  choose es hes using herror
  have houts : outs = fun i => (.error (.error (es i)), (outs i).2) := funext fun i => Prod.ext (hes i) rfl
  refine ⟨es, fun i => (outs i).2, by rw [← houts, hrun], fun i => ?_⟩
  obtain ⟨hthere, hevents⟩ := Bool.and_eq_true_iff.1 (hleft i)
  exact ⟨bne_iff_ne.1 (Bool.and_eq_true_iff.1 hthere).2, beq_iff_eq.1 hevents⟩

end Inflow.Injector
