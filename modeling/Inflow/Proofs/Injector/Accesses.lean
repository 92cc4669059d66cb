import Inflow.Proofs.Apportion.Ranges
import Inflow.Proofs.Checks.Setup
import Inflow.Proofs.Injector.Ranges
import Inflow.Proofs.Scalar.Signs
import Inflow.Random.ChaCha
/-!
# No access of a step is out of range

A step on the mesh of a box reads nothing that is not there. What keeps it from doing
so is the check of each set's inputs: a set whose elements are not in the mesh, or
whose profile does not fit, is given up there, and nothing has happened by then.

Where a table is read without a fault for a bad index, the step is compared with one
that has such a fault. The two are the same.
-/

namespace Inflow.Injector

open Step

variable {α γ ω : Type} [Scalar α] {env : Surroundings α ω} {registry : Registry α} {q : Request α} {r r' : Run α γ ω}

/-! ## Whole steps -/

/-- How many zones of each kind a registry has. -/
def zoneCount (registry : Registry α) (kind : ZoneKind) : Nat := (registry.zones kind).length

theorem stopsIn_beginStep : (beginStep registry : Step α γ ω _).StopsIn (Excused env) r := by
  unfold beginStep
  apply stopsIn_bind (stopsIn_updateInjector _)
  intro _ _ _
  apply stopsIn_bind stopsIn_get
  intro _ _ _
  apply stopsIn_bind (stopsIn_counted fun f => Count.checked_eq_error)
  intro slots _ _
  apply stopsIn_bind
  · apply stopsIn_check
    intro f hf
    rcases FlowRates.zeros_eq_error hf with rfl | rfl
    · exact .overflow
    · exact .tooLarge
  intro _ _ _
  exact stopsIn_updateInjector _

theorem shaped_freshFlow {model : Model α} {flow : FlowRates α} (h : freshFlow registry model = .ok flow) :
    flow.Shaped (zoneCount registry) := (empty_of_freshFlow h).shaped

theorem stopsIn_endStep (time : TimeStep α) (sets : List SetSummary) :
    (endStep env time sets : Step α γ ω _).StopsIn (Excused env) r := by
  unfold StopsIn
  intro f r' h
  rw [on_endStep, Program.comes_bind] at h
  obtain ⟨entered, hentered, h⟩ := h
  rw [Program.comes_done] at h
  cases hfault : entered.fault with
  | none =>
    rw [endWith_of_none hfault] at h
    cases h
  | some f' =>
    rw [endWith_of_some hfault] at h
    cases h
    rw [Census.fault_commit hentered hfault]
    exact .overflow

theorem stopsIn_skip (time : TimeStep α) : (skip registry time : Step α γ ω _).StopsIn (Excused env) r := by
  unfold skip
  apply stopsIn_bind stopsIn_beginStep
  intro _ _ _
  apply stopsIn_bind stopsIn_get
  intro _ _ _
  apply stopsIn_bind (stopsIn_say _)
  intro _ _ _
  exact stopsIn_pure _

/-- The sets of an accepted registry are in order if their diameters cannot turn the bounds on them around. -/
theorem orderly_of_accepted {m : Model α} (h : registry.issues m = []) (hq : q ∈ registry.requests)
    (hspreads : ¬ q.set.diameter < Scalar.ofNat 3 * q.set.diameterDeviation → q.set.Spreads) :
    Orderly q (zoneCount registry) := by
  have hentry := (Registry.mem_requests.1 hq).1
  have hspread := InjectionSet.spread_of_accepted (Registry.issues_set_eq_nil h hq)
  exact ⟨(List.getElem?_eq_some_iff.1 hentry).1, Registry.kind_of_accepted h hq, hspreads hspread⟩

variable [Generator γ]

theorem stopsIn_release (hmesh : env.mesh.Regular) (htracker : GoesByPosition env)
    (hqs : ∀ q ∈ registry.requests, Orderly q (zoneCount registry)) (time : TimeStep α) (wantedLevel : Nat) :
    (release env registry time wantedLevel : Step α γ ω _).StopsIn (Excused env) r := by
  have henv : Grounded env (env.fluid.level wantedLevel) := ⟨hmesh, Nat.min_le_right _ _, htracker⟩
  unfold release releaseSets
  apply stopsIn_bind
  · apply stopsIn_bind stopsIn_beginStep
    intro _ m hbegin
    obtain ⟨flow, hflow, rfl⟩ := yields_beginStep.1 hbegin
    exact stopsIn_injectDue henv hqs (shaped_freshFlow hflow) time
  intro sets _ _
  unfold conclude
  apply stopsIn_bind (stopsIn_endStep time sets)
  intro _ _ _
  exact stopsIn_pure _

/-- A step stops at no access out of range, whatever came before it: a faulty setup is
reported, and sets that are in order find all they read. -/
theorem stopsIn_inject (hmesh : env.mesh.Regular) (htracker : GoesByPosition env)
    (hqs : ∀ m, registry.issues m = [] → ∀ q ∈ registry.requests, Orderly q (zoneCount registry))
    (time : TimeStep α) (wantedLevel : Nat) :
    (inject env registry time wantedLevel : Step α γ ω _).StopsIn (Excused env) r := by
  have hon := on_inject env registry time wantedLevel r
  split at hon
  · rename_i hissues
    split at hon
    · exact (stopsIn_congr hon).2 (stopsIn_skip time)
    · exact (stopsIn_congr hon).2 (stopsIn_release hmesh htracker (hqs _ hissues) time wantedLevel)
  · exact stopsIn_of_done hon (by simp)

/-! ## Faulty inputs -/

/-- How a rank refuses a set: it tells the others that something is wrong and halts
for the error that it has found, in the run that it had. -/
def refusal {β : Type} (e : InjectionError α) (r : Run α γ ω) : Program α (Except (Halt α) β × Run α γ ω) :=
  .call .any (true : Bool) fun _ => .done (.error (.error e), r)

omit [Scalar α] in
theorem checkInputs_missing {weights : Array α} (factors : Option (Array α))
    (h : ∃ e ∈ q.zone.elements, weights.size ≤ e) : ∃ element ∈ q.zone.elements, weights.size ≤ element ∧
      checkInputs q weights factors = .error (.missingWeight q.place element weights.size) := by
  unfold checkInputs
  split
  · rename_i element hfind
    have hsize : weights.size ≤ element := by simpa using List.find?_some hfind
    exact ⟨element, Array.mem_toList_iff.1 (List.mem_of_find?_eq_some hfind), hsize, rfl⟩
  · rename_i hfind
    obtain ⟨e, he, hsize⟩ := h
    have hlt := List.find?_eq_none.1 hfind e (Array.mem_toList_iff.2 he)
    simp only [decide_eq_true_eq] at hlt
    omega

omit [Scalar α] in
theorem checkInputs_profile {weights values : Array α} (h : ∀ e ∈ q.zone.elements, e < weights.size)
    (hlength : values.size ≠ q.zone.elements.size) :
    checkInputs q weights (some values) = .error (.profileLength q.place q.zone.elements.size values.size) := by
  have hfind : q.zone.elements.toList.find? (weights.size ≤ ·) = none := by
    rw [List.find?_eq_none]
    intro e he
    simpa using h e (Array.mem_toList_iff.1 he)
  unfold checkInputs
  simp only [hfind, if_neg hlength]

/-- A set with faulty inputs is given up before anything is done for it. -/
theorem on_injectSet_refused {e : InjectionError α} (dtp : α) (level : Nat)
    (h : checkInputs q (env.mesh.weights q.kind) (q.set.factors q.zone) = .error e) :
    (injectSet env dtp level q).on r = refusal e r := by
  rw [injectSet_eq, on_bind]
  unfold openSet
  rw [on_bind, on_agree, h]
  rfl

/-! ## Checked accesses -/

/-- Stops if records from index `start` on would begin past the last record. -/
def expect (start : Nat) : Step α γ ω Unit := do
  if (← get).injector.population.size < start then throw (.fault .outOfRange)

/-- `openSet`, with the way that particles are shared out left open. -/
def openWith (share : RandomStream γ → Program α (Checked (Apportion.Layout γ))) (env : Surroundings α ω)
    (q : Request α) : Step α γ ω (List Nat × Nat) := do
  Step.agree q.place (checkInputs q (env.mesh.weights q.kind) (q.set.factors q.zone))
  let stream := (← get).injector.stream
  let layout ← Step.check (← Step.meet (share stream))
  Step.setStream layout.stream
  Step.say layout.messages
  let count := layout.index.getLastD 0
  Step.say [.setShare q.kind q.zone.id q.set.id count q.set.count env.seat.rank]
  let grown ← Step.check ((← get).injector.population.appendBlankFrom env.memory count)
  Step.setPopulation grown.population
  let range ← Step.agree q.place (grown.result.mapError .growth)
  return (layout.index, range.start)

/-- `fillSet`, with a check before each part that the fresh particles are there. -/
def fillSetChecked (env : Surroundings α ω) (dtp : α) (level : Nat) (q : Request α) (index : List Nat) (start : Nat) :
    Step α γ ω SetSummary := do
  let faces ← Step.check (facesOf q index)
  expect start
  releaseFresh env q dtp index start faces.1
  expect start
  let left ← relocateFresh env q start faces.1 faces.2
  expect start
  finishFresh env q dtp level start left.2.1
  expect start
  recordFresh env start left.2.1 left.2.2
  expect start
  let kept ← closeSet q start
  return { place := q.place, kept, lost := left.1 }

/-- `injectSet`, with checks of the draws and of the fresh particles. -/
def injectSetChecked (env : Surroundings α ω) (dtp : α) (level : Nat) (q : Request α) : Step α γ ω SetSummary :=
  openWith (Apportion.overZoneChecked q.set.count q.zone.elements (env.mesh.weights q.kind) (q.set.factors q.zone)
    env.seat) env q >>= fun opened => fillSetChecked env dtp level q opened.1 opened.2

omit [Scalar α] [Generator γ] in
theorem on_expect_bind {β : Type} {start : Nat} (h : start ≤ r.injector.population.size) (f : Unit → Step α γ ω β) :
    (expect start >>= f).on r = (f ()).on r := by
  have hexpect : (expect start : Step α γ ω Unit).on r = .done (.ok (), r) := by
    unfold expect
    rw [on_bind, on_get, Program.done_bind, andThen, if_neg (Nat.not_lt.2 h)]
    rfl
  rw [on_bind, hexpect]
  rfl

theorem openSet_eq (env : Surroundings α ω) (q : Request α) : (openSet env q : Step α γ ω _) =
    openWith (Apportion.overZone q.set.count q.zone.elements (env.mesh.weights q.kind) (q.set.factors q.zone)
      env.seat) env q := rfl

/-- No part of a set's work takes particles from before the set. -/
theorem on_fillSetChecked {dtp : α} {level start : Nat} {index : List Nat}
    (h : start ≤ r.injector.population.size) :
    (fillSetChecked env dtp level q index start).on r = (fillSet env dtp level q index start).on r := by
  unfold fillSetChecked fillSet
  apply on_bind_congr
  intro faces m hfaces
  obtain ⟨-, rfl⟩ := yields_check.1 hfaces
  rw [on_expect_bind h]
  apply on_bind_congr
  intro _ m₁ hrelease
  have h₁ : start ≤ m₁.injector.population.size := by rwa [(yields_releaseFresh hrelease).2]
  rw [on_expect_bind h₁]
  apply on_bind_congr
  intro left m₂ hrelocate
  have h₂ : start ≤ m₂.injector.population.size := (yields_relocateFresh hrelocate).2.2 h₁
  rw [on_expect_bind h₂]
  apply on_bind_congr
  intro _ m₃ hfinish
  have h₃ : start ≤ m₃.injector.population.size := by rwa [(yields_finishFresh hfinish).2]
  rw [on_expect_bind h₃]
  apply on_bind_congr
  intro _ m₄ hrecord
  have h₄ : start ≤ m₄.injector.population.size := by rwa [(yields_recordFresh hrecord).2]
  rw [on_expect_bind h₄]

/-- Checking the draws and the fresh particles changes nothing. -/
theorem on_injectSetChecked [OrderedScalar α] (dtp : α) (level : Nat) :
    (injectSetChecked env dtp level q).on r = (injectSet env dtp level q).on r := by
  rw [injectSet_eq, openSet_eq]
  unfold injectSetChecked
  simp only [funext (Apportion.overZoneChecked_eq q.set.count q.zone.elements (env.mesh.weights q.kind)
    (q.set.factors q.zone) env.seat)]
  apply on_bind_congr
  rintro ⟨index, start⟩ m hopen
  rw [← openSet_eq] at hopen
  obtain ⟨-, rfl, hsize⟩ := yields_openSet hopen
  apply on_fillSetChecked
  simp only
  omega

/-! ## Steps of a group -/

/-- The mesh is that of a box with layers along every axis, and the tracker goes by positions. -/
structure Boxed (env : Surroundings α ω) : Prop where
  mesh : ∃ b : Box α, b.Layered ∧ Mesh.ofBox b = .ok env.mesh
  tracker : GoesByPosition env

/-- What a rank reads for a set is there, or the set is refused before it is read. -/
structure Secured (env : Surroundings α ω) (q : Request α) (dtp : α) (level : Nat) (γ : Type) [Generator γ] : Prop where
  /-- A set with an element that is not in the mesh is refused. -/
  missing : (∃ e ∈ q.zone.elements, (env.mesh.weights q.kind).size ≤ e) →
    ∃ element ∈ q.zone.elements, (env.mesh.weights q.kind).size ≤ element ∧ ∀ r : Run α γ ω,
      (injectSet env dtp level q).on r = refusal (.missingWeight q.place element (env.mesh.weights q.kind).size) r
  /-- So is a set whose profile is not as long as the zone. -/
  profile : (∀ e ∈ q.zone.elements, e < (env.mesh.weights q.kind).size) →
    ∀ values, q.set.factors q.zone = some values → values.size ≠ q.zone.elements.size → ∀ r : Run α γ ω,
      (injectSet env dtp level q).on r = refusal (.profileLength q.place q.zone.elements.size values.size) r
  /-- Draws and fresh particles are in range. -/
  checked : ∀ r : Run α γ ω, (injectSetChecked env dtp level q).on r = (injectSet env dtp level q).on r

theorem secured [OrderedScalar α] (env : Surroundings α ω) (q : Request α) (dtp : α) (level : Nat) :
    Secured env q dtp level γ := by
  refine ⟨?_, ?_, fun r => on_injectSetChecked dtp level⟩
  · intro hmissing
    obtain ⟨element, helement, hsize, herror⟩ := checkInputs_missing (q.set.factors q.zone) hmissing
    exact ⟨element, helement, hsize, fun r => on_injectSet_refused dtp level herror⟩
  · intro hwithin values hvalues hlength r
    apply on_injectSet_refused
    rw [hvalues]
    exact checkInputs_profile hwithin hlength

/-- The accesses of a group in a step are in range. -/
structure InRange {ranks : Nat} (env : Fin ranks → Surroundings α ω) (registry : Fin ranks → Registry α)
    (rs : Fin ranks → Run α γ ω) (time : TimeStep α) (wantedLevel : Fin ranks → Nat) : Prop where
  /-- As far as the group may have come, a rank that has stopped at a fault is excused. -/
  stops : ∀ {cs ps}, Lockstep cs (fun i => (inject (env i) (registry i) time (wantedLevel i)).on (rs i)) ps →
    ∀ {i f r'}, ps i = .done (.error (.fault f), r') → Excused (env i) f r'
  sets : ∀ i, ∀ q ∈ (registry i).requests, Secured (env i) q time.dtp ((env i).fluid.level (wantedLevel i)) γ

/-- The diameters of all sets, and their deviations, are finite. -/
def FiniteDiameters (registry : Registry Float) : Prop :=
  ∀ q ∈ registry.requests, q.set.diameter.isFinite = true ∧ q.set.diameterDeviation.isFinite = true

theorem FiniteDiameters.orderly {registry : Registry Float} (h : FiniteDiameters registry) {m : Model Float}
    (hissues : registry.issues m = []) {q : Request Float} (hq : q ∈ registry.requests) :
    Orderly q (zoneCount registry) := by
  obtain ⟨hdiameter, hdeviation⟩ := h q hq
  apply orderly_of_accepted hissues hq
  intro hreach hpos
  exact Double.spread_le hpos hdeviation hdiameter hreach

/-- On meshes of boxes, whatever hooks do to particles and whatever has come before:
no rank stops at a table that is read past its end, at tables that do not go together
or at bounds that are turned around. Elements that are out of range and profiles that
do not fit are reported before they are used. -/
theorem inject_in_range {ranks : Nat} {env : Fin ranks → Surroundings Float ω} {registry : Fin ranks → Registry Float}
    (hbox : ∀ i, Boxed (env i)) (hfinite : ∀ i, FiniteDiameters (registry i)) (rs : Fin ranks → Run Float γ ω)
    (time : TimeStep Float) (wantedLevel : Fin ranks → Nat) : InRange env registry rs time wantedLevel := by
  constructor
  · intro cs ps hl i f r' hp
    obtain ⟨b, hlayered, hmesh⟩ := (hbox i).mesh
    have hregular : (env i).mesh.Regular := Mesh.regular_ofBox hlayered hmesh
    have horderly := fun m hissues q hq => (hfinite i).orderly (m := m) hissues (q := q) hq
    exact (stopsIn_inject hregular (hbox i).tracker horderly time (wantedLevel i)).of_lockstep hl hp
  · intro i q _
    exact secured (env i) q time.dtp _

/-! ## Hooks that scribble -/

/-- A box of one cell. -/
def unitBox : Box Float where
  layers := .ofAxes fun _ => 1
  lengths := .ofAxes fun _ => 1

/-- A hook that sends particles to a cell and a class that do not exist, and to a place that is none. -/
def scribble : Hook Float Nat := fun _ ps calls =>
  (.ok (ps.map fun p => { p with cell := 99, statClass := 99, position := .ofAxes fun _ => 0 / 0 }), calls + 1)

def scribbledEnv (mesh : Mesh Float) (i : Fin 2) : Surroundings Float Nat where
  seat := { rank := i, size := 2 }
  mesh := mesh
  fluid := .uniform (.onAxis .x 1) 300
  hooks := { move := scribble, modify := scribble }
  tracker := .byPosition

/-- A zone of two faces, one of which does not exist, and a set of four particles
of different diameters. -/
def overreachingRegistry : Registry Float where
  boundary := [{
    zone := { id := 0, name := "faces", kind := .boundary, elements := #[0, 99] }
    nature := .inlet
    sets := [{ InjectionSet.standard with count := 4, diameterDeviation := 1e-6 }] }]

def scribbledRun : Run Float ChaCha.State Nat where
  injector := {
    settings := { ceiling := 10 }
    stream := .ofSeed 0
    population := .empty
    events := {}
    flow := .unset }
  census := .zero
  sink := .recording
  outside := 0

/-- A zone of a face that there is, and a set of four particles. -/
def insideRegistry : Registry Float where
  boundary := [{
    zone := { id := 0, name := "faces", kind := .boundary, elements := #[0] }
    nature := .inlet
    sets := [{ InjectionSet.standard with count := 4 }] }]

/-- The first step of a rank whose particles are scribbled over. -/
def scribbledStep (mesh : Mesh Float) (i : Fin 2) :
    Program Float (Except (Halt Float) (StepOutcome Float) × Run Float ChaCha.State Nat) :=
  (inject (scribbledEnv mesh i) insideRegistry { step := 1, start := 0, dtp := 1 } 0).on scribbledRun

/-- Both hooks have run, over particles that are still there. -/
def scribbledOver (out : Except (Halt Float) (StepOutcome Float) × Run Float ChaCha.State Nat) : Bool :=
  out.2.outside == 2 && out.2.injector.population.size != 0 &&
    out.2.injector.population.particles.all fun p => p.cell == 0 && p.statClass == 99 && p.position.toList.all Float.isNaN

/-- A set with a face that does not exist is accepted and refused in the step, before any
hook runs. With one that does, both hooks scribble over all particles, and the ranks come
to the end of the step. -/
theorem inject_in_range_scribbled : ∃ mesh, Mesh.ofBox unitBox = .ok mesh ∧
    (overreachingRegistry.issues scribbledRun.injector.settings.model).isEmpty = true ∧
    InRange (scribbledEnv mesh) (fun _ => overreachingRegistry) (fun _ => scribbledRun)
      { step := 1, start := 0, dtp := 1 } (fun _ => 0) ∧
    InRange (scribbledEnv mesh) (fun _ => insideRegistry) (fun _ => scribbledRun)
      { step := 1, start := 0, dtp := 1 } (fun _ => 0) ∧
    ∃ outs : Fin 2 → _, Group.run (List.ofFn (scribbledStep mesh)) = some (List.ofFn outs) ∧
      ∀ i, scribbledOver (outs i) = true := by
  have hall : (Mesh.ofBox unitBox).toOption.bind (fun mesh =>
      (Group.run (List.ofFn (scribbledStep mesh))).map (·.all scribbledOver)) = some true := by
    decide +kernel
  obtain ⟨mesh, hmesh⟩ : ∃ mesh, Mesh.ofBox unitBox = .ok mesh := ⟨_, rfl⟩
  rw [hmesh, Except.toOption, Option.bind_some] at hall
  have hbox : ∀ i, Boxed (scribbledEnv mesh i) := by
    intro i
    refine ⟨⟨unitBox, ?_, hmesh⟩, goesByPosition_byPosition rfl⟩
    intro axis
    cases axis <;> decide
  refine ⟨mesh, hmesh, by decide +kernel, inject_in_range hbox ?_ _ _ _, inject_in_range hbox ?_ _ _ _,
    Group.results_of_all _ hall⟩
  · intro i q hq
    obtain rfl := List.mem_singleton.1 hq
    exact ⟨by decide +kernel, by decide +kernel⟩
  · intro i q hq
    obtain rfl := List.mem_singleton.1 hq
    exact ⟨by decide +kernel, by decide +kernel⟩

end Inflow.Injector
