import Inflow.CommandLine
import Inflow.Proofs.Injector.Abandoned
import Inflow.Proofs.Injector.FlowTotals
import Inflow.Proofs.Ranks.Alone
/-!
# Runs of the program

A run of a scenario is one injector that takes its steps one after the other, each of which
resets the flow rates. So the report after them finds totals to print, unless there was
no step at all.
-/

namespace Inflow

open Injector Step

namespace CommandLine

variable {s : Scenario Float} {env : Surroundings Float Nat} {steps left step : Nat} {p p' : Progress}
  {last : Option (Registry Float)}

/-! ## Steps -/

/-- A run that has got through its steps has reset the flow rates in each of them. -/
theorem reachable_runSteps (h : Reachable Nat last p.state.injector)
    (hrun : runSteps s env steps left step p = (.ok (), p')) :
    Reachable Nat (if left = 0 then last else some s.registry) p'.state.injector := by
  induction left generalizing step p last with
  | zero =>
    obtain ⟨-, rfl⟩ := Prod.mk.inj hrun
    exact h
  | succ left ih =>
    -- After one step the last reset was for the scenario's registry, and it stays so.
    have hnext : ∀ {o : StepOutcome Float} {state : State}, runStep s env step p.state = (.ok o, state) →
        Reachable Nat (some s.registry) state.injector := by
      intro o state hstep
      have hcan : ((Injector.inject env s.registry { step, start := 0, dtp := s.dtp } 0).on p.state).Can
          (.ok o, state) := hstep ▸ Program.can_alone _
      have hreached := h.stepped hcan
      rwa [resets_of_yields (yields_of_can hcan), if_pos rfl] at hreached
    have hsame : (if left = 0 then some s.registry else some s.registry) = some s.registry := ite_self _
    rw [if_neg (Nat.succ_ne_zero left)]
    unfold runSteps at hrun
    split at hrun
    · cases hrun
    · rename_i hstep
      exact hsame ▸ ih (hnext hstep) hrun
    · rename_i hstep
      exact hsame ▸ ih (hnext hstep) hrun

/-! ## The report -/

theorem finalReport_of_unset (h : p.state.injector.flow = .unset) : (finalReport s p).2 = .error .zeroStride := by
  have hflow : p.state.flushEvents.injector.flow = .unset := h
  simp only [finalReport, hflow]
  rfl

theorem finalReport_of_readable {zones : ZoneKind → Nat} (h : p.state.injector.flow.Readable zones) :
    ∃ rest, (finalReport s p).2 = .ok rest := by
  have hflow : p.state.flushEvents.injector.flow.Readable zones := h
  simp only [finalReport, hflow.zoneTotals_eq]
  exact ⟨_, rfl⟩

/-! ## Whole runs -/

/-- The program gets through so many steps of a scenario, and has come to this progress then. -/
def Completes (s : Scenario Float) (steps : Nat) (p : Progress) : Prop :=
  ∃ mesh faceCount injector, Mesh.ofBox s.box = .ok mesh ∧ s.box.faceCount = .ok faceCount ∧
    Injector.start s.settings (RandomStream.ofSeed (.ofNat s.settings.seed)) = .ok injector ∧
    runSteps s (surroundings s mesh faceCount) steps steps 1 { state := initial s injector } = (.ok (), p)

/-- Whether the program gets through so many steps of a scenario; a fault if it does not come to the first. -/
def completes? (s : Scenario Float) (steps : Nat) : Checked Bool := do
  let mesh ← Mesh.ofBox s.box
  let faceCount ← s.box.faceCount
  let injector ← Injector.start s.settings (RandomStream.ofSeed (.ofNat s.settings.seed))
  return (runSteps s (surroundings s mesh faceCount) steps steps 1 { state := initial s injector }).1.toBool

theorem exists_completes (h : completes? s steps = .ok true) : ∃ p, Completes s steps p := by
  obtain ⟨mesh, hmesh, h⟩ := bind_eq_ok.1 h
  obtain ⟨faceCount, hfaces, h⟩ := bind_eq_ok.1 h
  obtain ⟨injector, hstart, h⟩ := bind_eq_ok.1 h
  have hok := pure_eq_ok.1 h
  rcases hrun : runSteps s (surroundings s mesh faceCount) steps steps 1 { state := initial s injector } with
    ⟨_ | _, p⟩
  · rw [hrun] at hok
    cases hok
  · exact ⟨p, mesh, faceCount, injector, hmesh, hfaces, hstart, hrun⟩

/-- The injector after a run that gets through its steps. -/
theorem Completes.reachable (h : Completes s steps p) :
    Reachable Nat (if steps = 0 then none else some s.registry) p.state.injector := by
  obtain ⟨mesh, faceCount, injector, -, -, hstart, hrun⟩ := h
  exact reachable_runSteps (.start hstart) hrun

/-- A run that gets through its steps ends as its report does. -/
theorem ending_of_completes (h : Completes s steps p) : (runScenario s steps).ending =
    match (finalReport s p).2 with
    | .error f => .fault f
    | .ok _ => .finished steps := by
  obtain ⟨mesh, faceCount, injector, hmesh, hfaces, hstart, hrun⟩ := h
  have hbox : (do return (← Mesh.ofBox s.box, ← s.box.faceCount) : Checked (Mesh Float × Nat)) =
      .ok (mesh, faceCount) := bind_eq_ok.2 ⟨_, hmesh, bind_eq_ok.2 ⟨_, hfaces, rfl⟩⟩
  simp only [runScenario, hbox, hstart, hrun]
  rcases finalReport s p with ⟨known, f | rest⟩ <;> rfl

/-- A run that gets through its steps ends with its report, unless it has no steps. -/
theorem ending_eq (h : Completes s steps p) :
    (runScenario s steps).ending = if steps = 0 then .fault .zeroStride else .finished steps := by
  have hreset := resetFor_of_reachable h.reachable
  rw [ending_of_completes h]
  by_cases hsteps : steps = 0
  · rw [if_pos hsteps] at hreset
    rw [if_pos hsteps, finalReport_of_unset hreset]
  · rw [if_neg hsteps] at hreset
    obtain ⟨rest, hrest⟩ := finalReport_of_readable (s := s) hreset
    rw [if_neg hsteps, hrest]

end CommandLine

/-- Between steps the totals of the flow rates can be read as soon as some step has reset
them, whichever way the steps have ended: there is one for each zone of the last registry with which a
step has done so, and it is what can be read for the zone on its own. Before that, reading
them stops at a fault. So a run of the program that gets through its steps ends with its
report if it has any step, and at this fault if it has none. -/
theorem totals_readable {α γ ω : Type} [Scalar α] [Generator γ] :
    (∀ (last : Option (Registry α)) (i : Injector α γ), Reachable ω last i → ∀ kind,
      match last with
      | none => i.flow.zoneTotals kind = .error .zeroStride
      | some registry => ∃ totals, i.flow.zoneTotals kind = .ok totals ∧ totals.length = (registry.zones kind).length ∧
          ∀ (z : Nat) (x : α), totals[z]? = some x → i.flow.get kind z 0 = .ok x) ∧
    ∀ (s : Scenario Float) (steps : Nat) (p : CommandLine.Progress), CommandLine.Completes s steps p →
      (CommandLine.runScenario s steps).ending = if steps = 0 then .fault .zeroStride else .finished steps := by
  refine ⟨fun last i h kind => ?_, fun s steps p h => CommandLine.ending_eq h⟩
  have hreset := resetFor_of_reachable h
  cases last with
  | none =>
    rw [show i.flow = .unset from hreset]
    rfl
  | some registry => exact hreset.exists_zoneTotals kind

/-! ## A step that is given up, and runs of a scenario -/

/-- A scenario of one cell, with a set that is released at every second step. -/
def oneCell : Scenario Float :=
  { Scenario.standard with
    box := unitBox
    registry := {
      volume := [{
        zone := { id := 0, name := "cell", kind := .volume, elements := #[0] }
        nature := .inlet
        sets := [{ InjectionSet.standard with count := 2, frequency := 2, location := .volume }] }] } }

/-- The totals of a rank can be read after a step that both ranks have given up, and not before
it; those of the scenario after one step, and not after none. -/
theorem totals_readable_spoilt :
    (∃ (es : Fin 2 → InjectionError ℚ) (ts : Fin 2 → Run ℚ ChaCha.State Unit),
      Group.run (List.ofFn spoiltStep) = some (List.ofFn fun i => (.error (.error (es i)), ts i)) ∧
      (recordingRuns 0).injector.flow.zoneTotals .boundary = .error .zeroStride ∧
      ∃ totals, (ts 0).injector.flow.zoneTotals .boundary = .ok totals ∧ totals.length = 1 ∧
        ∀ (z : Nat) (x : ℚ), totals[z]? = some x → (ts 0).injector.flow.get .boundary z 0 = .ok x) ∧
    (CommandLine.runScenario oneCell 0).ending = .fault .zeroStride ∧
    (CommandLine.runScenario oneCell 1).ending = .finished 1 := by
  obtain ⟨hinjectors, -⟩ := totals_readable (α := ℚ) (γ := ChaCha.State) (ω := Unit)
  obtain ⟨-, hruns⟩ := totals_readable (α := Float) (γ := ChaCha.State) (ω := Nat)
  obtain ⟨es, ts, hrun, -⟩ := exists_spoilt
  have hbefore : Reachable Unit none (recordingRuns 0).injector :=
    reachable_new (by decide +kernel) (recordingRuns 0).injector.stream .empty {}
  have hafter := hbefore.stepped (Group.can_of_run hrun 0)
  rw [if_pos (show resets (pairRegistry ![0, 0] 0) (recordingRuns 0).injector.settings.model = true by decide +kernel)]
    at hafter
  obtain ⟨p₀, h₀⟩ : ∃ p, CommandLine.Completes oneCell 0 p := CommandLine.exists_completes (by decide +kernel)
  obtain ⟨p₁, h₁⟩ : ∃ p, CommandLine.Completes oneCell 1 p := CommandLine.exists_completes (by decide +kernel)
  exact ⟨⟨es, ts, hrun, hinjectors _ _ hbefore .boundary, hinjectors _ _ hafter .boundary⟩, hruns oneCell 0 p₀ h₀,
    hruns oneCell 1 p₁ h₁⟩

/-- The totals of a new injector cannot be read, and so a run without steps stops in its report. -/
theorem totals_unread_before_reset : (∃ i : Injector Float ChaCha.State, Reachable Nat none i ∧
      ∀ kind, i.flow.zoneTotals kind = .error .zeroStride) ∧
    (CommandLine.runScenario oneCell 0).ending = .fault .zeroStride := by
  have hstart : ∃ i : Injector Float ChaCha.State, Injector.start {} (.ofSeed 0) = .ok i := ⟨_, rfl⟩
  obtain ⟨i, hi⟩ := hstart
  have hreached : Reachable Nat none i := .start hi
  have hflow : i.flow = .unset := resetFor_of_reachable hreached
  refine ⟨⟨i, hreached, fun kind => ?_⟩, by decide +kernel⟩
  rw [hflow]
  rfl

end Inflow
