import Inflow.Proofs.Injector.Accesses
import Inflow.Proofs.Injector.Upholds
/-!
# Totals of the flow rates

The flow rates of an injector keep their shape from the step that has reset them on: no
set changes it, and neither does an error or a fault, wherever it comes. So between any two
steps the totals of the zones can be read, unless no step has reset the flow rates
yet. Then there are no slots per zone, and the walk from zone to zone does not get on.
-/

namespace Inflow

open Step

/-! ## Walking from zone to zone -/

namespace FlowRates

variable {α : Type}

theorem getElem?_everyNth {stride : Nat} (hstride : 0 < stride) (xs : List α) (skip z : Nat) :
    (everyNth stride skip xs)[z]? = xs[skip + z * stride]? := by
  induction xs generalizing skip z with
  | nil => simp [everyNth]
  | cons x xs ih =>
    cases skip with
    | succ skip => rw [everyNth, ih, Nat.succ_add, List.getElem?_cons_succ]
    | zero =>
      cases z with
      | zero => simp [everyNth]
      | succ z =>
        have hnext : 0 + (z + 1) * stride = (stride - 1 + z * stride) + 1 := by
          rw [Nat.succ_mul]
          omega
        rw [everyNth, List.getElem?_cons_succ, ih, hnext, List.getElem?_cons_succ]

variable [Scalar α] {f f' : FlowRates α} {zones : ZoneKind → Nat}

/-- Accumulators with slots for each of a number of zones of each kind, all of which have numbers. -/
structure Readable (f : FlowRates α) (zones : ZoneKind → Nat) : Prop extends f.Shaped zones where
  fits : ∀ kind, zones kind * f.stride ≤ Count.limit

theorem Empty.readable {classes : Nat} (h : f.Empty zones classes) : f.Readable zones where
  toShaped := h.shaped
  fits kind := h.stride ▸ h.fits kind

theorem Readable.add (h : f.Readable zones) {kind : ZoneKind} {zone statClass : Nat} {value : α}
    (hok : f.add kind zone statClass value = .ok f') : f'.Readable zones where
  toShaped := h.toShaped.add hok
  fits kind' := stride_add h.stride_pos hok ▸ h.fits kind'

/-- The totals are what the zones have received, zone by zone. -/
theorem Readable.zoneTotals_eq (h : f.Readable zones) (kind : ZoneKind) :
    f.zoneTotals kind = .ok ((List.range (zones kind)).map (f.received kind)) := by
  rw [zoneTotals, if_neg h.stride_pos.ne']
  congr 1
  apply List.ext_getElem?
  intro z
  rw [getElem?_everyNth h.stride_pos, Nat.zero_add, Array.getElem?_toList, List.getElem?_map]
  by_cases hz : z < zones kind
  · have hslot := h.slot_lt hz h.stride_pos
    rw [Nat.add_zero] at hslot
    rw [List.getElem?_range hz, Option.map_some, received, Array.getElem?_eq_getElem hslot, Option.getD_some]
  · have hend : (f.slots kind).size ≤ z * f.stride := by
      rw [h.size]
      exact Nat.mul_le_mul_right _ (Nat.le_of_not_lt hz)
    rw [Array.getElem?_eq_none hend, List.getElem?_eq_none (by rw [List.length_range]; omega), Option.map_none]

/-- What a zone has received can be read on its own. -/
theorem Readable.get_eq (h : f.Readable zones) {kind : ZoneKind} {z : Nat} (hz : z < zones kind) :
    f.get kind z 0 = .ok (f.received kind z) :=
  get_eq_received ((Nat.mul_le_mul_right _ hz.le).trans (h.fits kind))

/-- The totals have one entry for each zone, what can be read for the zone on its own. -/
theorem Readable.exists_zoneTotals (h : f.Readable zones) (kind : ZoneKind) :
    ∃ totals, f.zoneTotals kind = .ok totals ∧ totals.length = zones kind ∧
      ∀ (z : Nat) (x : α), totals[z]? = some x → f.get kind z 0 = .ok x := by
  refine ⟨_, h.zoneTotals_eq kind, by rw [List.length_map, List.length_range], fun z x hx => ?_⟩
  rw [List.getElem?_map, Option.map_eq_some_iff] at hx
  obtain ⟨_, hz, rfl⟩ := hx
  obtain ⟨hlt, rfl⟩ := List.getElem?_eq_some_iff.1 hz
  rw [List.length_range] at hlt
  rw [List.getElem_range]
  exact h.get_eq hlt

end FlowRates

theorem Injector.readable_addFlow {α : Type} [Scalar α] {zones : ZoneKind → Nat} {kind : ZoneKind} {zone : Nat}
    {flow flow' : FlowRates α} {ps : List (Particle α)} (h : flow.Readable zones)
    (hok : addFlow kind zone flow ps = .ok flow') : flow'.Readable zones := by
  induction ps generalizing flow with
  | nil =>
    cases hok
    exact h
  | cons p ps ih =>
    unfold addFlow at hok
    obtain ⟨next, hnext, hok⟩ := bind_eq_ok.1 hok
    exact ih (h.add hnext) hok

variable {α γ ω : Type}

namespace Injector

/-! ## Sets -/

/-- The injector has these settings, and flow rates with a property. -/
def Accrues (settings : Settings α) (Q : FlowRates α → Prop) (r : Run α γ ω) : Prop :=
  r.injector.settings = settings ∧ Q r.injector.flow

section Sets

variable [Scalar α] {env : Surroundings α ω} {q : Request α} {settings : Settings α} {Q : FlowRates α → Prop}
  {r : Run α γ ω} {dtp : α} {level start : Nat} {index : List Nat} {faces globalFaces : Option (Array Nat)}

theorem accrues_relocateFresh (h : Accrues settings Q r) :
    (relocateFresh env q start faces globalFaces : Step α γ ω _).Upholds (Accrues settings Q) r := by
  unfold relocateFresh
  refine upholds_fresh_bind (upholds_check_bind h fun _ _ => upholds_meet_bind h fun _ => ?_)
  split
  · refine upholds_get_bind (upholds_modify_bind (upholds_modify_bind ?_))
    split
    · exact upholds_pure _ h
    · exact upholds_get_bind (upholds_modify_bind (upholds_modify_bind (upholds_pure _ h)))
  · exact upholds_pure _ h

omit [Scalar α] in
theorem accrues_recordInflow {ps : List (Particle α)} {fs gs : List Nat} (h : Accrues settings Q r) :
    (recordInflow ps fs gs : Step α γ ω Unit).Upholds (Accrues settings Q) r := by
  fun_induction recordInflow (γ := γ) (ω := ω) ps fs gs generalizing r with
  | case1 p ps face fs globalFace gs ih => exact upholds_modify_bind (ih h)
  | case2 => exact upholds_pure _ h

omit [Scalar α] in
theorem accrues_recordFresh (h : Accrues settings Q r) :
    (recordFresh env start faces globalFaces : Step α γ ω _).Upholds (Accrues settings Q) r := by
  unfold recordFresh
  split
  · refine upholds_get_bind ?_
    split
    · refine upholds_modify_bind ?_
      split
      · exact upholds_bind (upholds_throw _ h) fun _ _ hy => (yields_throw.1 hy).elim
      · exact upholds_fresh_bind (accrues_recordInflow h)
    · exact upholds_pure _ h
  · exact upholds_pure _ h

/-- Closing a set only adds to the flow rates. -/
theorem accrues_closeSet {zones : ZoneKind → Nat} (h : Accrues settings (·.Readable zones) r) :
    (closeSet q start : Step α γ ω Nat).Upholds (Accrues settings (·.Readable zones)) r := by
  unfold closeSet
  refine upholds_fresh_bind (upholds_get_bind (upholds_check_bind h fun _ _ => upholds_agree_bind h fun _ _ => ?_))
  refine upholds_get_bind (upholds_check_bind h fun flow hadded => upholds_modify_bind ?_)
  have hflow : flow.Readable zones := readable_addFlow h.2 hadded
  refine upholds_get_bind (upholds_check_bind ⟨h.1, hflow⟩ fun _ _ => upholds_modify_bind ?_)
  exact upholds_pure _ ⟨h.1, hflow⟩

variable [Generator γ]

theorem accrues_openSet (h : Accrues settings Q r) : (openSet env q : Step α γ ω _).Upholds (Accrues settings Q) r := by
  unfold openSet
  refine upholds_agree_bind h fun _ _ => upholds_get_bind (upholds_meet_bind h fun _ => upholds_check_bind h fun _ _ => ?_)
  refine upholds_modify_bind (upholds_modify_bind (upholds_modify_bind (upholds_get_bind ?_)))
  refine upholds_check_bind h fun _ _ => upholds_modify_bind ?_
  exact upholds_agree_bind h fun _ _ => upholds_pure _ h

theorem accrues_releaseFresh (h : Accrues settings Q r) :
    (releaseFresh env q dtp index start faces : Step α γ ω Unit).Upholds (Accrues settings Q) r := by
  unfold releaseFresh
  refine upholds_fresh_bind (upholds_check_bind h fun _ _ => upholds_draw_bind (fun _ => h) fun _ _ => ?_)
  exact upholds_runHook_bind (fun _ => h) fun _ _ => upholds_modify h

theorem accrues_finishFresh (h : Accrues settings Q r) :
    (finishFresh env q dtp level start faces : Step α γ ω Unit).Upholds (Accrues settings Q) r := by
  unfold finishFresh
  refine upholds_get_bind (upholds_fresh_bind (upholds_draw_bind (fun _ => h) fun _ _ => ?_))
  exact upholds_runHook_bind (fun _ => h) fun _ _ => upholds_modify h

/-- Wherever the work on a set stops, the flow rates are still in shape. -/
theorem accrues_injectSet {zones : ZoneKind → Nat} (h : Accrues settings (·.Readable zones) r) :
    (injectSet env dtp level q : Step α γ ω SetSummary).Upholds (Accrues settings (·.Readable zones)) r := by
  rw [injectSet_eq]
  refine upholds_bind (accrues_openSet h) fun _ _ _ h => ?_
  unfold fillSet
  refine upholds_check_bind h fun _ _ => ?_
  refine upholds_bind (accrues_releaseFresh h) fun _ _ _ h => ?_
  refine upholds_bind (accrues_relocateFresh h) fun _ _ _ h => ?_
  refine upholds_bind (accrues_finishFresh h) fun _ _ _ h => ?_
  refine upholds_bind (accrues_recordFresh h) fun _ _ _ h => ?_
  exact upholds_bind (accrues_closeSet h) fun _ _ _ h => upholds_pure _ h

theorem accrues_injectDue {zones : ZoneKind → Nat} {time : TimeStep α} {qs : List (Request α)}
    (h : Accrues settings (·.Readable zones) r) :
    (injectDue env time level qs : Step α γ ω (List SetSummary)).Upholds (Accrues settings (·.Readable zones)) r := by
  induction qs generalizing r with
  | nil => exact upholds_pure _ h
  | cons q qs ih =>
    unfold injectDue
    refine upholds_get_bind (upholds_check_bind h fun _ _ => ?_)
    split
    · refine upholds_bind (accrues_injectSet h) fun _ _ _ h => ?_
      exact upholds_bind (ih h) fun _ _ _ h => upholds_pure _ h
    · exact ih h

end Sets

/-! ## Steps -/

section Steps

variable [Scalar α] {env : Surroundings α ω} {registry : Registry α} {settings : Settings α} {time : TimeStep α}
  {r r' : Run α γ ω} {wantedLevel : Nat}

/-- A step with this registry resets the flow rates: its setup is in order, and there is storage for the slots. -/
def resets (registry : Registry α) (model : Model α) : Bool :=
  (registry.issues model).isEmpty && (freshFlow registry model).toBool

theorem on_beginStep_ok {flow : FlowRates α} (h : freshFlow registry r.injector.settings.model = .ok flow) :
    (beginStep registry).on r = .done (.ok (), begun r flow) := by
  obtain ⟨slots, hslots, hzeros⟩ := bind_eq_ok.1 h
  unfold beginStep
  simp only [on_bind, updateInjector, on_modify, Program.done_bind, andThen, on_get, hslots, hzeros, check, on_pure]
  rfl

/-- A step that does not get new flow rates keeps the old ones. -/
theorem on_beginStep_error {f : Fault} (h : freshFlow registry r.injector.settings.model = .error f) :
    (beginStep registry).on r = .done (.error (.fault f),
      { r with injector := { r.injector with population := r.injector.population.beginStep } }) := by
  unfold beginStep
  simp only [on_bind, updateInjector, on_modify, Program.done_bind, andThen, on_get]
  rcases bind_eq_error.1 h with hslots | ⟨slots, hslots, hzeros⟩
  · simp only [hslots, check, on_throw, Program.done_bind, andThen]
  · simp only [hslots, hzeros, check, on_pure, on_bind, on_throw, Program.done_bind, andThen]

theorem accrues_endStep {Q : FlowRates α → Prop} {sets : List SetSummary} (h : Accrues settings Q r) :
    (endStep env time sets : Step α γ ω _).Upholds (Accrues settings Q) r := by
  unfold endStep
  refine upholds_get_bind (upholds_meet_bind h fun entered => upholds_modify_bind ?_)
  split
  · exact upholds_bind (upholds_throw _ h) fun _ _ hy => (yields_throw.1 hy).elim
  · exact upholds_modify_bind (upholds_modify_bind (upholds_pure _ h))

variable [Generator γ]

/-- However a step ends that has reset the flow rates, they have slots for the zones of its registry. -/
theorem accrues_inject_of_resets (h : resets registry r.injector.settings.model = true) :
    (inject env registry time wantedLevel : Step α γ ω _).Upholds
      (Accrues r.injector.settings (·.Readable (zoneCount registry))) r := by
  obtain ⟨hissues, hfresh⟩ := Bool.and_eq_true_iff.1 h
  have hon := on_inject env registry time wantedLevel r
  rw [if_pos (List.isEmpty_iff.1 hissues)] at hon
  have hbegin : (beginStep registry : Step α γ ω Unit).Upholds
      (Accrues r.injector.settings (·.Readable (zoneCount registry))) r := by
    cases hflow : freshFlow registry r.injector.settings.model with
    | error f =>
      rw [hflow] at hfresh
      cases hfresh
    | ok flow => exact upholds_of_done (on_beginStep_ok hflow) ⟨rfl, (empty_of_freshFlow hflow).readable⟩
  split at hon
  · refine upholds_congr hon (upholds_bind hbegin fun _ _ _ h => ?_)
    exact upholds_get_bind (upholds_modify_bind (upholds_pure _ h))
  · refine upholds_congr hon (upholds_bind ?_ fun _ _ _ h => ?_)
    · exact upholds_bind hbegin fun _ _ _ h => accrues_injectDue h
    · exact upholds_bind (accrues_endStep h) fun _ _ _ h => upholds_pure _ h

/-- However a step ends that has not reset the flow rates, they are as they were. -/
theorem accrues_inject_of_not_resets (h : resets registry r.injector.settings.model = false) :
    (inject env registry time wantedLevel : Step α γ ω _).Upholds
      (Accrues r.injector.settings (· = r.injector.flow)) r := by
  have hon := on_inject env registry time wantedLevel r
  split at hon
  · rename_i hissues
    have hfresh : ∃ f, freshFlow registry r.injector.settings.model = .error f := by
      cases hflow : freshFlow registry r.injector.settings.model with
      | error f => exact ⟨f, rfl⟩
      | ok flow =>
        rw [resets, hissues, hflow] at h
        cases h
    obtain ⟨f, hf⟩ := hfresh
    have hbegin := on_beginStep_error hf
    have hstops : ∀ {β : Type} (rest : Unit → Step α γ ω β),
        (beginStep registry >>= rest).Upholds (Accrues r.injector.settings (· = r.injector.flow)) r := by
      intro β rest
      refine upholds_bind (upholds_of_done hbegin ⟨rfl, rfl⟩) fun _ _ hyields _ => ?_
      obtain ⟨flow, hok, -⟩ := yields_beginStep.1 hyields
      cases hf.symm.trans hok
    split at hon
    · exact upholds_congr hon (hstops _)
    · rw [release, releaseSets, bind_assoc] at hon
      exact upholds_congr hon (hstops _)
  · exact upholds_of_done hon ⟨rfl, rfl⟩

/-- A step that comes to a result has reset the flow rates. -/
theorem resets_of_yields {o : StepOutcome α} (h : (inject env registry time wantedLevel).Yields r o r') :
    resets registry r.injector.settings.model = true := by
  have hissues := accepted_of_yields h
  have hon := on_inject env registry time wantedLevel r
  rw [if_pos hissues] at hon
  have hfresh : ∃ flow, freshFlow registry r.injector.settings.model = .ok flow := by
    split at hon
    · obtain ⟨-, flow, -, hflow, -⟩ := yields_skip ((yields_congr hon).1 h)
      exact ⟨flow, hflow⟩
    · rw [release, releaseSets, bind_assoc] at hon
      obtain ⟨_, m, hbegin, -⟩ := yields_bind.1 ((yields_congr hon).1 h)
      obtain ⟨flow, hflow, -⟩ := yields_beginStep.1 hbegin
      exact ⟨flow, hflow⟩
  obtain ⟨flow, hflow⟩ := hfresh
  rw [resets, hissues, hflow]
  rfl

end Steps

/-! ## Injectors between steps -/

variable [Scalar α] [Generator γ]

variable (ω) in
/-- What injectors can come to, each with the last registry whose step has reset the flow
rates: there is none at the beginning, a step may end in any way, and between steps
particles and events may be taken out. -/
inductive Reachable : Option (Registry α) → Injector α γ → Prop
  | start {settings : Settings α} {stream : RandomStream γ} {i : Injector α γ}
      (made : Injector.start settings stream = .ok i) : Reachable none i
  | edited {last : Option (Registry α)} {i : Injector α γ} (population : Population α) (events : EventBuffer α)
      (before : Reachable last i) : Reachable last { i with population, events }
  | stepped {last : Option (Registry α)} {r r' : Run α γ ω} {env : Surroundings α ω} {registry : Registry α}
      {time : TimeStep α} {wantedLevel : Nat} {out : Except (Halt α) (StepOutcome α)}
      (before : Reachable last r.injector) (step : ((inject env registry time wantedLevel).on r).Can (out, r')) :
      Reachable (if resets registry r.injector.settings.model then some registry else last) r'.injector

/-- An injector with storage for its first particles can begin with any stream. -/
theorem reachable_new {settings : Settings α}
    (hroom : settings.initialCapacity * Population.recordBytes ≤ Count.byteLimit) (stream : RandomStream γ)
    (population : Population α) (events : EventBuffer α) :
    Reachable ω none { settings, stream, population, events, flow := .unset } := by
  have hstored : Count.store settings.initialCapacity Population.recordBytes = .ok () := if_pos hroom
  have hnew : ∃ full : Population α, Population.withCapacity settings.initialCapacity = .ok full :=
    ⟨_, bind_eq_ok.2 ⟨(), hstored, rfl⟩⟩
  obtain ⟨full, hfull⟩ := hnew
  exact .edited population events (.start (bind_eq_ok.2 ⟨full, hfull, bind_eq_ok.2 ⟨_, rfl, rfl⟩⟩))

/-- Flow rates that were last reset for the zones of this registry, or never. -/
def ResetFor (flow : FlowRates α) : Option (Registry α) → Prop
  | none => flow = .unset
  | some registry => flow.Readable (zoneCount registry)

theorem resetFor_of_reachable {last : Option (Registry α)} {i : Injector α γ} (h : Reachable ω last i) :
    ResetFor i.flow last := by
  induction h with
  | start made =>
    obtain ⟨_, -, made⟩ := bind_eq_ok.1 made
    obtain ⟨_, -, made⟩ := bind_eq_ok.1 made
    rw [pure_eq_ok.1 made]
    rfl
  | edited population events before ih => exact ih
  | @stepped last r r' env registry time wantedLevel out before step ih =>
    cases hreset : resets registry r.injector.settings.model with
    | true => exact ((accrues_inject_of_resets hreset).of_can step).2
    | false =>
      have hsame : r'.injector.flow = r.injector.flow := ((accrues_inject_of_not_resets hreset).of_can step).2
      rw [hsame]
      exact ih

end Injector
end Inflow
