import Inflow.Proofs.Injector.Growth
import Inflow.Proofs.Injector.Step
/-!
# The passage of a set's particles

A set takes its particles through a fixed series of stages. `Passage` is a record
of all of them on one rank, and `Passage.Follows` says that each stage came from
the one before as the work on a set has it, whatever the other ranks reply, the
hooks do and the tracker answers. Every set that is released leaves a passage, and
what the rank gains are the particles at its end and their inflow events.
-/

namespace Inflow.Injector

open Step

variable {α γ ω : Type}

/-! ## Stages -/

/-- The particles of a set on one rank, after each part of the work on them. -/
structure Passage (α : Type) where
  /-- Where the particles of each element begin. -/
  index : List Nat
  /-- The faces that particles of a boundary zone came through. -/
  faces : Option (Array Nat)
  /-- The numbers of these faces over all ranks. -/
  globalFaces : Option (Array Nat)
  placed : Array (Particle α)
  ready : Array (Particle α)
  /-- As the first hook left them. -/
  moved : Array (Particle α)
  located : Array (Particle α)
  /-- The positions of those that are in no cell, in any order. -/
  lost : List Nat
  equipped : Array (Particle α)
  /-- As the second hook left them. -/
  modified : Array (Particle α)

namespace Passage

/-- The particles after the first hook, with their previous state. -/
def arrived (rank : Nat) (w : Passage α) : Array (Particle α) := w.ready.zipWith (afterMove rank) w.moved

def remaining (w : Passage α) : Array (Particle α) := dropPositions w.located w.lost

/-- Where among the particles laid out each of those that remain has stood. -/
def origins (w : Passage α) : List Nat := staying w.located.size w.lost

variable [Scalar α]

/-- The particles that are kept, at the end of the step. -/
def kept (dtp : α) (w : Passage α) : Array (Particle α) :=
  (w.equipped.zipWith afterModify w.modified).map (Release.advance dtp)

/-- The inflow events of the particles that are kept. -/
def inflow (dtp : α) (w : Passage α) : List (TrackingEvent α) :=
  announce (w.kept dtp) (w.faces.map (dropPositions · w.lost)) (w.globalFaces.map (dropPositions · w.lost))

variable (γ) in
/-- Each stage comes from the one before. -/
structure Follows [Generator γ] (env : Surroundings α ω) (x : Release.Setting α) (q : Request α) (w : Passage α) :
    Prop where
  laid : ∃ (stream : RandomStream γ) (layout : Apportion.Layout γ),
    (Apportion.overZone q.set.count q.zone.elements (env.mesh.weights q.kind) (q.set.factors q.zone) env.seat
      stream).Can (.ok layout) ∧ w.index = layout.index
  faces : facesOf q w.index = .ok (w.faces, w.globalFaces)
  placed : Release.place q.zone w.index env.mesh env.seat.rank (Array.replicate (w.index.getLastD 0) .blank) =
    .ok w.placed
  ready : ∃ stream : RandomStream γ,
    ((Release.initializeAll env.mesh q.set x.dtp w.faces w.placed).run.run stream).1 = .ok w.ready
  moved : Edited env.hooks.move { set := q.set, faces := w.faces, sublayer := env.sublayer } w.ready w.moved
  located : w.located = w.arrived env.seat.rank ∧ w.lost = [] ∨
    Relocated env (w.arrived env.seat.rank) w.located w.lost
  equipped : ∃ stream : RandomStream γ,
    ((Release.attributes x q.set w.remaining).run.run stream).1 = .ok w.equipped
  modified : Edited env.hooks.modify
    { set := q.set, faces := w.faces.map (dropPositions · w.lost), sublayer := env.sublayer } w.equipped w.modified

/-- The particles that are kept have passed the checks. -/
def Admitted (x : Release.Setting α) (w : Passage α) : Prop :=
  ∃ first, Admissibility.violations x.model first (w.kept x.dtp) = .ok []

end Passage

/-! ## One set -/

section Set

variable [Scalar α] [Generator γ] {env : Surroundings α ω} {q : Request α} {r r' s : Run α γ ω}

/-- The work of a set up to its checks. -/
def prepareSet (env : Surroundings α ω) (dtp : α) (level : Nat) (q : Request α) (index : List Nat) (start : Nat) :
    Step α γ ω Nat := do
  let faces ← Step.check (facesOf q index)
  releaseFresh env q dtp index start faces.1
  let left ← relocateFresh env q start faces.1 faces.2
  finishFresh env q dtp level start left.2.1
  recordFresh env start left.2.1 left.2.2
  return left.1

theorem fillSet_eq (env : Surroundings α ω) (dtp : α) (level : Nat) (q : Request α) (index : List Nat) (start : Nat) :
    (fillSet env dtp level q index start : Step α γ ω SetSummary) =
      prepareSet env dtp level q index start >>= fun lost => do
        let kept ← closeSet q start
        return { place := q.place, kept, lost } := by
  simp only [fillSet, prepareSet, bind_assoc, pure_bind]

/-- What the work of a set depends on beside the set and the mesh. -/
def setting (env : Surroundings α ω) (r : Run α γ ω) (dtp : α) (level : Nat) : Release.Setting α :=
  { model := r.injector.settings.model, fluid := env.fluid, level, dtp }

omit [Scalar α] [Generator γ] in
theorem setting_eq {dtp : α} {level : Nat} (h : s.injector.settings = r.injector.settings) :
    setting env s dtp level = setting env r dtp level := by
  rw [setting, setting, h]

omit [Scalar α] [Generator γ] in
theorem records_eq (hsettings : s.injector.settings = r.injector.settings) (hactive : s.sink.active = r.sink.active) :
    records s = records r := by
  rw [records, records, hsettings, hactive]

variable {ps : List (Particle α)} {es : List (TrackingEvent α)} {dtp : α} {level : Nat}

theorem grew_releaseFresh {index : List Nat} {faces : Option (Array Nat)} {u : Unit} (hs : Grew r s ps es)
    (h : (releaseFresh env q dtp index r.injector.population.size faces).Yields s u r') : ∃ placed ready moved,
      Release.place q.zone index env.mesh env.seat.rank ps.toArray = .ok placed ∧
      (∃ stream : RandomStream γ,
        ((Release.initializeAll env.mesh q.set dtp faces placed).run.run stream).1 = .ok ready) ∧
      Edited env.hooks.move { set := q.set, faces, sublayer := env.sublayer } ready moved ∧
      Grew r r' (ready.zipWith (afterMove env.seat.rank) moved).toList es := by
  obtain ⟨placed, ready, moved, stream, outside, hplaced, hready, hmoved, rfl⟩ := releaseFresh_cases h
  rw [hs.tail] at hplaced
  refine ⟨placed, ready, moved, hplaced, ⟨_, hready⟩, hmoved, ?_⟩
  exact hs.edit (Population.withTail_of_append hs.particles _) stream outside s.log

omit [Scalar α] [Generator γ] in
theorem grew_lookedUp {faces globalFaces : Option (Array Nat)} {out : Nat × Option (Array Nat) × Option (Array Nat)}
    (hs : Grew r s ps es) (h : LookedUp env r.injector.population.size faces globalFaces s out r') : ∃ located lost,
      Relocated env ps.toArray located lost ∧
      out.2 = (faces.map (dropPositions · lost), globalFaces.map (dropPositions · lost)) ∧
      Grew r r' (dropPositions located lost).toList es := by
  obtain ⟨located, lost, outside, log, hlocated, rfl, rfl⟩ := h
  rw [hs.tail] at hlocated
  refine ⟨located, lost, hlocated, rfl, ?_⟩
  have hafter := Population.withTail_of_append hs.particles located
  exact hs.edit (Population.removeFrom_of_append hafter lost) s.injector.stream outside log

omit [Generator γ] in
theorem grew_relocateFresh {faces globalFaces : Option (Array Nat)} {out : Nat × Option (Array Nat) × Option (Array Nat)}
    (hs : Grew r s ps es)
    (h : (relocateFresh env q r.injector.population.size faces globalFaces).Yields s out r') : ∃ located lost,
      (located = ps.toArray ∧ lost = [] ∨ Relocated env ps.toArray located lost) ∧
      out.2 = (faces.map (dropPositions · lost), globalFaces.map (dropPositions · lost)) ∧
      Grew r r' (dropPositions located lost).toList es := by
  rcases relocateFresh_cases h with ⟨rfl, rfl⟩ | hlooked
  · refine ⟨ps.toArray, [], .inl ⟨rfl, rfl⟩, ?_, by rwa [dropPositions_nil]⟩
    simp [dropPositions_nil]
  · obtain ⟨located, lost, hlocated, hleft, hgrew⟩ := grew_lookedUp hs hlooked
    exact ⟨located, lost, .inr hlocated, hleft, hgrew⟩

theorem grew_finishFresh {faces : Option (Array Nat)} {u : Unit} (hs : Grew r s ps es)
    (h : (finishFresh env q dtp level r.injector.population.size faces).Yields s u r') : ∃ equipped modified,
      (∃ stream : RandomStream γ,
        ((Release.attributes (setting env r dtp level) q.set ps.toArray).run.run stream).1 = .ok equipped) ∧
      Edited env.hooks.modify { set := q.set, faces, sublayer := env.sublayer } equipped modified ∧
      Grew r r' ((equipped.zipWith afterModify modified).map (Release.advance dtp)).toList es := by
  obtain ⟨equipped, modified, stream, outside, hequipped, hmodified, rfl⟩ := finishFresh_cases h
  rw [hs.tail, hs.settings] at hequipped
  refine ⟨equipped, modified, ⟨_, hequipped⟩, hmodified, ?_⟩
  exact hs.edit (Population.withTail_of_append hs.particles _) stream outside s.log

/-- From blank records on, the work of a set up to its checks leaves a passage. -/
theorem follows_prepareSet {lost : Nat} {stream : RandomStream γ} {layout : Apportion.Layout γ}
    (hlaid : (Apportion.overZone q.set.count q.zone.elements (env.mesh.weights q.kind) (q.set.factors q.zone) env.seat
      stream).Can (.ok layout))
    (hblank : Grew r s (List.replicate (layout.index.getLastD 0) .blank) [])
    (h : (prepareSet env dtp level q layout.index r.injector.population.size).Yields s lost r') :
    ∃ w : Passage α, w.Follows γ env (setting env r dtp level) q ∧
      Grew r r' (w.kept dtp).toList (if records r then w.inflow dtp else []) := by
  simp only [prepareSet, yields_bind, yields_check, yields_pure] at h
  obtain ⟨⟨faces, globalFaces⟩, _, ⟨hfaces, rfl⟩, _, s₁, hrelease, ⟨_, facesLeft, globalFacesLeft⟩, s₂, hrelocate, _, s₃,
    hfinish, _, s₄, hrecord, -, rfl⟩ := h
  obtain ⟨placed, ready, moved, hplaced, hready, hmoved, h₁⟩ := grew_releaseFresh hblank hrelease
  obtain ⟨located, lost, hlocated, hleft, h₂⟩ := grew_relocateFresh h₁ hrelocate
  obtain ⟨rfl, rfl⟩ := Prod.mk.inj hleft
  obtain ⟨equipped, modified, hequipped, hmodified, h₃⟩ := grew_finishFresh h₂ hfinish
  have h₄ := grew_recordFresh hrecord
  rw [h₃.tail, records_eq h₃.settings h₃.active] at h₄
  rw [List.toArray_replicate] at hplaced
  let w : Passage α :=
    { index := layout.index, faces, globalFaces, placed, ready, moved, located, lost, equipped, modified }
  have hkept : Grew r r' ((w.kept dtp).toList ++ []) ([] ++ if records r then w.inflow dtp else []) := h₃.trans h₄
  rw [List.append_nil, List.nil_append] at hkept
  exact ⟨w, ⟨⟨stream, layout, hlaid, rfl⟩, hfaces, hplaced, hready, hmoved, hlocated, hequipped, hmodified⟩, hkept⟩

/-- A set that is released leaves a passage whose particles are admissible, and the rank gains them and their events. -/
theorem follows_injectSet {summary : SetSummary} (h : (injectSet env dtp level q).Yields r summary r') :
    ∃ w : Passage α, w.Follows γ env (setting env r dtp level) q ∧ w.Admitted (setting env r dtp level) ∧
      summary.kept = (w.kept dtp).size ∧ Grew r r' (w.kept dtp).toList (if records r then w.inflow dtp else []) := by
  rw [injectSet_eq] at h
  obtain ⟨⟨index, start⟩, m, hopen, hfill⟩ := yields_bind.1 h
  obtain ⟨layout, population, log, hlaid, rfl, rfl, hgrown, rfl⟩ := openSet_cases hopen
  rw [fillSet_eq] at hfill
  simp only [yields_bind, yields_pure] at hfill
  obtain ⟨lost, s, hprepare, kept, s', hclose, rfl, rfl⟩ := hfill
  obtain ⟨w, hw, hkept⟩ := follows_prepareSet hlaid (grew_appendBlank hgrown layout.stream log) hprepare
  obtain ⟨flow, population, hnone, rfl, -⟩ := closeSet_cases hclose
  have hgrew := hkept.trans (grew_closeSet hclose)
  rw [List.append_nil, List.append_nil] at hgrew
  rw [hkept.tail, hkept.settings] at hnone
  refine ⟨w, hw, ⟨_, hnone⟩, ?_, hgrew⟩
  rw [hkept.tail]

end Set

/-! ## All sets -/

section Sets

variable [Scalar α]

/-- The particles that sets have kept, one set after the other. -/
def keptBy (dtp : α) (ws : List (Passage α)) : List (Particle α) := ws.flatMap fun w => (w.kept dtp).toList

/-- The inflow events of the particles that sets have kept. -/
def inflowBy (dtp : α) (ws : List (Passage α)) : List (TrackingEvent α) := ws.flatMap fun w => w.inflow dtp

theorem inflow_append_inflowBy (recorded : Bool) (dtp : α) (w : Passage α) (ws : List (Passage α)) :
    (if recorded then w.inflow dtp else []) ++ (if recorded then inflowBy dtp ws else []) =
      if recorded then inflowBy dtp (w :: ws) else [] := by
  split <;> rfl

variable [Generator γ]

variable (γ) in
/-- Sets have been released, one after the other: each has left a passage, with admissible particles. -/
def Passages (env : Surroundings α ω) (x : Release.Setting α) : List (Request α) → List (Passage α) → Prop :=
  List.Forall₂ fun q w => w.Follows γ env x q ∧ w.Admitted x

variable {env : Surroundings α ω} {registry : Registry α} {r r' : Run α γ ω} {time : TimeStep α}

/-- The sets that are due have been released, and no others. -/
theorem follows_injectDue {level : Nat} {qs : List (Request α)} {sets : List SetSummary}
    (h : (injectDue env time level qs).Yields r sets r') :
    ∃ ws, Passages γ env (setting env r time.dtp level) (qs.filter (dueAt time r.census.cumulativeTotal)) ws ∧
      sets.map (·.kept) = ws.map (fun w => (w.kept time.dtp).size) ∧
      Grew r r' (keptBy time.dtp ws) (if records r then inflowBy time.dtp ws else []) := by
  induction qs generalizing r sets with
  | nil =>
    obtain ⟨rfl, rfl⟩ := yields_pure.1 h
    exact ⟨[], .nil, rfl, by simpa only [inflowBy, List.flatMap_nil, ite_self] using .refl _⟩
  | cons q qs ih =>
    simp only [injectDue, yields_bind, yields_get, yields_check] at h
    obtain ⟨_, _, ⟨rfl, rfl⟩, due, r, ⟨hdue, rfl⟩, h⟩ := h
    split at h
    · rename_i hyes
      simp only [yields_bind, yields_pure] at h
      obtain ⟨summary, m, hset, rest, _, hrest, rfl, rfl⟩ := h
      obtain ⟨w, hw, hadmitted, hkept, hfirst⟩ := follows_injectSet hset
      obtain ⟨ws, hws, hcounts, hgrew⟩ := ih hrest
      rw [setting_eq hfirst.settings, hfirst.census] at hws
      rw [records_eq hfirst.settings hfirst.active] at hgrew
      rw [List.filter_cons_of_pos (by simp [dueAt, hdue, hyes])]
      refine ⟨w :: ws, .cons ⟨hw, hadmitted⟩ hws, by rw [List.map_cons, List.map_cons, hkept, hcounts], ?_⟩
      rw [← inflow_append_inflowBy]
      exact hfirst.trans hgrew
    · rename_i hno
      obtain ⟨ws, hws, hrest⟩ := ih h
      rw [List.filter_cons_of_neg (by simp [dueAt, hdue, hno])]
      exact ⟨ws, hws, hrest⟩

/-! ## The whole step -/

/-- The sets of a registry that are due at a step. -/
def dueSets (registry : Registry α) (time : TimeStep α) (r : Run α γ ω) : List (Request α) :=
  registry.requests.filter (dueAt time r.census.cumulativeTotal)

theorem follows_releaseSets {wantedLevel : Nat} {qs : List (Request α)} {sets : List SetSummary}
    (h : (releaseSets env registry time wantedLevel qs).Yields r sets r') :
    ∃ ws, Passages γ env (setting env r time.dtp (env.fluid.level wantedLevel))
        (qs.filter (dueAt time r.census.cumulativeTotal)) ws ∧
      sets.map (·.kept) = ws.map (fun w => (w.kept time.dtp).size) ∧
      Grew r r' (keptBy time.dtp ws) (if records r then inflowBy time.dtp ws else []) := by
  obtain ⟨_, m, hbegin, hdue⟩ := yields_bind.1 h
  obtain ⟨flow, -, rfl⟩ := yields_beginStep.1 hbegin
  obtain ⟨ws, hws, hcounts, hgrew⟩ := follows_injectDue hdue
  exact ⟨ws, hws, hcounts, hgrew.particles, hgrew.emitted, hgrew.settings, hgrew.census, hgrew.active⟩

omit [Generator γ] in
/-- The end of a step enters the census and hands on the flow rates, and gains nothing. -/
theorem yields_conclude {sets : List SetSummary} {o : StepOutcome α}
    (h : (conclude env time sets).Yields r o r') : ∃ census log, o = .injected (summarize r sets census) ∧
      r' = { r with census, sink := r.sink.deliverFlow r.injector.flow, log } := by
  obtain ⟨summary, m, hend, hpure⟩ := yields_bind.1 h
  obtain ⟨rfl, rfl⟩ := yields_pure.1 hpure
  rw [Yields, on_endStep, Program.can_bind] at hend
  obtain ⟨entered, -, hend⟩ := hend
  rw [Program.can_done] at hend
  cases hfault : entered.fault with
  | some f =>
    rw [endWith_of_some hfault] at hend
    cases hend
  | none =>
    rw [endWith_of_none hfault] at hend
    cases hend
    exact ⟨_, _, rfl, rfl⟩

/-- A step that comes out as injected has released the sets that are due, and has ended. -/
theorem yields_inject_injected {wantedLevel : Nat} {summary : StepSummary α}
    (h : (inject env registry time wantedLevel).Yields r (.injected summary) r') : ∃ m census log,
      (releaseSets env registry time wantedLevel registry.requests).Yields r summary.sets m ∧
      r' = { m with census, sink := m.sink.deliverFlow m.injector.flow, log } := by
  have hon := on_inject env registry time wantedLevel r
  rw [if_pos (accepted_of_yields h)] at hon
  by_cases hceiling : PassesCeiling registry r
  · rw [if_pos hceiling] at hon
    obtain ⟨⟨_, _, _, hskipped⟩, -⟩ := yields_skip ((yields_congr hon).1 h)
    cases hskipped
  · rw [if_neg hceiling] at hon
    obtain ⟨sets, m, hrelease, hend⟩ := yields_bind.1 ((yields_congr hon).1 h)
    obtain ⟨census, log, hsummary, rfl⟩ := yields_conclude hend
    cases hsummary
    exact ⟨m, census, log, hrelease, rfl⟩

/-- The gains of a rank in a step that comes out as injected: those of the sets that were due, in their order. -/
structure Gained (env : Surroundings α ω) (registry : Registry α) (time : TimeStep α) (wantedLevel : Nat)
    (r r' : Run α γ ω) (summary : StepSummary α) (ws : List (Passage α)) : Prop where
  passages : Passages γ env (setting env r time.dtp (env.fluid.level wantedLevel)) (dueSets registry time r) ws
  kept : summary.sets.map (·.kept) = ws.map fun w => (w.kept time.dtp).size
  particles : r'.injector.population.particles.toList =
    r.injector.population.particles.toList ++ keptBy time.dtp ws
  emitted : r'.emitted = r.emitted ++ if records r then inflowBy time.dtp ws else []
  settings : r'.injector.settings = r.injector.settings
  active : r'.sink.active = r.sink.active

theorem gained_of_injected {wantedLevel : Nat} {summary : StepSummary α}
    (h : (inject env registry time wantedLevel).Yields r (.injected summary) r') :
    ∃ ws, Gained env registry time wantedLevel r r' summary ws := by
  obtain ⟨m, census, log, hrelease, rfl⟩ := yields_inject_injected h
  obtain ⟨ws, hws, hkept, hgrew⟩ := follows_releaseSets hrelease
  have hsink : (m.sink.deliverFlow m.injector.flow).events = m.sink.events ∧
      (m.sink.deliverFlow m.injector.flow).active = m.sink.active := by
    unfold Sink.deliverFlow
    split <;> exact ⟨rfl, rfl⟩
  refine ⟨ws, hws, hkept, hgrew.particles, ?_, hgrew.settings, hsink.2.trans hgrew.active⟩
  rw [← hgrew.emitted, Run.emitted, Run.emitted, hsink.1]

end Sets

end Inflow.Injector
