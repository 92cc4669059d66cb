import Inflow.Proofs.Injector.Release
import Inflow.Proofs.Apportion.Group
/-!
# The work of a set

One lemma for each part of a set's work: whether it is quiet, how many particles
it leaves, and what it leaves alone. Together they say what a set does on each
rank, and that the ranks of a group get through it in step or give up at the
same point.
-/

namespace Inflow.Injector

open Step

variable {α γ ω : Type}

/-- What the work on fresh particles leaves alone. -/
structure Keeps (r r' : Run α γ ω) : Prop where
  settings : r'.injector.settings = r.injector.settings
  census : r'.census = r.census
  released : r'.injector.population.released = r.injector.population.released

theorem Keeps.refl (r : Run α γ ω) : Keeps r r := ⟨rfl, rfl, rfl⟩

theorem Keeps.trans {r s t : Run α γ ω} (h : Keeps r s) (h' : Keeps s t) : Keeps r t :=
  ⟨h'.settings.trans h.settings, h'.census.trans h.census, h'.released.trans h.released⟩

/-! ## Fresh particles -/

variable {r r' : Run α γ ω}

theorem quiet_fresh (start : Nat) : Quiet (fresh start : Step α γ ω _) := quiet_bind quiet_get fun _ => quiet_pure _

@[simp] theorem yields_fresh {start : Nat} {ps : Array (Particle α)} :
    (fresh start).Yields r ps r' ↔ ps = r.injector.population.tail start ∧ r' = r := by
  simp only [fresh, yields_bind, yields_get, yields_pure]
  constructor
  · rintro ⟨_, _, ⟨rfl, rfl⟩, h⟩
    exact h
  · exact fun h => ⟨r, r, ⟨rfl, rfl⟩, h⟩

@[simp] theorem yields_setFresh {start : Nat} {ps : Array (Particle α)} {u : Unit} :
    (setFresh start ps).Yields r u r' ↔
      r' = { r with injector := { r.injector with population := r.injector.population.withTail start ps } } := by
  simp [setFresh]

theorem quiet_runHook (hook : Hook α ω) (call : HookCall α) (ps : Array (Particle α)) :
    Quiet (runHook hook call ps : Step α γ ω _) :=
  quiet_bind quiet_get fun _ => quiet_bind (quiet_modify _) fun _ => quiet_bind (quiet_check _) fun _ => quiet_pure _

/-- A hook has edited particles. -/
def Edited (hook : Hook α ω) (call : HookCall α) (ps edited : Array (Particle α)) : Prop :=
  ∃ outside v, (hook call ps.toVector outside).1 = .ok v ∧ edited = v.toArray

/-- A hook gives back as many particles as it gets. -/
theorem Edited.size {hook : Hook α ω} {call : HookCall α} {ps edited : Array (Particle α)}
    (h : Edited hook call ps edited) : edited.size = ps.size := by
  obtain ⟨_, v, -, rfl⟩ := h
  exact v.size_toArray

theorem yields_runHook {hook : Hook α ω} {call : HookCall α} {ps edited : Array (Particle α)}
    (h : (runHook hook call ps).Yields r edited r') : Edited hook call ps edited ∧ ∃ outside, r' = { r with outside } := by
  simp only [runHook, yields_bind, yields_get, yields_modify, yields_check, yields_pure] at h
  obtain ⟨_, _, ⟨rfl, rfl⟩, _, _, rfl, v, _, ⟨hv, rfl⟩, rfl, rfl⟩ := h
  exact ⟨⟨_, v, hv, rfl⟩, _, rfl⟩

variable [Scalar α] [Generator γ] {env : Surroundings α ω} {q : Request α}

theorem quiet_releaseFresh (dtp : α) (index : List Nat) (start : Nat) (faces : Option (Array Nat)) :
    Quiet (releaseFresh env q dtp index start faces : Step α γ ω _) :=
  quiet_bind (quiet_fresh _) fun _ => quiet_bind (quiet_check _) fun _ => quiet_bind (quiet_draw _) fun _ =>
    quiet_bind (quiet_runHook _ _ _) fun _ => quiet_updateInjector _

/-- What placing and moving fresh particles comes to. -/
theorem releaseFresh_cases {dtp : α} {index : List Nat} {start : Nat} {faces : Option (Array Nat)} {u : Unit}
    (h : (releaseFresh env q dtp index start faces).Yields r u r') : ∃ placed ready moved stream outside,
      Release.place q.zone index env.mesh env.seat.rank (r.injector.population.tail start) = .ok placed ∧
      ((Release.initializeAll env.mesh q.set dtp faces placed).run.run r.injector.stream).1 = .ok ready ∧
      Edited env.hooks.move { set := q.set, faces, sublayer := env.sublayer } ready moved ∧
      r' = { r with
        injector := { r.injector with
          stream
          population := r.injector.population.withTail start (ready.zipWith (afterMove env.seat.rank) moved) }
        outside } := by
  simp only [releaseFresh, yields_bind, yields_fresh, yields_check, yields_draw, yields_setFresh] at h
  obtain ⟨_, _, ⟨rfl, rfl⟩, placed, _, ⟨hplaced, rfl⟩, ready, _, ⟨hready, rfl⟩, moved, _, hmoved, rfl⟩ := h
  obtain ⟨hedited, outside, rfl⟩ := yields_runHook hmoved
  exact ⟨placed, ready, moved, _, outside, hplaced, hready, hedited, rfl⟩

theorem yields_releaseFresh {dtp : α} {index : List Nat} {start : Nat} {faces : Option (Array Nat)} {u : Unit}
    (h : (releaseFresh env q dtp index start faces).Yields r u r') :
    Keeps r r' ∧ r'.injector.population.size = r.injector.population.size := by
  obtain ⟨placed, ready, moved, _, _, hplaced, hready, hmoved, rfl⟩ := releaseFresh_cases h
  refine ⟨⟨rfl, rfl, rfl⟩, Population.size_withTail_of_size _ _ ?_⟩
  have hready := Release.size_of_stays (Release.gives_initializeAll _ _ _ _ _ _ _ hready)
  rw [Array.size_zipWith, hmoved.size, hready, Nat.min_self, Release.size_place hplaced]

theorem quiet_finishFresh (dtp : α) (level start : Nat) (faces : Option (Array Nat)) :
    Quiet (finishFresh env q dtp level start faces : Step α γ ω _) :=
  quiet_bind quiet_get fun _ => quiet_bind (quiet_fresh _) fun _ => quiet_bind (quiet_draw _) fun _ =>
    quiet_bind (quiet_runHook _ _ _) fun _ => quiet_updateInjector _

/-- What setting and editing attributes comes to. -/
theorem finishFresh_cases {dtp : α} {level start : Nat} {faces : Option (Array Nat)} {u : Unit}
    (h : (finishFresh env q dtp level start faces).Yields r u r') : ∃ equipped modified stream outside,
      ((Release.attributes { model := r.injector.settings.model, fluid := env.fluid, level, dtp } q.set
        (r.injector.population.tail start)).run.run r.injector.stream).1 = .ok equipped ∧
      Edited env.hooks.modify { set := q.set, faces, sublayer := env.sublayer } equipped modified ∧
      r' = { r with
        injector := { r.injector with
          stream
          population := r.injector.population.withTail start
            ((equipped.zipWith afterModify modified).map (Release.advance dtp)) }
        outside } := by
  simp only [finishFresh, yields_bind, yields_get, yields_fresh, yields_draw, yields_setFresh] at h
  obtain ⟨_, _, ⟨rfl, rfl⟩, _, _, ⟨rfl, rfl⟩, equipped, _, ⟨hequipped, rfl⟩, modified, _, hmodified, rfl⟩ := h
  obtain ⟨hedited, outside, rfl⟩ := yields_runHook hmodified
  exact ⟨equipped, modified, _, outside, hequipped, hedited, rfl⟩

theorem yields_finishFresh {dtp : α} {level start : Nat} {faces : Option (Array Nat)} {u : Unit}
    (h : (finishFresh env q dtp level start faces).Yields r u r') :
    Keeps r r' ∧ r'.injector.population.size = r.injector.population.size := by
  obtain ⟨equipped, modified, _, _, hequipped, hmodified, rfl⟩ := finishFresh_cases h
  refine ⟨⟨rfl, rfl, rfl⟩, Population.size_withTail_of_size _ _ ?_⟩
  have hequipped := Release.size_of_stays (Release.gives_attributes _ _ _ _ _ hequipped)
  rw [Array.size_map, Array.size_zipWith, hmodified.size, hequipped, Nat.min_self]

/-! ## Lost particles -/

/-- The tracker has looked up the cells of particles, and calls some lost. -/
def Relocated (env : Surroundings α ω) (ps located : Array (Particle α)) (lost : List Nat) : Prop :=
  ∃ before after v, env.tracker.relocate env.mesh ps.toVector env.sublayer before = ((v, lost), after) ∧
    located = v.toArray

omit [Scalar α] in
theorem Relocated.size {ps located : Array (Particle α)} {lost : List Nat} (h : Relocated env ps located lost) :
    located.size = ps.size := by
  obtain ⟨_, _, v, -, rfl⟩ := h
  exact v.size_toArray

/-- The cells of all fresh particles have been looked up, and those that the tracker calls lost taken out. -/
def LookedUp (env : Surroundings α ω) (start : Nat) (faces globalFaces : Option (Array Nat)) (r : Run α γ ω)
    (out : Nat × Option (Array Nat) × Option (Array Nat)) (r' : Run α γ ω) : Prop :=
  ∃ located lost outside log, Relocated env (r.injector.population.tail start) located lost ∧
    let left := (r.injector.population.withTail start located).removeFrom start lost
    out = (left.1, faces.map (dropPositions · lost), globalFaces.map (dropPositions · lost)) ∧
    r' = { r with injector := { r.injector with population := left.2 }, outside, log }

/-- What is done once some rank has moved particles. -/
def lookUp (env : Surroundings α ω) (q : Request α) (start : Nat) (faces globalFaces : Option (Array Nat))
    (ps : Array (Particle α)) : Step α γ ω (Nat × Option (Array Nat) × Option (Array Nat)) := do
  let ((located, lost), outside) := env.tracker.relocate env.mesh ps.toVector env.sublayer (← get).outside
  modify fun r => { r with outside }
  setFresh start located.toArray
  if lost.isEmpty then return (0, faces, globalFaces)
  let (count, population) := (← get).injector.population.removeFrom start lost
  Step.setPopulation population
  Step.say [.notLocated q.kind q.zone.id q.set.id count]
  return (count, faces.map (strikePositions · lost), globalFaces.map (strikePositions · lost))

omit [Generator γ] in
theorem relocateFresh_eq (env : Surroundings α ω) (q : Request α) (start : Nat) (faces globalFaces : Option (Array Nat)) :
    (relocateFresh env q start faces globalFaces : Step α γ ω _) = do
      let ps ← fresh start
      let displaced ← Step.check (anyDisplaced env.mesh ps)
      if ← Step.meet (Program.any displaced) then lookUp env q start faces globalFaces ps
      else return (0, faces, globalFaces) := rfl

omit [Scalar α] [Generator γ] in
theorem quiet_lookUp (start : Nat) (faces globalFaces : Option (Array Nat)) (ps : Array (Particle α)) :
    Quiet (lookUp env q start faces globalFaces ps : Step α γ ω _) := by
  refine quiet_bind quiet_get fun r => quiet_bind (quiet_modify _) fun _ => ?_
  refine quiet_bind (quiet_updateInjector _) fun _ => ?_
  split
  · exact quiet_pure _
  · exact quiet_bind quiet_get fun _ => quiet_bind (quiet_setPopulation _) fun _ => quiet_bind (quiet_say _) fun _ =>
      quiet_pure _

omit [Scalar α] [Generator γ] in
theorem yields_lookUp {start : Nat} {faces globalFaces : Option (Array Nat)}
    {out : Nat × Option (Array Nat) × Option (Array Nat)}
    (h : (lookUp env q start faces globalFaces (r.injector.population.tail start)).Yields r out r') :
    LookedUp env start faces globalFaces r out r' := by
  simp only [lookUp, yields_bind, yields_get, yields_modify, yields_setFresh] at h
  obtain ⟨_, m, ⟨rfl, rfl⟩, _, _, rfl, _, _, rfl, h⟩ := h
  obtain ⟨⟨⟨located, lost⟩, outside⟩, hlocated⟩ : ∃ x, env.tracker.relocate env.mesh
      (m.injector.population.tail start).toVector env.sublayer m.outside = x := ⟨_, rfl⟩
  simp only [hlocated] at h
  have hrelocated : Relocated env (m.injector.population.tail start) located.toArray lost :=
    ⟨_, _, located, hlocated, rfl⟩
  split at h
  · rename_i hnone
    obtain rfl : lost = [] := List.isEmpty_iff.1 hnone
    obtain ⟨rfl, rfl⟩ := yields_pure.1 h
    refine ⟨_, _, outside, m.log, hrelocated, ?_, rfl⟩
    simp [Population.removeFrom, dropPositions_nil]
  · simp only [yields_bind, yields_get, yields_setPopulation, yields_say, yields_pure] at h
    obtain ⟨_, _, ⟨rfl, rfl⟩, _, _, rfl, _, _, rfl, rfl, rfl⟩ := h
    refine ⟨_, _, outside, _, hrelocated, ?_, rfl⟩
    simp only [strikePositions_eq]

omit [Generator γ] in
/-- Looking up cells either is not called for, or takes out what the tracker calls lost. -/
theorem relocateFresh_cases {start : Nat} {faces globalFaces : Option (Array Nat)}
    {out : Nat × Option (Array Nat) × Option (Array Nat)}
    (h : (relocateFresh env q start faces globalFaces).Yields r out r') :
    out = (0, faces, globalFaces) ∧ r' = r ∨ LookedUp env start faces globalFaces r out r' := by
  simp only [relocateFresh_eq, yields_bind, yields_fresh, yields_check, yields_meet] at h
  obtain ⟨_, _, ⟨rfl, rfl⟩, displaced, _, ⟨-, rfl⟩, someone, _, ⟨-, rfl⟩, h⟩ := h
  split at h
  · exact .inr (yields_lookUp h)
  · exact .inl (yields_pure.1 h)

omit [Generator γ] in
/-- Whatever the tracker calls lost, those taken out and those left make up all there were. -/
theorem yields_relocateFresh {start : Nat} {faces globalFaces : Option (Array Nat)}
    {out : Nat × Option (Array Nat) × Option (Array Nat)}
    (h : (relocateFresh env q start faces globalFaces).Yields r out r') :
    Keeps r r' ∧ r'.injector.population.size + out.1 = r.injector.population.size ∧
      (start ≤ r.injector.population.size → start ≤ r'.injector.population.size) := by
  obtain ⟨rfl, rfl⟩ | ⟨located, lost, _, _, hlocated, rfl, rfl⟩ := relocateFresh_cases h
  · exact ⟨.refl _, rfl, id⟩
  · have hsize : (r.injector.population.withTail start located).size = r.injector.population.size :=
      Population.size_withTail_of_size _ _ hlocated.size
    obtain ⟨hsum, hle, hreleased⟩ := Population.removeFrom_spec (Population.withTail _ start located) start lost
    refine ⟨⟨rfl, rfl, hreleased⟩, ?_, fun h => hle (h.trans_eq hsize.symm)⟩
    rw [Nat.add_comm]
    exact hsum.trans hsize

/-! ## Events -/

omit [Scalar α] [Generator γ] in
theorem quiet_recordInflow (ps : List (Particle α)) (faces globalFaces : List Nat) :
    Quiet (recordInflow ps faces globalFaces : Step α γ ω _) := by
  induction ps generalizing faces globalFaces with
  | nil => exact quiet_pure _
  | cons p ps ih =>
    cases faces with
    | nil => exact quiet_pure _
    | cons face faces =>
      cases globalFaces with
      | nil => exact quiet_pure _
      | cons globalFace globalFaces => exact quiet_bind (quiet_modify _) fun _ => ih faces globalFaces

omit [Scalar α] [Generator γ] in
/-- Recording events changes the buffer and what the sink has, and nothing else. -/
theorem recordInflow_cases {ps : List (Particle α)} {faces globalFaces : List Nat} {u : Unit}
    (h : (recordInflow ps faces globalFaces).Yields r u r') :
    ∃ events sink, r' = { r with injector := { r.injector with events }, sink } := by
  induction ps generalizing faces globalFaces r with
  | nil => exact ⟨_, _, (yields_pure.1 h).2⟩
  | cons p ps ih =>
    cases faces with
    | nil => exact ⟨_, _, (yields_pure.1 h).2⟩
    | cons face faces =>
      cases globalFaces with
      | nil => exact ⟨_, _, (yields_pure.1 h).2⟩
      | cons globalFace globalFaces =>
        simp only [recordInflow, recordEvent, yields_bind, yields_modify] at h
        obtain ⟨_, _, rfl, h⟩ := h
        obtain ⟨events, sink, rfl⟩ := ih h
        exact ⟨events, sink, rfl⟩

omit [Scalar α] [Generator γ] in
theorem quiet_recordFresh (start : Nat) (faces globalFaces : Option (Array Nat)) :
    Quiet (recordFresh env start faces globalFaces : Step α γ ω _) := by
  unfold recordFresh
  split
  · refine quiet_bind quiet_get fun r => ?_
    split
    · refine quiet_bind (quiet_updateInjector _) fun _ => ?_
      split
      · exact quiet_bind (quiet_fault _) fun _ => quiet_bind (quiet_fresh _) fun _ => quiet_recordInflow _ _ _
      · exact quiet_bind (quiet_fresh _) fun _ => quiet_recordInflow _ _ _
    · exact quiet_pure _
  · exact quiet_pure _

omit [Scalar α] [Generator γ] in
theorem recordFresh_cases {start : Nat} {faces globalFaces : Option (Array Nat)} {u : Unit}
    (h : (recordFresh env start faces globalFaces).Yields r u r') :
    ∃ events sink, r' = { r with injector := { r.injector with events }, sink } := by
  unfold recordFresh at h
  split at h
  · simp only [yields_bind, yields_get] at h
    obtain ⟨_, _, ⟨rfl, rfl⟩, h⟩ := h
    split at h
    · simp only [yields_bind, yields_updateInjector] at h
      obtain ⟨_, _, rfl, h⟩ := h
      split at h
      · simp at h
      · simp only [yields_bind, yields_fresh] at h
        obtain ⟨_, _, ⟨-, rfl⟩, h⟩ := h
        obtain ⟨events, sink, rfl⟩ := recordInflow_cases h
        exact ⟨events, sink, rfl⟩
    · exact ⟨_, _, (yields_pure.1 h).2⟩
  · exact ⟨_, _, (yields_pure.1 h).2⟩

omit [Scalar α] [Generator γ] in
theorem yields_recordFresh {start : Nat} {faces globalFaces : Option (Array Nat)} {u : Unit}
    (h : (recordFresh env start faces globalFaces).Yields r u r') :
    Keeps r r' ∧ r'.injector.population = r.injector.population := by
  obtain ⟨events, sink, rfl⟩ := recordFresh_cases h
  exact ⟨⟨rfl, rfl, rfl⟩, rfl⟩

/-! ## Closing -/

omit [Generator γ] in
/-- A set that is closed has admissible particles, which are entered into the flow rates and counted. -/
theorem closeSet_cases {start kept : Nat} (h : (closeSet q start).Yields r kept r') : ∃ flow population,
    Admissibility.violations r.injector.settings.model start (r.injector.population.tail start) = .ok [] ∧
      kept = (r.injector.population.tail start).size ∧
      r.injector.population.recordReleased kept (totalWeight (r.injector.population.tail start).toList) =
        .ok population ∧
      r' = { r with injector := { r.injector with flow, population } } := by
  simp only [closeSet, yields_bind, yields_fresh, yields_get, yields_check, yields_agree, yields_updateInjector,
    yields_setPopulation, yields_pure, and_assoc, exists_and_left, exists_eq_left, exists_const] at h
  obtain ⟨violations, hviolations, _, hnone, flow, -, population, hpopulation, rfl, rfl⟩ := h
  split at hnone
  · rename_i hempty
    rw [List.isEmpty_iff.1 hempty] at hviolations
    exact ⟨flow, population, hviolations, rfl, hpopulation, rfl⟩
  · cases hnone

omit [Generator γ] in
/-- Closing a set counts the fresh particles as released. -/
theorem yields_closeSet {start kept : Nat} (h : (closeSet q start).Yields r kept r') :
    r'.injector.settings = r.injector.settings ∧ r'.census = r.census ∧
      r'.injector.population.size = r.injector.population.size ∧ kept = r.injector.population.size - start ∧
      r'.injector.population.released = r.injector.population.released + kept := by
  obtain ⟨flow, population, -, rfl, hpopulation, rfl⟩ := closeSet_cases h
  obtain ⟨hreleased, hparticles⟩ := Population.recordReleased_ok _ hpopulation
  refine ⟨rfl, rfl, ?_, Population.size_tail _ _, hreleased⟩
  exact congrArg Array.size hparticles

/-! ## Opening -/

/-- A set that is open has been shared out, and there was room for the particles. -/
theorem openSet_cases {index : List Nat} {start : Nat} (h : (openSet env q).Yields r (index, start) r') :
    ∃ layout population log,
      (Apportion.overZone q.set.count q.zone.elements (env.mesh.weights q.kind) (q.set.factors q.zone) env.seat
        r.injector.stream).Can (.ok layout) ∧
      index = layout.index ∧ start = r.injector.population.size ∧
      (∃ range, r.injector.population.appendBlankFrom env.memory (layout.index.getLastD 0) =
        .ok ⟨.ok range, population⟩) ∧
      r' = { r with injector := { r.injector with stream := layout.stream, population }, log } := by
  simp only [openSet, yields_bind, yields_agree, yields_get, yields_check, yields_meet, yields_setStream, yields_say,
    yields_setPopulation, yields_pure, Prod.mk.injEq, and_assoc, exists_and_left, exists_eq_left, exists_const] at h
  obtain ⟨_, -, _, hshare, layout, rfl, ⟨result, population⟩, hgrown, range, hagree, rfl, rfl, rfl⟩ := h
  obtain rfl := mapError_eq_ok.1 hagree
  have hstart : range.start = r.injector.population.size := by rw [(Population.appendBlankFrom_ok hgrown).1]
  exact ⟨layout, population, _, hshare, rfl, hstart, ⟨range, hgrown⟩, rfl⟩

/-- Opening a set appends the rank's particles of the layout. -/
theorem yields_openSet {index : List Nat} {start : Nat} (h : (openSet env q).Yields r (index, start) r') :
    Keeps r r' ∧ start = r.injector.population.size ∧
      r'.injector.population.size = r.injector.population.size + index.getLastD 0 := by
  obtain ⟨layout, population, _, -, rfl, rfl, ⟨range, hgrown⟩, rfl⟩ := openSet_cases h
  obtain ⟨-, hparticles, hreleased⟩ := Population.appendBlankFrom_ok hgrown
  refine ⟨⟨rfl, rfl, hreleased⟩, rfl, ?_⟩
  simp [Population.size, hparticles]

/-! ## The whole set -/

/-- The faces that a set's particles came through, if its zone is one of faces. -/
def facesOf (q : Request α) (index : List Nat) : Checked (Option (Array Nat) × Option (Array Nat)) :=
  if q.kind = .boundary then do
    return (some (← Release.faces q.zone index), some (← Release.globalFaces q.zone index))
  else return (none, none)

/-- The work of a set once it is open, from the layout and the index of the first fresh particle on. -/
def fillSet (env : Surroundings α ω) (dtp : α) (level : Nat) (q : Request α) (index : List Nat) (start : Nat) :
    Step α γ ω SetSummary := do
  let faces ← Step.check (facesOf q index)
  releaseFresh env q dtp index start faces.1
  let left ← relocateFresh env q start faces.1 faces.2
  finishFresh env q dtp level start left.2.1
  recordFresh env start left.2.1 left.2.2
  let kept ← closeSet q start
  return { place := q.place, kept, lost := left.1 }

theorem injectSet_eq (env : Surroundings α ω) (dtp : α) (level : Nat) (q : Request α) :
    (injectSet env dtp level q : Step α γ ω SetSummary) =
      openSet env q >>= fun opened => fillSet env dtp level q opened.1 opened.2 := by
  unfold injectSet
  refine congrArg (openSet env q >>= ·) (funext fun opened => ?_)
  unfold fillSet facesOf
  by_cases hkind : q.kind = .boundary
  · simp only [if_pos hkind]
    cases Release.faces q.zone opened.1 with
    | error f => rfl
    | ok faces =>
      cases Release.globalFaces q.zone opened.1 with
      | error f => rfl
      | ok globalFaces => rfl
  · simp only [if_neg hkind]
    rfl

/-- Every particle that is there when a set is open is kept or lost. -/
theorem yields_fillSet {dtp : α} {level start : Nat} {index : List Nat} {s : SetSummary}
    (h : (fillSet env dtp level q index start).Yields r s r') (hstart : start ≤ r.injector.population.size) :
    r'.injector.settings = r.injector.settings ∧ r'.census = r.census ∧
      r'.injector.population.size = start + s.kept ∧ start + s.kept + s.lost = r.injector.population.size ∧
      r'.injector.population.released = r.injector.population.released + s.kept ∧ s.place = q.place := by
  simp only [fillSet, yields_bind, yields_check, yields_pure] at h
  obtain ⟨faces, _, ⟨-, rfl⟩, _, r₁, hrelease, left, r₂, hrelocate, _, r₃, hfinish, _, r₄, hrecord, kept, _, hclose,
    rfl, rfl⟩ := h
  obtain ⟨keeps₁, size₁⟩ := yields_releaseFresh hrelease
  obtain ⟨keeps₂, size₂, start₂⟩ := yields_relocateFresh hrelocate
  obtain ⟨keeps₃, size₃⟩ := yields_finishFresh hfinish
  obtain ⟨keeps₄, pop₄⟩ := yields_recordFresh hrecord
  obtain ⟨hsettings, hcensus, hsize, hkept, hreleased⟩ := yields_closeSet hclose
  have keeps := ((keeps₁.trans keeps₂).trans keeps₃).trans keeps₄
  rw [pop₄] at hsize hkept
  refine ⟨hsettings.trans keeps.settings, hcensus.trans keeps.census, ?_, ?_, ?_, rfl⟩
  · simp only
    omega
  · simp only
    omega
  · rw [hreleased, keeps.released]

/-- A run after some particles have been released: what was kept is in the
population and counted, and settings and census are as they were. -/
structure Released (r r' : Run α γ ω) (kept : Nat) : Prop where
  settings : r'.injector.settings = r.injector.settings
  census : r'.census = r.census
  size : r'.injector.population.size = r.injector.population.size + kept
  released : r'.injector.population.released = r.injector.population.released + kept

theorem yields_injectSet {dtp : α} {level : Nat} {s : SetSummary} (h : (injectSet env dtp level q).Yields r s r') :
    Released r r' s.kept ∧ s.place = q.place := by
  rw [injectSet_eq] at h
  obtain ⟨⟨index, start⟩, m, hopen, hfill⟩ := yields_bind.1 h
  obtain ⟨keeps, rfl, hsize⟩ := yields_openSet hopen
  obtain ⟨hsettings, hcensus, hsize', -, hreleased, hplace⟩ := yields_fillSet hfill (by simp only; omega)
  refine ⟨⟨hsettings.trans keeps.settings, hcensus.trans keeps.census, hsize', ?_⟩, hplace⟩
  rw [hreleased, keeps.released]

/-! ## All sets -/

/-- Whether a set is due at a step; a set whose turn cannot be told is not. -/
def dueAt (time : TimeStep α) (released : Nat) (q : Request α) : Bool :=
  match q.set.isDue time.step time.start released with
  | .ok due => due
  | .error _ => false

omit [Scalar α] in
theorem isDue_of_dueAt {time : TimeStep α} {released : Nat} (h : dueAt time released q = true) :
    q.set.isDue time.step time.start released = .ok true := by
  unfold dueAt at h
  split at h
  · rename_i due hok
    rw [hok, h]
  · cases h

/-- The number of particles that sets have kept. -/
def keptIn (sets : List SetSummary) : Nat := (sets.map (·.kept)).sum

/-- The number of particles that sets have lost. -/
def lostIn (sets : List SetSummary) : Nat := (sets.map (·.lost)).sum

/-- A set is released before those after it if it is due, and passed over if not. -/
theorem on_injectDue_cons {time : TimeStep α} {level : Nat} {qs : List (Request α)} {due : Bool}
    (h : q.set.isDue time.step time.start r.census.cumulativeTotal = .ok due) :
    (injectDue env time level (q :: qs)).on r = (if due then injectSet env time.dtp level q >>= fun s => do
      let after ← injectDue env time level qs
      return s :: after
    else injectDue env time level qs).on r := by
  rw [injectDue, on_bind, on_get, Program.done_bind, andThen]
  simp only [h]
  rfl

theorem injectDue_append (env : Surroundings α ω) (time : TimeStep α) (level : Nat) (qs qs' : List (Request α)) :
    (injectDue env time level (qs ++ qs') : Step α γ ω _) = do
      let sets ← injectDue env time level qs
      let sets' ← injectDue env time level qs'
      return sets ++ sets' := by
  induction qs with
  | nil => simp [injectDue]
  | cons q qs ih =>
    simp only [List.cons_append, injectDue, bind_assoc, ih]
    refine congrArg (get >>= ·) (funext fun r => congrArg (Step.check _ >>= ·) (funext fun due => ?_))
    split <;> simp

/-- Every set that is due leaves one summary, in the order of the sets. -/
theorem yields_injectDue {time : TimeStep α} {level : Nat} {qs : List (Request α)} {sets : List SetSummary}
    (h : (injectDue env time level qs).Yields r sets r') :
    Released r r' (keptIn sets) ∧
      sets.map (·.place) = (qs.filter (dueAt time r.census.cumulativeTotal)).map (·.place) := by
  induction qs generalizing r sets with
  | nil =>
    obtain ⟨rfl, rfl⟩ := yields_pure.1 h
    exact ⟨⟨rfl, rfl, rfl, rfl⟩, rfl⟩
  | cons q qs ih =>
    simp only [injectDue, yields_bind, yields_get, yields_check] at h
    obtain ⟨_, _, ⟨rfl, rfl⟩, due, _, ⟨hdue, rfl⟩, h⟩ := h
    split at h
    · rename_i hyes
      simp only [yields_bind, yields_pure] at h
      obtain ⟨s, m, hset, rest, _, hrest, rfl, rfl⟩ := h
      obtain ⟨hs, hplace⟩ := yields_injectSet hset
      obtain ⟨hr, hplaces⟩ := ih hrest
      rw [hs.census] at hplaces
      refine ⟨⟨hr.settings.trans hs.settings, hr.census.trans hs.census, ?_, ?_⟩, ?_⟩
      · rw [hr.size, hs.size, Nat.add_assoc]
        rfl
      · rw [hr.released, hs.released, Nat.add_assoc]
        rfl
      · rw [List.filter_cons_of_pos (by simp [dueAt, hdue, hyes]), List.map_cons, List.map_cons, hplace, hplaces]
    · rename_i hno
      obtain ⟨hr, hplaces⟩ := ih h
      exact ⟨hr, by rw [List.filter_cons_of_neg (by simp [dueAt, hdue, hno]), hplaces]⟩

end Inflow.Injector
