import Inflow.Proofs.Checks.Admissibility
import Inflow.Proofs.FlowRates
import Inflow.Proofs.Injector.Step
import Inflow.Proofs.Release.Ranges
/-!
# The work of a set stays within the tables

The elements of a zone are checked against the mesh before particles are shared
out. From there on, what the work of a set reads is known to be there, whatever hooks
do to the particles: the cells in which they are looked up are those that they were
placed or found in, which hooks cannot change, and a class that is none has no slot of
its own. So the work stops for no table that is read past its end.
-/

namespace Inflow

open Apportion (offsets)

variable {α γ ω : Type}

/-- A hook has stopped at a fault, and has left the outside like this. -/
def Hook.Stopped (hook : Hook α ω) (f : Fault) (outside : ω) : Prop :=
  ∃ (n : Nat) (call : HookCall α) (ps : Vector (Particle α) n) (before : ω), hook call ps before = (.error f, outside)

namespace Injector

open Step

/-- The faults that are no access out of range: counts and storage that are too
large, and what a part of the surroundings has stopped at on its own. The fluid is
asked for cells of the mesh only, and for levels that it keeps. -/
inductive Excused [Scalar α] (env : Surroundings α ω) : Fault → Run α γ ω → Prop
  | overflow {r : Run α γ ω} : Excused env .overflow r
  | tooLarge {r : Run α γ ω} : Excused env .tooLarge r
  | move {f : Fault} {r : Run α γ ω} (h : Hook.Stopped env.hooks.move f r.outside) : Excused env f r
  | modify {f : Fault} {r : Run α γ ω} (h : Hook.Stopped env.hooks.modify f r.outside) : Excused env f r
  | fluid {f : Fault} {r : Run α γ ω} {cell level : Nat} (hcell : cell < env.mesh.cellCount)
    (hlevel : level ≤ env.fluid.levels - 1) (h : env.fluid.velocity cell level = .error f) : Excused env f r

variable {env : Surroundings α ω} {q : Request α} {r r' : Run α γ ω}

/-- All fresh particles are in cells of the mesh. -/
def Housed [Scalar α] (mesh : Mesh α) (start : Nat) (r : Run α γ ω) : Prop :=
  ∀ p ∈ r.injector.population.tail start, p.cell < mesh.cellCount

variable [Scalar α]

/-! ## Excused faults -/

theorem stopsIn_counted {β : Type} {x : Checked β} (h : ∀ f, x = .error f → f = .overflow) :
    (check x : Step α γ ω β).StopsIn (Excused env) r := by
  apply stopsIn_check
  intro f hf
  rw [h f hf]
  exact .overflow

theorem stopsIn_stored {β : Type} {x : Checked β} (h : ∀ f, x = .error f → f = .tooLarge) :
    (check x : Step α γ ω β).StopsIn (Excused env) r := by
  apply stopsIn_check
  intro f hf
  rw [h f hf]
  exact .tooLarge

/-! ## Hooks and trackers -/

theorem stopsIn_fresh {P : Fault → Run α γ ω → Prop} (start : Nat) : (fresh start : Step α γ ω _).StopsIn P r := by
  unfold fresh
  apply stopsIn_bind stopsIn_get
  intro _ _ _
  exact stopsIn_pure _

theorem stopsIn_runHook {P : Fault → Run α γ ω → Prop} {hook : Hook α ω} {call : HookCall α}
    {ps : Array (Particle α)} (hhook : ∀ f m, Hook.Stopped hook f m.outside → P f m) :
    (runHook hook call ps : Step α γ ω _).StopsIn P r := by
  unfold runHook
  apply stopsIn_bind stopsIn_get
  intro b m hget
  obtain ⟨rfl, rfl⟩ := yields_get.1 hget
  apply stopsIn_bind (stopsIn_modify _)
  intro _ m hmodify
  obtain rfl := yields_modify.1 hmodify
  apply stopsIn_bind
  · apply stopsIn_check
    intro f hf
    exact hhook f _ ⟨_, call, ps.toVector, _, Prod.ext hf rfl⟩
  · intro _ _ _
    exact stopsIn_pure _

/-! ## Opening a set -/

omit [Scalar α] in
theorem within_of_checkInputs {factors : Option (Array α)} (hkind : q.zone.kind = q.kind)
    (h : checkInputs q (env.mesh.weights q.kind) factors = .ok ()) : q.zone.Within env.mesh := by
  intro e he
  rw [hkind]
  exact lt_of_checkInputs h e (Array.mem_toList_iff.2 he)

variable [Generator γ]

/-- Sharing out does not stop where the inputs have passed their check. -/
theorem not_can_overZone {weights : Array α} {factors : Option (Array α)} {n : Nat} {seat : Seat}
    {stream : RandomStream γ} {f : Fault} (hok : checkInputs q weights factors = .ok ()) :
    ¬ (Apportion.overZone n q.zone.elements weights factors seat stream).Can (.error f) := by
  obtain ⟨table, htable⟩ := buildIndexed_of_checkInputs hok
  intro h
  unfold Apportion.overZone at h
  simp only [htable, Program.can_bind, Program.pure_eq_done, Program.can_done, reduceCtorEq, and_false,
    exists_false] at h

theorem stopsIn_openSet : (openSet env q : Step α γ ω _).StopsIn (Excused env) r := by
  unfold openSet
  apply stopsIn_bind (stopsIn_agree _ _)
  intro _ m hagree
  obtain ⟨hok, rfl⟩ := yields_agree.1 hagree
  apply stopsIn_bind stopsIn_get
  intro _ _ _
  apply stopsIn_bind (stopsIn_meet _)
  intro shared _ hmeet
  obtain ⟨hshared, rfl⟩ := yields_meet.1 hmeet
  apply stopsIn_bind
  · apply stopsIn_check
    rintro f rfl
    exact absurd hshared (not_can_overZone hok)
  intro layout _ _
  apply stopsIn_bind (stopsIn_setStream _)
  intro _ _ _
  apply stopsIn_bind (stopsIn_say _)
  intro _ _ _
  apply stopsIn_bind (stopsIn_say _)
  intro _ _ _
  apply stopsIn_bind stopsIn_get
  intro _ _ _
  apply stopsIn_bind (stopsIn_counted fun f hf => (Population.appendBlankFrom_eq_error hf).1)
  intro grown _ _
  apply stopsIn_bind (stopsIn_setPopulation _)
  intro _ _ _
  apply stopsIn_bind (stopsIn_agree _ _)
  intro _ _ _
  exact stopsIn_pure _

/-- What is known once a set is open: its elements are in the mesh, and the fresh
particles are laid out over them. -/
structure Opened (env : Surroundings α ω) (q : Request α) (cs : List Nat) (start : Nat) (r r' : Run α γ ω) : Prop where
  within : q.zone.Within env.mesh
  places : cs.length = q.zone.elements.size
  size : (r'.injector.population.tail start).size = cs.sum
  flow : r'.injector.flow = r.injector.flow

theorem opened_of_yields (hkind : q.zone.kind = q.kind) {index : List Nat} {start : Nat}
    (h : (openSet env q).Yields r (index, start) r') : ∃ cs, index = offsets 0 cs ∧ Opened env q cs start r r' := by
  have hsizes := yields_openSet h
  have hwithin : q.zone.Within env.mesh := by
    unfold openSet at h
    obtain ⟨_, _, hagree, -⟩ := yields_bind.1 h
    exact within_of_checkInputs hkind (yields_agree.1 hagree).1
  obtain ⟨layout, population, log, hlaid, rfl, rfl, hgrown, rfl⟩ := openSet_cases h
  obtain ⟨cs, hindex, hcs⟩ := Apportion.index_of_overZone hlaid
  refine ⟨cs, hindex, hwithin, hcs, ?_, rfl⟩
  have hsize := hsizes.2.2
  rw [hindex, Apportion.getLastD_offsets, Nat.zero_add] at hsize
  rw [Population.size_tail, hsize]
  omega

/-! ## Filling a set -/

section Filling

variable {cs : List Nat} {start : Nat} {faces globalFaces : Option (Array Nat)} {zones : ZoneKind → Nat}

omit [Scalar α] [Generator γ] in
theorem facesOf_eq_error {f : Fault} (hcs : cs.length = q.zone.elements.size)
    (h : facesOf q (offsets 0 cs) = .error f) : f = .tooLarge := by
  unfold facesOf at h
  split at h
  · rcases bind_eq_error.1 h with h | ⟨_, -, h⟩
    · exact (Release.faces_eq_error hcs h).1
    · exact absurd (bind_pure_eq_error.1 h) (Release.globalFaces_ne_error hcs)
  · exact absurd h pure_ne_error

omit [Scalar α] [Generator γ] in
/-- The faces of a set are faces of the mesh. -/
theorem face_lt_of_facesOf {index : List Nat} {out : Option (Array Nat) × Option (Array Nat)}
    (hkind : q.zone.kind = q.kind) (hzone : q.zone.Within env.mesh) (h : facesOf q index = .ok out) :
    ∀ fs, out.1 = some fs → ∀ face ∈ fs, face < env.mesh.faceCount := by
  intro fs hfs face hface
  unfold facesOf at h
  split at h
  · rename_i hboundary
    obtain ⟨fs', hfs', h⟩ := bind_eq_ok.1 h
    obtain ⟨_, -, h⟩ := bind_eq_ok.1 h
    rw [pure_eq_ok.1 h, Option.some.injEq] at hfs
    subst hfs
    have hlt := hzone face (Release.mem_of_mem_faces hfs' hface)
    rwa [hkind, hboundary] at hlt
  · rw [pure_eq_ok.1 h] at hfs
    cases hfs

theorem stopsIn_releaseFresh (hmesh : env.mesh.Regular) (hzone : q.zone.Within env.mesh)
    (hcs : cs.length = q.zone.elements.size)
    (hfaces : ∀ fs, faces = some fs → ∀ face ∈ fs, face < env.mesh.faceCount) (dtp : α) :
    (releaseFresh env q dtp (offsets 0 cs) start faces : Step α γ ω _).StopsIn (Excused env) r := by
  unfold releaseFresh
  apply stopsIn_bind (stopsIn_fresh _)
  intro _ _ _
  apply stopsIn_bind
  · apply stopsIn_check
    intro f hf
    exact absurd hf (Release.place_ne_error hcs fun _ => Release.isSome_home hmesh hzone)
  intro placed _ _
  apply stopsIn_bind
  · exact stopsIn_draw (Release.failsIn_initializeAll (P := fun _ => False) hmesh hfaces) fun _ _ hno => hno.elim
  intro ready _ _
  apply stopsIn_bind
  · exact stopsIn_runHook fun f m hf => .move hf
  intro _ _ _
  exact stopsIn_updateInjector _

/-- Particles are in cells of the mesh after they were moved: the hook has no say in their cells. -/
theorem housed_releaseFresh (hmesh : env.mesh.Regular) (hzone : q.zone.Within env.mesh)
    (hsize : (r.injector.population.tail start).size = cs.sum) {dtp : α} {u : Unit}
    (h : (releaseFresh env q dtp (offsets 0 cs) start faces).Yields r u r') :
    Housed env.mesh start r' ∧ r'.injector.flow = r.injector.flow := by
  obtain ⟨placed, ready, moved, _, _, hplaced, hready, -, rfl⟩ := releaseFresh_cases h
  refine ⟨?_, rfl⟩
  intro p hp
  have hp := Population.mem_of_mem_tail_withTail _ hp
  obtain ⟨k, hk, rfl⟩ := Array.mem_iff_getElem.1 hp
  rw [Array.getElem_zipWith]
  rw [Array.size_zipWith] at hk
  have hkr : k < ready.size := by omega
  have hstays := Release.gives_initializeAll _ _ _ _ _ _ _ hready
  have hkp : k < placed.size := by rwa [← Release.size_of_stays hstays]
  have hcell : ready[k].cell = placed[k].cell := (hstays.get hkp hkr).cell
  have hlt := Release.cell_place_lt hmesh hzone hplaced hsize (Array.getElem_mem hkp)
  rw [← hcell] at hlt
  exact hlt

omit [Generator γ] in
theorem anyDisplaced_ne_error (h : Housed env.mesh start r) {f : Fault} :
    anyDisplaced env.mesh (r.injector.population.tail start) ≠ .error f := by
  intro hf
  unfold anyDisplaced at hf
  obtain ⟨p, hp, hf⟩ := exists_mem_of_mapM_eq_error (bind_pure_eq_error.1 hf)
  have hlt := h p (Array.mem_toList_iff.1 hp)
  have hsize := (fetch_eq_error.1 (bind_pure_eq_error.1 hf)).2
  unfold Mesh.cellCount at hlt
  omega

omit [Generator γ] in
theorem stopsIn_relocateFresh (h : Housed env.mesh start r) :
    (relocateFresh env q start faces globalFaces : Step α γ ω _).StopsIn (Excused env) r := by
  unfold relocateFresh
  apply stopsIn_bind (stopsIn_fresh _)
  intro ps m hfresh
  obtain ⟨rfl, rfl⟩ := yields_fresh.1 hfresh
  apply stopsIn_bind
  · apply stopsIn_check
    intro f hf
    exact absurd hf (anyDisplaced_ne_error h)
  intro displaced _ _
  apply stopsIn_bind (stopsIn_meet _)
  intro someone _ _
  split
  · apply stopsIn_bind stopsIn_get
    intro _ _ _
    apply stopsIn_bind (stopsIn_modify _)
    intro _ _ _
    apply stopsIn_bind (stopsIn_updateInjector _)
    intro _ _ _
    split
    · exact stopsIn_pure _
    · apply stopsIn_bind stopsIn_get
      intro _ _ _
      apply stopsIn_bind (stopsIn_setPopulation _)
      intro _ _ _
      apply stopsIn_bind (stopsIn_say _)
      intro _ _ _
      exact stopsIn_pure _
  · exact stopsIn_pure _

/-- The tracker goes by the positions of particles alone. -/
def GoesByPosition (env : Surroundings α ω) : Prop :=
  ∀ {n : Nat} (ps : Vector (Particle α) n) (outside : ω),
    (env.tracker.relocate env.mesh ps env.sublayer outside).1 = env.mesh.relocate ps

theorem goesByPosition_byPosition {env : Surroundings α Nat} (h : env.tracker = .byPosition) : GoesByPosition env := by
  intro n ps outside
  rw [h]
  rfl

omit [Generator γ] in
theorem relocated_byPosition (htracker : GoesByPosition env) {ps located : Array (Particle α)} {lost : List Nat}
    (h : Relocated env ps located lost) :
    located = (env.mesh.relocate ps.toVector).1.toArray ∧ lost = (env.mesh.relocate ps.toVector).2 := by
  obtain ⟨before, after, v, hv, rfl⟩ := h
  rw [← htracker _ before, hv]
  exact ⟨rfl, rfl⟩

omit [Generator γ] in
/-- A particle that is looked up is found in a cell of the mesh, or stays where it was. -/
theorem housed_relocateFresh (hmesh : env.mesh.Regular) (htracker : GoesByPosition env) (hr : Housed env.mesh start r)
    {out : Nat × Option (Array Nat) × Option (Array Nat)}
    (h : (relocateFresh env q start faces globalFaces).Yields r out r') :
    Housed env.mesh start r' ∧ r'.injector.flow = r.injector.flow := by
  obtain ⟨-, rfl⟩ | ⟨located, lost, _, _, hlocated, -, rfl⟩ := relocateFresh_cases h
  · exact ⟨hr, rfl⟩
  · refine ⟨?_, rfl⟩
    intro p hp
    have hp := Population.mem_of_mem_tail_withTail _ (Population.mem_of_mem_tail_removeFrom _ hp)
    rw [(relocated_byPosition htracker hlocated).1, Mesh.relocate, Vector.toArray_map, Array.mem_map] at hp
    obtain ⟨p', hp', rfl⟩ := hp
    unfold Mesh.host
    split
    · rename_i cell hcell
      exact hmesh.located hcell
    · exact hr p' hp'

theorem stopsIn_finishFresh {level : Nat} (hlevel : level ≤ env.fluid.levels - 1) (hset : q.set.Spreads)
    (h : Housed env.mesh start r) (dtp : α) :
    (finishFresh env q dtp level start faces : Step α γ ω _).StopsIn (Excused env) r := by
  unfold finishFresh
  apply stopsIn_bind stopsIn_get
  intro b m hget
  obtain ⟨rfl, rfl⟩ := yields_get.1 hget
  apply stopsIn_bind (stopsIn_fresh _)
  intro ps m hfresh
  obtain ⟨rfl, rfl⟩ := yields_fresh.1 hfresh
  apply stopsIn_bind
  · apply stopsIn_draw (Q := fun f => ∀ m : Run α γ ω, Excused env f m)
    · apply Release.failsIn_attributes hset
      · intro p hp f hf m
        exact .fluid (h p hp) hlevel hf
      · intro m
        exact .tooLarge
    · intro f m hf
      exact hf m
  intro ready _ _
  apply stopsIn_bind
  · exact stopsIn_runHook fun f m hf => .modify hf
  intro _ _ _
  exact stopsIn_updateInjector _

omit [Generator γ] in
theorem stopsIn_recordInflow {P : Fault → Run α γ ω → Prop} (ps : List (Particle α)) (fs gs : List Nat) :
    (recordInflow ps fs gs : Step α γ ω _).StopsIn P r := by
  induction ps generalizing fs gs r with
  | nil => exact stopsIn_pure _
  | cons p ps ih =>
    cases fs with
    | nil => exact stopsIn_pure _
    | cons face fs =>
      cases gs with
      | nil => exact stopsIn_pure _
      | cons globalFace gs =>
        unfold recordInflow
        apply stopsIn_bind (stopsIn_modify _)
        intro _ m _
        exact ih fs gs

omit [Generator γ] in
theorem stopsIn_recordFresh :
    (recordFresh env start faces globalFaces : Step α γ ω _).StopsIn (Excused env) r := by
  unfold recordFresh
  split
  · apply stopsIn_bind stopsIn_get
    intro b _ _
    split
    · apply stopsIn_bind (stopsIn_updateInjector _)
      intro _ _ _
      split
      · rename_i f hf
        apply stopsIn_bind
        · apply stopsIn_fault
          -- Only storage that cannot exist keeps the buffer from having its capacity.
          unfold EventBuffer.ensureCapacity at hf
          split at hf
          · simp only at hf
            split at hf
            · cases hf
            · rename_i hstore
              cases hf
              rw [(Count.store_eq_error.1 hstore).1]
              exact .tooLarge
          · cases hf
        · intro _ _ _
          apply stopsIn_bind (stopsIn_fresh _)
          intro _ _ _
          exact stopsIn_recordInflow _ _ _
      · apply stopsIn_bind (stopsIn_fresh _)
        intro _ _ _
        exact stopsIn_recordInflow _ _ _
    · exact stopsIn_pure _
  · exact stopsIn_pure _

/-! ## Closing a set -/

omit [Generator γ] in
theorem addFlow_eq_error {kind : ZoneKind} {zone : Nat} {flow : FlowRates α} (hflow : flow.Shaped zones)
    (hzone : zone < zones kind) {ps : List (Particle α)} {f : Fault} (h : addFlow kind zone flow ps = .error f) :
    f = .overflow := by
  induction ps generalizing flow with
  | nil => cases h
  | cons p ps ih =>
    unfold addFlow at h
    rcases bind_eq_error.1 h with h | ⟨next, hnext, h⟩
    · exact FlowRates.add_eq_error hflow hzone h
    · exact ih (hflow.add hnext) h

omit [Generator γ] in
theorem shaped_addFlow {kind : ZoneKind} {zone : Nat} {flow flow' : FlowRates α} (hflow : flow.Shaped zones)
    {ps : List (Particle α)} (h : addFlow kind zone flow ps = .ok flow') : flow'.Shaped zones := by
  induction ps generalizing flow with
  | nil =>
    cases h
    exact hflow
  | cons p ps ih =>
    unfold addFlow at h
    obtain ⟨next, hnext, h⟩ := bind_eq_ok.1 h
    exact ih (hflow.add hnext) h

omit [Generator γ] in
theorem stopsIn_closeSet (hflow : r.injector.flow.Shaped zones)
    (hzone : q.zoneIndex < zones q.kind) : (closeSet q start : Step α γ ω _).StopsIn (Excused env) r := by
  unfold closeSet
  apply stopsIn_bind (stopsIn_fresh _)
  intro ps m hfresh
  obtain ⟨-, rfl⟩ := yields_fresh.1 hfresh
  apply stopsIn_bind stopsIn_get
  intro _ m hget
  obtain ⟨-, rfl⟩ := yields_get.1 hget
  apply stopsIn_bind (stopsIn_counted fun f => Admissibility.violations_eq_error)
  intro violations m hchecked
  obtain ⟨-, rfl⟩ := yields_check.1 hchecked
  apply stopsIn_bind (stopsIn_agree _ _)
  intro _ m hagree
  obtain ⟨-, rfl⟩ := yields_agree.1 hagree
  apply stopsIn_bind stopsIn_get
  intro b m hget
  obtain ⟨rfl, rfl⟩ := yields_get.1 hget
  apply stopsIn_bind (stopsIn_counted fun f => addFlow_eq_error hflow hzone)
  intro flow _ _
  apply stopsIn_bind (stopsIn_updateInjector _)
  intro _ _ _
  apply stopsIn_bind stopsIn_get
  intro _ _ _
  apply stopsIn_bind (stopsIn_counted fun f => Population.recordReleased_eq_error _)
  intro _ _ _
  apply stopsIn_bind (stopsIn_setPopulation _)
  intro _ _ _
  exact stopsIn_pure _

omit [Generator γ] in
theorem shaped_closeSet {kept : Nat} (hflow : r.injector.flow.Shaped zones) (h : (closeSet q start).Yields r kept r') :
    r'.injector.flow.Shaped zones := by
  simp only [closeSet, yields_bind, yields_fresh, yields_get, yields_check, yields_agree, yields_updateInjector,
    yields_setPopulation, yields_pure, and_assoc, exists_and_left, exists_eq_left, exists_const] at h
  obtain ⟨_, -, _, -, flow, hadded, population, -, -, rfl⟩ := h
  exact shaped_addFlow hflow hadded

end Filling

/-! ## Sets -/

/-- Mesh, fluid and tracker go together: tables are complete, the level that is read
is one of the fluid's, and particles are looked up by their positions. -/
structure Grounded (env : Surroundings α ω) (level : Nat) : Prop where
  mesh : env.mesh.Regular
  level_le : level ≤ env.fluid.levels - 1
  tracker : GoesByPosition env

/-- A set of a registry with so many zones of each kind, as the setup checks leave it. -/
structure Orderly (q : Request α) (zones : ZoneKind → Nat) : Prop where
  zone_lt : q.zoneIndex < zones q.kind
  kind : q.zone.kind = q.kind
  spreads : q.set.Spreads

variable {zones : ZoneKind → Nat} {level : Nat}

theorem stopsIn_fillSet (henv : Grounded env level) (hq : Orderly q zones) {cs : List Nat} {start : Nat}
    {before : Run α γ ω} (hopen : Opened env q cs start before r) (hflow : r.injector.flow.Shaped zones) (dtp : α) :
    (fillSet env dtp level q (offsets 0 cs) start : Step α γ ω _).StopsIn (Excused env) r := by
  unfold fillSet
  apply stopsIn_bind (stopsIn_stored fun f => facesOf_eq_error hopen.places)
  intro faces m hchecked
  obtain ⟨hfaces, rfl⟩ := yields_check.1 hchecked
  have hlt := face_lt_of_facesOf hq.kind hopen.within hfaces
  apply stopsIn_bind (stopsIn_releaseFresh henv.mesh hopen.within hopen.places hlt dtp)
  intro _ m₁ hrelease
  obtain ⟨hhoused₁, hflow₁⟩ := housed_releaseFresh henv.mesh hopen.within hopen.size hrelease
  apply stopsIn_bind (stopsIn_relocateFresh hhoused₁)
  intro left m₂ hrelocate
  obtain ⟨hhoused₂, hflow₂⟩ := housed_relocateFresh henv.mesh henv.tracker hhoused₁ hrelocate
  apply stopsIn_bind (stopsIn_finishFresh henv.level_le hq.spreads hhoused₂ dtp)
  intro _ m₃ hfinish
  obtain ⟨_, _, _, _, -, -, rfl⟩ := finishFresh_cases hfinish
  apply stopsIn_bind (stopsIn_recordFresh)
  intro _ m₄ hrecord
  obtain ⟨_, _, rfl⟩ := recordFresh_cases hrecord
  apply stopsIn_bind
  · apply stopsIn_closeSet _ hq.zone_lt
    exact hflow₂ ▸ hflow₁ ▸ hflow
  intro _ _ _
  exact stopsIn_pure _

theorem shaped_fillSet (henv : Grounded env level) {cs : List Nat} {start : Nat} {before : Run α γ ω}
    (hopen : Opened env q cs start before r) (hflow : r.injector.flow.Shaped zones) {dtp : α} {s : SetSummary}
    (h : (fillSet env dtp level q (offsets 0 cs) start).Yields r s r') : r'.injector.flow.Shaped zones := by
  simp only [fillSet, yields_bind, yields_check, yields_pure] at h
  obtain ⟨faces, _, ⟨-, rfl⟩, _, m₁, hrelease, left, m₂, hrelocate, _, m₃, hfinish, _, m₄, hrecord, kept, _, hclose,
    -, rfl⟩ := h
  obtain ⟨hhoused₁, hflow₁⟩ := housed_releaseFresh henv.mesh hopen.within hopen.size hrelease
  obtain ⟨-, hflow₂⟩ := housed_relocateFresh henv.mesh henv.tracker hhoused₁ hrelocate
  obtain ⟨_, _, _, _, -, -, rfl⟩ := finishFresh_cases hfinish
  obtain ⟨_, _, rfl⟩ := recordFresh_cases hrecord
  apply shaped_closeSet _ hclose
  exact hflow₂ ▸ hflow₁ ▸ hflow

theorem stopsIn_injectSet (henv : Grounded env level) (hq : Orderly q zones) (hflow : r.injector.flow.Shaped zones)
    (dtp : α) : (injectSet env dtp level q : Step α γ ω _).StopsIn (Excused env) r := by
  rw [injectSet_eq]
  apply stopsIn_bind (stopsIn_openSet)
  rintro ⟨index, start⟩ m hyields
  obtain ⟨cs, rfl, hopen⟩ := opened_of_yields hq.kind hyields
  exact stopsIn_fillSet henv hq hopen (hopen.flow ▸ hflow) dtp

theorem shaped_injectSet (henv : Grounded env level) (hq : Orderly q zones) (hflow : r.injector.flow.Shaped zones)
    {dtp : α} {s : SetSummary} (h : (injectSet env dtp level q).Yields r s r') : r'.injector.flow.Shaped zones := by
  rw [injectSet_eq] at h
  obtain ⟨⟨index, start⟩, m, hyields, hfill⟩ := yields_bind.1 h
  obtain ⟨cs, rfl, hopen⟩ := opened_of_yields hq.kind hyields
  exact shaped_fillSet henv hopen (hopen.flow ▸ hflow) hfill

omit [Scalar α] in
theorem isDue_eq_error {set : InjectionSet α} {step start released : Nat} {f : Fault}
    (h : set.isDue step start released = .error f) : f = .overflow := by
  unfold InjectionSet.isDue at h
  have h := bind_pure_eq_error.1 h
  unfold InjectionSet.period at h
  split at h
  · cases h
  · rcases bind_eq_error.1 h with h | ⟨_, -, h⟩
    · exact Count.checked_eq_error h
    · split at h
      · exact absurd h pure_ne_error
      · exact Count.checked_eq_error h

/-- The flow rates keep their slots from set to set, so each set finds those of its zone. -/
theorem stopsIn_injectDue (henv : Grounded env level) {qs : List (Request α)} (hqs : ∀ q ∈ qs, Orderly q zones)
    (hflow : r.injector.flow.Shaped zones) (time : TimeStep α) :
    (injectDue env time level qs : Step α γ ω _).StopsIn (Excused env) r := by
  induction qs generalizing r with
  | nil => exact stopsIn_pure _
  | cons q qs ih =>
    have hq := hqs q List.mem_cons_self
    have hrest := fun q' hq' => hqs q' (List.mem_cons_of_mem q hq')
    unfold injectDue
    apply stopsIn_bind stopsIn_get
    intro _ m hget
    obtain ⟨-, rfl⟩ := yields_get.1 hget
    apply stopsIn_bind (stopsIn_counted fun f => isDue_eq_error)
    intro due m hdue
    obtain ⟨-, rfl⟩ := yields_check.1 hdue
    split
    · apply stopsIn_bind (stopsIn_injectSet henv hq hflow time.dtp)
      intro _ m hset
      apply stopsIn_bind (ih hrest (shaped_injectSet henv hq hflow hset))
      intro _ _ _
      exact stopsIn_pure _
    · exact ih hrest hflow

end Injector
end Inflow
