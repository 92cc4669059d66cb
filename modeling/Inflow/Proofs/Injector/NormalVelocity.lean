import Inflow.Proofs.Checks.Setup
import Inflow.Proofs.Injector.Accounting
import Inflow.Proofs.Injector.Preserved
/-!
# Particles that enter along a normal

A set may have its particles enter along the normals of faces. A particle is placed
by the offsets of its set, and looks up its face in a table of its own; both go back
to the element that owns the particle, so it moves against the normal of the very
face that it was placed at. A set that has no faces is not accepted, so no particle
is left without a velocity.
-/

namespace Inflow

variable {α γ ω : Type}

theorem Vec3.along_map (f : α → α) (v : Vec3 α) (d : Axis) : Vec3.along (v.map f) d = f (v.along d) :=
  Vector.getElem_map ..

namespace Release

variable [Scalar α] [Generator γ]

/-! ## Velocities of fresh particles -/

/-- Each particle gets the velocity that its set imposes, with the face at its own position. -/
theorem gives_imposed (mesh : Mesh α) (set : InjectionSet α) (dtp : α) (faces : Option (Array Nat))
    (ps : Array (Particle α)) : (initializeAll mesh set dtp faces ps : Drawing γ _).Gives fun ready =>
      ∀ (k : Nat) (p : Particle α), ready[k]? = some p →
        ∃ placed, ps[k]? = some placed ∧ imposedVelocity mesh set (faces.bind (·[k]?)) placed = .ok p.velocity := by
  have hone : ∀ entry : Particle α × Nat, (initializeOne mesh set dtp (faces.bind (·[entry.2]?)) entry.1 :
      Drawing γ _).Gives fun p => imposedVelocity mesh set (faces.bind (·[entry.2]?)) entry.1 = .ok p.velocity := by
    intro entry
    refine Drawing.gives_bind (Drawing.gives_true _) fun r _ => Drawing.gives_check fun p hp => ?_
    obtain ⟨velocity, hvelocity, hp⟩ := bind_eq_ok.1 hp
    rw [pure_eq_ok.1 hp]
    exact hvelocity
  refine Drawing.gives_bind (Drawing.gives_mapM hone _) fun ready hready => Drawing.gives_pure fun k p hp => ?_
  rw [List.getElem?_toArray] at hp
  obtain ⟨hk, rfl⟩ := List.getElem?_eq_some_iff.1 hp
  have hlength := hready.length_eq
  have hat := hready.get (hlength ▸ hk) hk
  rw [List.length_zipIdx] at hlength
  simp only [List.get_eq_getElem, List.getElem_zipIdx, Nat.zero_add] at hat
  exact ⟨_, by rw [← Array.getElem?_toList, List.getElem?_eq_getElem (hlength ▸ hk)], hat⟩

omit [Scalar α] [Generator γ] in
theorem velocity_withHeat (x : Setting α) (set : InjectionSet α) (p : Particle α) :
    (withHeat x set p).velocity = p.velocity := by
  simp only [withHeat]
  split <;> rfl

omit [Scalar α] [Generator γ] in
theorem velocity_withShape (x : Setting α) (set : InjectionSet α) (p : Particle α) :
    (withShape x set p).velocity = p.velocity := by
  simp only [withShape]
  split <;> rfl

omit [Generator γ] in
theorem velocity_withCoal {x : Setting α} {set : InjectionSet α} {p p' : Particle α}
    (h : withCoal x set p = .ok p') : p'.velocity = p.velocity := by
  unfold withCoal at h
  split at h
  · obtain ⟨layers, -, h⟩ := bind_eq_ok.1 h
    rw [pure_eq_ok.1 h]
  · cases h
    rfl

/-- Attributes come with a velocity of their own only for sets that take that of the fluid. -/
theorem gives_velocities (x : Setting α) {set : InjectionSet α} {magnitude : α} (hset : set.velocity = .normal magnitude)
    (ps : Array (Particle α)) : (attributes x set ps : Drawing γ _).Gives fun ready =>
      List.Forall₂ (fun p p' => p'.velocity = p.velocity) ps.toList ready.toList := by
  refine Drawing.gives_bind (Drawing.gives_mapM (fun p => ?_) _) fun ready hready => Drawing.gives_pure hready
  refine Drawing.gives_bind (Drawing.gives_true _) fun velocity _ => Drawing.gives_bind (Drawing.gives_true _)
    fun diameter _ => Drawing.gives_check fun p' hp' => ?_
  calc p'.velocity = (withSize x set diameter (withFluidVelocity set velocity p)).velocity := by
        rw [velocity_withCoal hp', velocity_withShape, velocity_withHeat]
    _ = p.velocity := by simp only [withSize, withFluidVelocity, hset]

end Release

namespace Injector

open Step

variable [Scalar α] [Generator γ] {env : Surroundings α ω} {q : Request α} {w : Passage α} {magnitude : α}

/-- The particle enters through a face: it was placed at the centre of the face, in
the cell behind it, and moves against the face's normal. -/
structure Enters (mesh : Mesh α) (magnitude : α) (face : Nat) (placed p : Particle α) : Prop where
  position : mesh.faceCenters[face]? = some placed.position
  cell : mesh.faceCells[face]? = some placed.cell
  velocity : ∃ normal, mesh.faceNormals[face]? = some normal ∧ ∀ d, p.velocity.along d = -normal.along d * magnitude

/-- A particle is where it was placed, and has the velocity that goes with the face that it was placed at. -/
theorem Passage.Begins.enters {dtp : α} (h : w.Begins γ env dtp q) (hkind : q.kind = .boundary)
    (hzone : q.zone.kind = q.kind) (hvelocity : q.set.velocity = .normal magnitude) {i k : Nat}
    (howns : Release.Owns w.index i k) {p : Particle α} (hp : w.ready[k]? = some p) :
    ∃ face, q.zone.elements[i]? = some face ∧ Enters env.mesh magnitude face p p := by
  obtain ⟨placed, ready, -, hhome, hready, hstays⟩ := h.exists_placed howns
  obtain rfl : ready = p := Option.some.inj (hready.symm.trans hp)
  obtain ⟨cs, hindex, hcs⟩ := h.index_eq
  have hfaces := h.faces
  rw [hindex] at hfaces howns
  obtain ⟨faces, globalFaces, hout, -, -, howned⟩ := facesOf_of_boundary hcs hkind hfaces
  obtain ⟨hw, -⟩ := Prod.mk.inj hout
  obtain ⟨face, -, hface, -, hown, -⟩ := howned i k howns
  obtain ⟨hcenter, hcell⟩ := Release.home_of_boundary (hzone.trans hkind) hface hhome
  refine ⟨face, hface, by rw [hcenter, hstays.position], by rw [hcell, hstays.cell], ?_⟩
  -- The table of faces has at `k` the face that the particle was placed at.
  obtain ⟨stream, hinitialized⟩ := h.ready
  obtain ⟨_, -, himposed⟩ := Release.gives_imposed _ _ _ _ _ _ _ hinitialized k ready hp
  rw [hw, Option.bind_some, hown] at himposed
  simp only [Release.imposedVelocity, hvelocity] at himposed
  obtain ⟨normal, hnormal, himposed⟩ := bind_eq_ok.1 himposed
  refine ⟨normal, fetch_eq_ok.1 hnormal, fun d => ?_⟩
  rw [pure_eq_ok.1 himposed, Vec3.along_map]

/-! ## Velocities of kept particles -/

/-- Neither the hooks nor the tracker have a say in velocities; beyond that they may change anything. -/
structure LeavesVelocities (env : Surroundings α ω) : Prop where
  move : Hook.Preserves env.hooks.move (·.velocity)
  tracker : Tracker.Preserves env.tracker (·.velocity)
  modify : Hook.Preserves env.hooks.modify (·.velocity)

omit [Generator γ] in
/-- The rest of a step moves a particle along its velocity, and leaves the velocity as it is. -/
theorem velocity_last (dtp : α) (l : Life α) : (l.last dtp).velocity = l.modified.velocity := by
  unfold Life.last Release.advance
  split <;> rfl

/-- A particle is kept with the velocity that it entered with. -/
theorem velocity_kept {x : Release.Setting α} (henv : LeavesVelocities env) (h : w.Follows γ env x q)
    (hvelocity : q.set.velocity = .normal magnitude) {j : Nat} {l : Life α} (hl : Traces env q w j l) :
    (l.last x.dtp).velocity = l.ready.velocity := by
  obtain ⟨stream, hequipped⟩ := h.equipped
  obtain ⟨equipped, hat, hunchanged⟩ := getElem?_of_forall₂ (Release.gives_velocities x hvelocity _ _ _ hequipped)
    (Passage.getElem?_remaining hl.origin hl.located)
  obtain rfl : equipped = l.equipped := Option.some.inj (hat.symm.trans hl.equipped)
  calc (l.last x.dtp).velocity = l.modified.velocity := velocity_last x.dtp l
    _ = l.equipped.velocity := eq_of_map_eq (h.modified.map_eq henv.modify) hl.equipped hl.modified
    _ = l.located.velocity := hunchanged
    _ = (afterMove env.seat.rank l.ready l.moved).velocity := eq_of_map_eq (h.located_eq henv.tracker) hl.arrived hl.located
    _ = l.moved.velocity := rfl
    _ = l.ready.velocity := eq_of_map_eq (h.moved.map_eq henv.move) hl.ready hl.moved

/-! ## One step -/

/-- Where a set has its particles enter along normals, and its registry is accepted, each
fresh particle enters through the face that it was placed at, for none is without a
face; and each particle that a step keeps does, if hooks and tracker leave velocities alone. -/
theorem enters_through_own_face :
    (∀ (registry : Registry α) (model : Model α), registry.issues model = [] → ∀ q ∈ registry.requests,
      ∀ magnitude, q.set.velocity = .normal magnitude → ∀ (dtp : α) (w : Passage α), w.Begins γ env dtp q →
        ∀ (k : Nat) (p : Particle α), w.ready[k]? = some p → ∃ i face, Release.Owns w.index i k ∧
          q.zone.elements[i]? = some face ∧ Enters env.mesh magnitude face p p) ∧
    ∀ (registry : Registry α) (time : TimeStep α) (wantedLevel : Nat) (r r' : Run α γ ω) (summary : StepSummary α),
      (inject env registry time wantedLevel).Yields r (.injected summary) r' →
        ∃ ws, Gained env registry time wantedLevel r r' summary ws ∧
          List.Forall₂ (fun q w => ∀ magnitude, q.set.velocity = .normal magnitude → LeavesVelocities env →
            ∀ (j : Nat) (p : Particle α), (w.kept time.dtp)[j]? = some p → ∃ l face, Traces env q w j l ∧
              p = l.last time.dtp ∧ q.zone.elements[l.element]? = some face ∧ Enters env.mesh magnitude face l.placed p)
            (dueSets registry time r) ws := by
  constructor
  · intro registry model haccepted q hq magnitude hvelocity dtp w hw k p hp
    have hkind := Registry.boundary_of_normal haccepted hq hvelocity
    have hzone := Registry.kind_of_accepted haccepted hq
    obtain ⟨i, howns⟩ := hw.exists_owner (hw.size_ready ▸ lt_size_of_getElem? hp)
    obtain ⟨face, hface, henters⟩ := hw.enters hkind hzone hvelocity howns hp
    exact ⟨i, face, howns, hface, henters⟩
  · intro registry time wantedLevel r r' summary h
    have haccepted := accepted_of_yields h
    obtain ⟨ws, hgained⟩ := gained_of_injected h
    have hdue : ∀ q ∈ dueSets registry time r, q ∈ registry.requests := fun q hq => List.mem_of_mem_filter hq
    refine ⟨ws, hgained, ((List.forall₂_and_left _ _).2 ⟨hdue, hgained.passages⟩).imp ?_⟩
    rintro q w ⟨hq, hw, -⟩ magnitude hvelocity henv j p hp
    have hkind := Registry.boundary_of_normal haccepted hq hvelocity
    have hzone := Registry.kind_of_accepted haccepted hq
    obtain ⟨l, hl, rfl⟩ := hw.exists_life hp
    obtain ⟨face, hface, henters⟩ := hw.begins.enters hkind hzone hvelocity hl.owns hl.ready
    refine ⟨l, face, hl, rfl, hface, ?_, ?_, ?_⟩
    · rw [henters.position, hl.stays.position]
    · rw [henters.cell, hl.stays.cell]
    · rw [velocity_kept henv hw hvelocity hl]
      exact henters.velocity

/-! ## A pair of ranks with inward particles -/

/-- The set of the pair, with particles that enter along the normals of their faces. -/
def inwardRegistry : Registry ℚ where
  boundary := [{
    zone := { id := 0, name := "inlet", kind := .boundary, elements := #[0] }
    nature := .inlet
    sets := [{ InjectionSet.standard with count := 4, velocity := .normal 2 }] }]

theorem eq_of_mem_inwardRegistry {q : Request ℚ} (h : q ∈ inwardRegistry.requests) :
    q.set.velocity = .normal 2 ∧ q.zone.elements = #[0] := by
  obtain rfl := List.mem_singleton.1 h
  exact ⟨rfl, rfl⟩

/-- The hook of rank 1 moves particles and does not turn them. -/
theorem leavesVelocities_pairEnv (i : Fin 2) : LeavesVelocities (pairEnv i) where
  move := by
    intro n call ps v outside hv
    fin_cases i
    · cases hv
      rfl
    · cases hv
      exact Vector.map_map
  tracker _ _ _ _ := rfl
  modify := by
    fin_cases i <;> exact Hook.preserves_idle _

theorem speed_of_enters {i : Fin 2} {face : Nat} {placed p : Particle ℚ}
    (h : Enters (pairEnv i).mesh 2 face placed p) (hface : face ∈ #[0]) : p.velocity.along .x = 2 := by
  obtain ⟨normal, hnormal, hvelocity⟩ := h.velocity
  obtain rfl : face = 0 := by simpa using hface
  obtain rfl : Vec3.onAxis .x (-1) = normal := Option.some.inj hnormal
  rw [hvelocity]
  decide +kernel

/-- How many particles a rank has. -/
def particleCount (out : PairEnd) : Nat := out.2.injector.population.size

/-- Rank 1 keeps two particles that it has moved, and they have the speed that goes with the face that they left. -/
theorem enters_through_own_face_onPair : ∃ (s : Fin 2 → StepSummary ℚ) (ts : Fin 2 → Run ℚ ChaCha.State Unit),
    Group.run (List.ofFn fun i => (inject (pairEnv i) inwardRegistry firstStep 0).on (pairRuns 10 i)) =
      some (List.ofFn fun i => (.ok (.injected (s i)), ts i)) ∧
    (ts 1).injector.population.size = 2 ∧
    ∀ i, ∀ p ∈ (ts i).injector.population.particles, p.velocity.along .x = 2 := by
  have hall : (Group.run (List.ofFn fun i => (inject (pairEnv i) inwardRegistry firstStep 0).on (pairRuns 10 i))).map
      (·.all fun out => releasedCount 2 out && true) = some true := by decide +kernel
  have hcounts : (Group.run (List.ofFn fun i =>
      (inject (pairEnv i) inwardRegistry firstStep 0).on (pairRuns 10 i))).map (·.map particleCount) = some [0, 2] := by
    decide +kernel
  obtain ⟨s, ts, hrun, -⟩ := released_of_all (fun _ => true) hall
  have hresults : Results (fun i => inject (pairEnv i) inwardRegistry firstStep 0) (pairRuns 10)
      (fun i => .injected (s i)) ts := hrun
  refine ⟨s, ts, hrun, ?_, fun i p hp => ?_⟩
  · rw [hrun] at hcounts
    have hboth : (ts 0).injector.population.size = 0 ∧ (ts 1).injector.population.size = 2 := by
      simpa [List.ofFn_succ, particleCount] using hcounts
    exact hboth.2
  · obtain ⟨ws, hgained, henters⟩ := enters_through_own_face.2 _ _ _ _ _ _ (hresults.yields i)
    have hmem : p ∈ keptBy firstStep.dtp ws := by
      rw [← Array.mem_toList_iff, hgained.particles] at hp
      exact hp
    obtain ⟨w, hw, hkept⟩ := List.mem_flatMap.1 hmem
    obtain ⟨j, hj⟩ := List.mem_iff_getElem?.1 hkept
    obtain ⟨q, hq, hq'⟩ := exists_of_mem_forall₂ henters hw
    obtain ⟨hvelocity, hzone⟩ := eq_of_mem_inwardRegistry (List.mem_of_mem_filter hq)
    rw [Array.getElem?_toList] at hj
    obtain ⟨l, face, -, -, hface, henter⟩ := hq' 2 hvelocity (leavesVelocities_pairEnv i) j p hj
    rw [hzone] at hface
    exact speed_of_enters henter (Array.mem_of_getElem? hface)

end Injector
end Inflow
