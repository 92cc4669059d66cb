import Inflow.Proofs.Injector.Stops
import Inflow.Proofs.Mesh
import Inflow.Proofs.Release.Owners
/-!
# Releasing stays within the tables

The elements of a zone are checked once, before anything is released. Everything
that is read later goes back to them: offsets lead to places in the zone, those to
elements of the mesh, and these to centres, normals and cells. On a regular mesh all
of it is there, so releasing stops at nothing but storage that cannot exist.
-/

namespace Inflow

open Apportion (offsets)

variable {α : Type} [Scalar α]

/-- Every element of the zone has a weight in the mesh. -/
def Zone.Within (zone : Zone) (mesh : Mesh α) : Prop := ∀ e ∈ zone.elements, e < (mesh.weights zone.kind).size

namespace Release

variable {zone : Zone} {mesh : Mesh α} {cs : List Nat}

/-! ## Faces -/

omit [Scalar α] in
/-- The stretches between offsets belong to the places of a zone, one after the other. -/
theorem element_of_mem_stretches {s : Stretch} {i a : Nat} (h : s ∈ stretchesFrom i (offsets a cs)) :
    (∃ j, s.element = some j ∧ j < i + cs.length) ∧ s.count ≤ cs.sum := by
  induction cs generalizing i a with
  | nil => cases h
  | cons c cs ih =>
    rw [stretchesFrom_cons, List.mem_cons] at h
    rw [List.length_cons, List.sum_cons]
    rcases h with rfl | h
    · exact ⟨⟨i, rfl, by omega⟩, Nat.le_add_right c _⟩
    · obtain ⟨⟨j, hj, hlt⟩, hcount⟩ := ih h
      exact ⟨⟨j, hj, by omega⟩, by omega⟩

theorem owner_of_mem_stretches {s : Stretch} (hcs : cs.length = zone.elements.size)
    (h : s ∈ stretches (offsets 0 cs)) : ∃ j, s.owner = .ok j ∧ j < zone.elements.size := by
  obtain ⟨⟨j, hj, hlt⟩, -⟩ := element_of_mem_stretches h
  refine ⟨j, ?_, by omega⟩
  unfold Stretch.owner
  rw [hj]

/-- Faces are read off as long as there is storage for their numbers. -/
theorem faces_eq_error (hcs : cs.length = zone.elements.size) {f : Fault}
    (h : faces zone (offsets 0 cs) = .error f) : f = .tooLarge ∧ Count.byteLimit < cs.sum * faceBytes := by
  unfold faces at h
  obtain ⟨s, hs, h⟩ := exists_mem_of_mapM_eq_error (bind_pure_eq_error.1 h)
  obtain ⟨j, howner, hj⟩ := owner_of_mem_stretches hcs hs
  have hcount := (element_of_mem_stretches hs).2
  unfold Stretch.faces at h
  rw [howner] at h
  split at h
  · cases h
  · simp only [bind_eq_error, reduceCtorEq, Except.ok.injEq, exists_eq_left', false_or] at h
    rcases h with h | ⟨face, -, h⟩
    · have hsize := (fetch_eq_error.1 h).2
      omega
    · have hstore := Count.store_eq_error.1 (h.resolve_right fun ⟨_, _, h⟩ => pure_ne_error h)
      exact ⟨hstore.1, hstore.2.trans_le (Nat.mul_le_mul_right _ hcount)⟩

theorem globalFaces_ne_error (hcs : cs.length = zone.elements.size) {f : Fault} :
    globalFaces zone (offsets 0 cs) ≠ .error f := by
  intro h
  unfold globalFaces at h
  obtain ⟨s, hs, h⟩ := exists_mem_of_mapM_eq_error (bind_pure_eq_error.1 h)
  obtain ⟨j, howner, -⟩ := owner_of_mem_stretches hcs hs
  unfold Stretch.globalFaces at h
  rw [howner] at h
  rcases bind_eq_error.1 h with h | ⟨_, -, h⟩
  · cases h
  · split at h <;> exact absurd h pure_ne_error

/-- The faces that particles came through are elements of the zone. -/
theorem mem_of_mem_faces {index : List Nat} {out : Array Nat} (h : faces zone index = .ok out) {face : Nat}
    (hface : face ∈ out) : face ∈ zone.elements := by
  obtain ⟨xss, hxss, h⟩ := bind_eq_ok.1 h
  rw [pure_eq_ok.1 h, List.mem_toArray, List.mem_flatten] at hface
  obtain ⟨xs, hxs, hface⟩ := hface
  obtain ⟨s, -, hs⟩ := exists_of_mem_of_mapM_eq_ok hxss hxs
  unfold Stretch.faces at hs
  split at hs
  · cases hs
    cases hface
  · obtain ⟨j, -, hs⟩ := bind_eq_ok.1 hs
    obtain ⟨element, helement, hs⟩ := bind_eq_ok.1 hs
    obtain ⟨_, -, hs⟩ := bind_eq_ok.1 hs
    rw [pure_eq_ok.1 hs] at hface
    rw [List.eq_of_mem_replicate hface]
    exact Array.mem_of_getElem? (fetch_eq_ok.1 helement)

/-! ## Places -/

variable (hmesh : mesh.Regular) (hzone : zone.Within mesh)

include hmesh hzone in
/-- Where a particle begins there is a cell of the mesh. -/
theorem home_lt {i : Nat} {center : Vec3 α} {cell : Nat} (h : home zone mesh i = some (center, cell)) :
    cell < mesh.cellCount := by
  unfold home at h
  obtain ⟨element, helement, h⟩ := Option.bind_eq_some_iff.1 h
  have hwithin := hzone element (Array.mem_of_getElem? helement)
  cases hkind : zone.kind with
  | boundary =>
    rw [hkind] at h
    obtain ⟨_, -, h⟩ := Option.bind_eq_some_iff.1 h
    obtain ⟨behind, hbehind, h⟩ := Option.map_eq_some_iff.1 h
    cases h
    exact hmesh.behind _ (Array.mem_of_getElem? hbehind)
  | volume =>
    rw [hkind] at h hwithin
    obtain ⟨_, -, h⟩ := Option.map_eq_some_iff.1 h
    cases h
    exact hwithin

include hmesh hzone in
/-- On a regular mesh there is a place for the particles of each element. -/
theorem isSome_home {i : Nat} (hi : i < zone.elements.size) : (home zone mesh i).isSome := by
  have hwithin := hzone _ (Array.getElem_mem hi)
  have hfaces := hmesh.faceCenters
  have hcells := hmesh.faceCells
  have hcenters := hmesh.cellCenters
  unfold home
  rw [Array.getElem?_eq_getElem hi, Option.bind_some]
  cases hkind : zone.kind with
  | boundary =>
    rw [hkind] at hwithin
    have hlt : zone.elements[i] < mesh.faceCount := hwithin
    simp [Array.getElem?_eq_getElem (hfaces ▸ hlt), Array.getElem?_eq_getElem (hcells ▸ hlt)]
  | volume =>
    rw [hkind] at hwithin
    have hlt : zone.elements[i] < mesh.cellCount := hwithin
    simp [Array.getElem?_eq_getElem (hcenters ▸ hlt)]

omit [Scalar α] in
theorem placeAll_ne_error {rank : Nat} {ss : List Stretch} {ps : List (Particle α)} {f : Fault}
    (hhome : ∀ i < zone.elements.size, (home zone mesh i).isSome)
    (hss : ∀ s ∈ ss, ∃ i, s.owner = .ok i ∧ i < zone.elements.size) : placeAll zone mesh rank ss ps ≠ .error f := by
  induction ss generalizing ps with
  | nil => nofun
  | cons s ss ih =>
    cases ps with
    | nil => nofun
    | cons p ps =>
      intro h
      unfold placeAll at h
      rcases bind_eq_error.1 h with h | ⟨_, -, h⟩
      · obtain ⟨p', -, h⟩ := exists_mem_of_mapM_eq_error h
        obtain ⟨i, howner, hi⟩ := hss s List.mem_cons_self
        obtain ⟨⟨center, cell⟩, hcenter⟩ := Option.isSome_iff_exists.1 (hhome i hi)
        have hplaced : placeAt zone mesh rank i p' = .ok { p' with position := center, cell, rank } :=
          placeAt_eq_ok.2 ⟨center, cell, hcenter, rfl⟩
        rw [howner] at h
        cases hplaced.symm.trans h
      · exact ih (fun s' hs' => hss s' (List.mem_cons_of_mem s hs')) (bind_pure_eq_error.1 h)

omit [Scalar α] in
theorem place_ne_error {rank : Nat} {ps : Array (Particle α)} {f : Fault} (hcs : cs.length = zone.elements.size)
    (hhome : ∀ i < zone.elements.size, (home zone mesh i).isSome) :
    place zone (offsets 0 cs) mesh rank ps ≠ .error f := by
  intro h
  unfold place at h
  exact placeAll_ne_error hhome (fun s hs => owner_of_mem_stretches hcs hs) (bind_pure_eq_error.1 h)

include hmesh hzone in
/-- Every particle is placed in a cell of the mesh. -/
theorem cell_place_lt {rank : Nat} {ps placed : Array (Particle α)}
    (h : place zone (offsets 0 cs) mesh rank ps = .ok placed) (hps : ps.size = cs.sum) {p : Particle α}
    (hp : p ∈ placed) : p.cell < mesh.cellCount := by
  obtain ⟨k, hk, rfl⟩ := Array.mem_iff_getElem.1 hp
  have hsize := size_place h
  have hlaid : k < 0 + cs.sum := by omega
  obtain ⟨i, hi⟩ := exists_owns (Nat.zero_le k) hlaid
  obtain ⟨_, _, _, -, hhome, hp⟩ := getElem?_place h hps hi
  rw [Array.getElem?_eq_getElem hk, Option.some.injEq] at hp
  rw [hp]
  exact home_lt hmesh hzone hhome

/-! ## States -/

variable {γ : Type} [Generator γ] {P : Fault → Prop} {set : InjectionSet α}

include hmesh in
omit hzone in
/-- A particle gets its state where the face that it came through, if any, has a normal. -/
theorem failsIn_initializeAll {dtp : α} {faces : Option (Array Nat)} {ps : Array (Particle α)}
    (hfaces : ∀ fs, faces = some fs → ∀ face ∈ fs, face < mesh.faceCount) :
    Drawing.FailsIn P (initializeAll mesh set dtp faces ps : Drawing γ _) := by
  unfold initializeAll
  apply Drawing.failsIn_bind
  · apply Drawing.failsIn_mapM
    rintro ⟨p, k⟩ -
    apply Drawing.failsIn_bind Drawing.failsIn_uniform
    intro r
    apply Drawing.failsIn_check
    intro f h
    unfold initializeWith at h
    have h := bind_pure_eq_error.1 h
    unfold imposedVelocity at h
    split at h
    · cases h
    · rename_i face _ hface
      obtain ⟨fs, hfs, hmem⟩ := Option.bind_eq_some_iff.1 hface
      have hlt := hfaces fs hfs face (Array.mem_of_getElem? hmem)
      have hnormals := hmesh.faceNormals
      have hsize := (fetch_eq_error.1 (bind_pure_eq_error.1 h)).2
      omega
    · cases h
    · cases h
  · intro ready
    exact Drawing.failsIn_pure _

end Release

/-! ## Attributes -/

/-- The bounds on a set's diameters are not turned around. -/
def InjectionSet.Spreads (set : InjectionSet α) : Prop :=
  0 < set.diameterDeviation →
    set.diameter - Release.deviationLimit * set.diameterDeviation ≤
      set.diameter + Release.deviationLimit * set.diameterDeviation

namespace Release

variable {γ : Type} [Generator γ] {P : Fault → Prop} {set : InjectionSet α}

theorem failsIn_diameter (hset : set.Spreads) : Drawing.FailsIn P (diameter set : Drawing γ _) := by
  unfold diameter
  split
  · rename_i hspread
    apply Drawing.failsIn_bind Drawing.failsIn_normal
    intro deviate
    apply Drawing.failsIn_check
    intro f h
    unfold Scalar.clamp at h
    rw [if_pos (hset hspread)] at h
    cases h
  · exact Drawing.failsIn_pure _

omit [Generator γ] in
theorem withCoal_eq_error {x : Setting α} {p : Particle α} {f : Fault} (h : withCoal x set p = .error f) :
    f = .tooLarge := by
  unfold withCoal at h
  split at h
  · have h := bind_pure_eq_error.1 h
    unfold coalLayers at h
    exact (Count.store_eq_error.1 (bind_pure_eq_error.1 h)).1
  · cases h

/-- Attributes stop at what the fluid stops at in the cell of a particle, or for coal that takes too much room. -/
theorem failsIn_attributes {x : Setting α} {ps : Array (Particle α)} (hset : set.Spreads)
    (hfluid : ∀ p ∈ ps, ∀ f, x.fluid.velocity p.cell x.level = .error f → P f) (hcoal : P .tooLarge) :
    Drawing.FailsIn P (attributes x set ps : Drawing γ _) := by
  unfold attributes
  apply Drawing.failsIn_bind
  · apply Drawing.failsIn_mapM
    intro p hp
    apply Drawing.failsIn_bind
    · apply Drawing.failsIn_check
      intro f h
      exact hfluid p (Array.mem_toList_iff.1 hp) f h
    · intro velocity
      apply Drawing.failsIn_bind (failsIn_diameter hset)
      intro diameter
      apply Drawing.failsIn_check
      intro f h
      rw [withCoal_eq_error h]
      exact hcoal
  · intro ready
    exact Drawing.failsIn_pure _

end Release
end Inflow
