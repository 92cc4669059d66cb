import Inflow.Proofs.Release.Owners
import Inflow.Proofs.Injector.Passage
/-!
# One particle of a set

The tables of a passage have one entry for each particle, and lost particles are
dropped from all of them at once. So every particle that is kept can be followed
back, entry by entry, to the element that it was laid out on.
-/

namespace Inflow.Injector

open Apportion (offsets)

variable {α γ ω : Type}

/-! ## Tables of one size -/

theorem exists_getElem? {β : Type} {xs : Array β} {k : Nat} (h : k < xs.size) : ∃ x, xs[k]? = some x :=
  ⟨_, Array.getElem?_eq_getElem h⟩

theorem lt_size_of_getElem? {β : Type} {xs : Array β} {k : Nat} {x : β} (h : xs[k]? = some x) : k < xs.size :=
  (Array.getElem?_eq_some_iff.1 h).1

theorem getElem?_of_forall₂ {β δ : Type} {R : β → δ → Prop} {xs : Array β} {ys : Array δ}
    (h : List.Forall₂ R xs.toList ys.toList) {k : Nat} {x : β} (hx : xs[k]? = some x) : ∃ y, ys[k]? = some y ∧ R x y := by
  obtain ⟨hk, rfl⟩ := Array.getElem?_eq_some_iff.1 hx
  have hk' : k < ys.size := by rwa [← Array.length_toList, ← h.length_eq]
  exact ⟨ys[k], Array.getElem?_eq_getElem hk', h.get hk hk'⟩

theorem exists_of_mem_forall₂ {β δ : Type} {R : β → δ → Prop} {xs : List β} {ys : List δ} (h : List.Forall₂ R xs ys)
    {y : δ} (hy : y ∈ ys) : ∃ x ∈ xs, R x y := by
  obtain ⟨k, hk, rfl⟩ := List.getElem_of_mem hy
  have hk' : k < xs.length := h.length_eq ▸ hk
  exact ⟨xs[k], List.getElem_mem hk', h.get hk' hk⟩

/-! ## Up to the search -/

section Begins

variable [Scalar α] [Generator γ] {env : Surroundings α ω} {dtp : α} {q : Request α} {w : Passage α}

variable (γ) in
/-- The stages of a set up to the state of its particles: those of `Follows` before the first hook. -/
structure Passage.Begins (env : Surroundings α ω) (dtp : α) (q : Request α) (w : Passage α) : Prop where
  laid : ∃ (stream : RandomStream γ) (layout : Apportion.Layout γ),
    (Apportion.overZone q.set.count q.zone.elements (env.mesh.weights q.kind) (q.set.factors q.zone) env.seat
      stream).Can (.ok layout) ∧ w.index = layout.index
  faces : facesOf q w.index = .ok (w.faces, w.globalFaces)
  placed : Release.place q.zone w.index env.mesh env.seat.rank (Array.replicate (w.index.getLastD 0) .blank) =
    .ok w.placed
  ready : ∃ stream : RandomStream γ,
    ((Release.initializeAll env.mesh q.set dtp w.faces w.placed).run.run stream).1 = .ok w.ready

theorem Passage.Follows.begins {x : Release.Setting α} (h : w.Follows γ env x q) : w.Begins γ env x.dtp q :=
  ⟨h.laid, h.faces, h.placed, h.ready⟩

namespace Passage.Begins

/-- The particles are laid out over the elements that the rank has of the zone. -/
theorem index_eq (h : w.Begins γ env dtp q) : ∃ cs, w.index = offsets 0 cs ∧ cs.length = q.zone.elements.size := by
  obtain ⟨stream, layout, hlaid, hindex⟩ := h.laid
  rw [hindex]
  exact Apportion.index_of_overZone hlaid

theorem forall₂_ready (h : w.Begins γ env dtp q) : List.Forall₂ Release.Stays w.placed.toList w.ready.toList := by
  obtain ⟨stream, hready⟩ := h.ready
  exact Release.gives_initializeAll _ _ _ _ _ _ _ hready

theorem size_ready (h : w.Begins γ env dtp q) : w.ready.size = w.index.getLastD 0 := by
  rw [Release.size_of_stays h.forall₂_ready, Release.size_place h.placed, Array.size_replicate]

/-- Every particle is laid out on some element. -/
theorem exists_owner (h : w.Begins γ env dtp q) {k : Nat} (hk : k < w.index.getLastD 0) :
    ∃ i, Release.Owns w.index i k := by
  obtain ⟨cs, hindex, -⟩ := h.index_eq
  rw [hindex] at hk ⊢
  rw [Apportion.getLastD_offsets] at hk
  exact Release.exists_owns (Nat.zero_le k) hk

/-- A particle gets its state where it was placed: at the element that owns its position. -/
theorem exists_placed (h : w.Begins γ env dtp q) {i k : Nat} (howns : Release.Owns w.index i k) :
    ∃ placed ready, w.placed[k]? = some placed ∧
      Release.home q.zone env.mesh i = some (placed.position, placed.cell) ∧ w.ready[k]? = some ready ∧
      Release.Stays placed ready := by
  obtain ⟨cs, hindex, -⟩ := h.index_eq
  have hplace := h.placed
  rw [hindex] at hplace howns
  obtain ⟨_, _, _, -, hhome, hplaced⟩ := Release.getElem?_place hplace
    (by rw [Array.size_replicate, Apportion.getLastD_offsets, Nat.zero_add]) howns
  obtain ⟨ready, hready, hstays⟩ := getElem?_of_forall₂ h.forall₂_ready hplaced
  exact ⟨_, ready, hplaced, hhome, hready, hstays⟩

end Passage.Begins

variable (γ) in
/-- The stages of a set up to the search for moved particles. -/
structure Passage.Settles (env : Surroundings α ω) (dtp : α) (q : Request α) (w : Passage α) : Prop where
  begins : w.Begins γ env dtp q
  moved : Edited env.hooks.move { set := q.set, faces := w.faces, sublayer := env.sublayer } w.ready w.moved
  located : w.located = w.arrived env.seat.rank ∧ w.lost = [] ∨
    Relocated env (w.arrived env.seat.rank) w.located w.lost

theorem Passage.Follows.settles {x : Release.Setting α} (h : w.Follows γ env x q) : w.Settles γ env x.dtp q :=
  ⟨h.begins, h.moved, h.located⟩

namespace Passage.Settles

theorem size_moved (h : w.Settles γ env dtp q) : w.moved.size = w.index.getLastD 0 := by
  rw [h.moved.size, h.begins.size_ready]

theorem size_located (h : w.Settles γ env dtp q) : w.located.size = w.index.getLastD 0 := by
  have harrived : (w.arrived env.seat.rank).size = w.index.getLastD 0 := by
    rw [Passage.arrived, Array.size_zipWith, h.moved.size, Nat.min_self, h.begins.size_ready]
  rcases h.located with ⟨hlocated, -⟩ | hlocated
  · rw [hlocated, harrived]
  · rw [hlocated.size, harrived]

end Passage.Settles

end Begins

/-! ## Sizes -/

namespace Passage.Follows

variable [Scalar α] [Generator γ] {env : Surroundings α ω} {x : Release.Setting α} {q : Request α} {w : Passage α}

theorem forall₂_equipped (h : w.Follows γ env x q) :
    List.Forall₂ Release.Stays w.remaining.toList w.equipped.toList := by
  obtain ⟨stream, hequipped⟩ := h.equipped
  exact Release.gives_attributes _ _ _ _ _ hequipped

theorem size_equipped (h : w.Follows γ env x q) : w.equipped.size = w.origins.length := by
  rw [Release.size_of_stays h.forall₂_equipped]
  exact size_dropPositions _ _

theorem size_kept (h : w.Follows γ env x q) : (w.kept x.dtp).size = w.origins.length := by
  rw [Passage.kept, Array.size_map, Array.size_zipWith, h.modified.size, Nat.min_self, h.size_equipped]

end Passage.Follows

/-- The particles of a boundary set have tables of faces, which name for each the element that owns its position. -/
theorem facesOf_of_boundary {q : Request α} {cs : List Nat} {out : Option (Array Nat) × Option (Array Nat)}
    (hcs : cs.length = q.zone.elements.size) (hkind : q.kind = .boundary) (h : facesOf q (offsets 0 cs) = .ok out) :
    ∃ faces globalFaces, out = (some faces, some globalFaces) ∧ faces.size = cs.sum ∧ globalFaces.size = cs.sum ∧
      ∀ i k, Release.Owns (offsets 0 cs) i k → ∃ face globalFace, q.zone.elements[i]? = some face ∧
        q.zone.globalId i = some globalFace ∧ faces[k]? = some face ∧ globalFaces[k]? = some globalFace := by
  rw [facesOf, if_pos hkind] at h
  obtain ⟨faces, hf, h⟩ := bind_eq_ok.1 h
  obtain ⟨globalFaces, hg, h⟩ := bind_eq_ok.1 h
  obtain ⟨hsize, hface⟩ := Release.getElem?_faces hcs.le hf
  obtain ⟨hglobalSize, hglobalFace⟩ := Release.getElem?_globalFaces hcs.le hg
  refine ⟨faces, globalFaces, pure_eq_ok.1 h, hsize, hglobalSize, fun i k howns => ?_⟩
  obtain ⟨face, helement, hinFaces⟩ := hface i k howns
  obtain ⟨globalFace, hid, hinGlobalFaces⟩ := hglobalFace i k howns
  exact ⟨face, globalFace, helement, hid, hinFaces, hinGlobalFaces⟩

/-! ## The stages of one particle -/

/-- A particle that a set has kept, at each stage. -/
structure Life (α : Type) where
  /-- Its position among the particles laid out. -/
  origin : Nat
  /-- The place of its element in the zone. -/
  element : Nat
  placed : Particle α
  ready : Particle α
  moved : Particle α
  located : Particle α
  equipped : Particle α
  modified : Particle α

/-- The particle as it is kept. -/
def Life.last [Scalar α] (dtp : α) (l : Life α) : Particle α := Release.advance dtp (afterModify l.equipped l.modified)

/-- The kept particle at `j` has had this life. -/
structure Traces (env : Surroundings α ω) (q : Request α) (w : Passage α) (j : Nat) (l : Life α) : Prop where
  origin : w.origins[j]? = some l.origin
  owns : Release.Owns w.index l.element l.origin
  placed : w.placed[l.origin]? = some l.placed
  /-- It was placed at the element that owns its position. -/
  home : Release.home q.zone env.mesh l.element = some (l.placed.position, l.placed.cell)
  ready : w.ready[l.origin]? = some l.ready
  stays : Release.Stays l.placed l.ready
  moved : w.moved[l.origin]? = some l.moved
  located : w.located[l.origin]? = some l.located
  equipped : w.equipped[j]? = some l.equipped
  remains : Release.Stays l.located l.equipped
  modified : w.modified[j]? = some l.modified

theorem Passage.getElem?_remaining {w : Passage α} {j k : Nat} {p : Particle α} (horigin : w.origins[j]? = some k)
    (hp : w.located[k]? = some p) : w.remaining[j]? = some p := by
  rw [Passage.remaining, getElem?_dropPositions]
  change (w.origins[j]?).bind _ = _
  rw [horigin, Option.bind_some, hp]

/-- Every particle that is kept has a life. -/
theorem Passage.Follows.exists_life [Scalar α] [Generator γ] {env : Surroundings α ω} {x : Release.Setting α}
    {q : Request α} {w : Passage α} (h : w.Follows γ env x q) {j : Nat} {p : Particle α}
    (hp : (w.kept x.dtp)[j]? = some p) : ∃ l : Life α, Traces env q w j l ∧ p = l.last x.dtp := by
  have hj : j < w.origins.length := by
    rw [← h.size_kept]
    exact lt_size_of_getElem? hp
  have hlaid : w.origins[j] < w.located.size := (mem_staying.1 (List.getElem_mem hj)).1
  have horigin : w.origins[j]? = some w.origins[j] := List.getElem?_eq_getElem hj
  generalize w.origins[j] = k at hlaid horigin
  rw [h.settles.size_located] at hlaid
  obtain ⟨i, hi⟩ := h.begins.exists_owner hlaid
  -- Before the search a particle stands at `k`, and after it at `j`.
  obtain ⟨placed, ready, hplaced, hhome, hready, hstays⟩ := h.begins.exists_placed hi
  obtain ⟨moved, hmoved⟩ := exists_getElem? (h.settles.size_moved ▸ hlaid)
  obtain ⟨located, hlocated⟩ := exists_getElem? (h.settles.size_located ▸ hlaid)
  obtain ⟨equipped, hequipped, hremains⟩ :=
    getElem?_of_forall₂ h.forall₂_equipped (Passage.getElem?_remaining horigin hlocated)
  have hlasting : j < w.modified.size := by rwa [h.modified.size, h.size_equipped]
  obtain ⟨modified, hmodified⟩ := exists_getElem? hlasting
  refine ⟨⟨k, i, placed, ready, moved, located, equipped, modified⟩,
    ⟨horigin, hi, hplaced, hhome, hready, hstays, hmoved, hlocated, hequipped, hremains, hmodified⟩, ?_⟩
  rw [Passage.kept, Array.getElem?_map, Array.getElem?_zipWith, hequipped, hmodified] at hp
  exact (Option.some.inj hp).symm

end Inflow.Injector
