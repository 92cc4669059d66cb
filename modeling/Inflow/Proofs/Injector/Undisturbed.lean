import Mathlib
import Inflow.Proofs.Injector.HostCells
import Inflow.Proofs.Sampling.Proportional
/-!
# Particles that the search leaves alone

Fresh particles begin at centres of cells or faces, in the cell that such a point is
found in when coordinates are read as exact. So where moved particles are looked up,
all others are looked up with them, and are found where they are.
-/

namespace Inflow

open Step

/-! ## Centres are found in their cells -/

namespace Mesh

variable {α : Type} [FlooredScalar α] {b : Box α} {m : Mesh α}

theorem locate_cellCenter (h : b.Layered) (hb : b.Extended) (hm : ofBox b = .ok m) {c : Nat} {center : Vec3 α}
    (hc : m.cellCenters[c]? = some center) : m.locate center = some c := by
  obtain ⟨-, -, -, -, rfl⟩ := ofBox_eq_ok.1 hm
  simp only [tables, b.cellCenterList_eq, List.getElem?_toArray, List.getElem?_map, Option.map_eq_some_iff] at hc
  obtain ⟨c, hrange, rfl⟩ := hc
  obtain ⟨hlt, rfl⟩ := List.getElem?_eq_some_iff.1 hrange
  rw [List.length_range] at hlt
  rw [List.getElem_range]
  exact Box.locate_cellCenter h hb hlt

theorem locate_faceCenter (h : b.Layered) (hb : b.Extended) (hm : ofBox b = .ok m) {g cell : Nat} {center : Vec3 α}
    (hcenter : m.faceCenters[g]? = some center) (hcell : m.faceCells[g]? = some cell) : m.locate center = some cell := by
  obtain ⟨-, -, -, -, rfl⟩ := ofBox_eq_ok.1 hm
  have hg : g < b.faces := (sized_tables b).faceCells ▸ (Array.getElem?_eq_some_iff.1 hcell).1
  obtain ⟨s, k, hk, rfl⟩ := b.exists_side hg
  obtain ⟨hcenter', -, hcell'⟩ := getElem?_tables hk
  obtain rfl := Option.some.inj (hcenter'.symm.trans hcenter)
  obtain rfl := Option.some.inj (hcell'.symm.trans hcell)
  obtain ⟨hcolumn, hrow⟩ := Box.lt_of_lt_sideSize hk
  exact Box.locate_faceCenter h hb hcolumn hrow

/-- Where the particles of an element begin, they are found. -/
theorem locate_of_home (h : b.Layered) (hb : b.Extended) (hm : ofBox b = .ok m) {zone : Zone} {i cell : Nat}
    {point : Vec3 α} (hhome : Release.home zone m i = some (point, cell)) : m.locate point = some cell := by
  obtain ⟨element, helement, hhome⟩ := Option.bind_eq_some_iff.1 hhome
  cases hkind : zone.kind with
  | boundary =>
    simp only [hkind, Option.bind_eq_some_iff, Option.map_eq_some_iff, Prod.mk.injEq] at hhome
    obtain ⟨_, hcenter, _, hcell, rfl, rfl⟩ := hhome
    exact locate_faceCenter h hb hm hcenter hcell
  | volume =>
    simp only [hkind, Option.map_eq_some_iff, Prod.mk.injEq] at hhome
    obtain ⟨_, hcenter, rfl, rfl⟩ := hhome
    exact locate_cellCenter h hb hm hcenter

end Mesh

namespace Injector

variable {α γ ω : Type}

/-! ## The search -/

section Search

variable [Scalar α] {env : Surroundings α ω}

/-- A particle that is in the cell of its position is not lost in a search, and stays as it is. -/
theorem unchanged_of_relocated (htracker : GoesByPosition env) {ps located : Array (Particle α)} {lost : List Nat}
    (h : Relocated env ps located lost) {k : Nat} {p : Particle α} (hp : ps[k]? = some p)
    (hlocated : env.mesh.locate p.position = some p.cell) : located[k]? = some p ∧ k ∉ lost := by
  obtain ⟨rfl, rfl⟩ := relocated_byPosition htracker h
  constructor
  · have hhost : env.mesh.host p = p := by rw [Mesh.host, hlocated]
    rw [Mesh.relocate, Vector.toArray_map, Array.getElem?_map]
    change Option.map env.mesh.host ps[k]? = some p
    rw [hp, Option.map_some, hhost]
  · intro hk
    obtain ⟨p', hp', hnone⟩ :=
      (mem_positions (fun p : Particle α => (env.mesh.locate p.position).isNone) ps.toList k).1 hk
    rw [Array.getElem?_toList, hp, Option.some.injEq] at hp'
    rw [← hp', hlocated] at hnone
    cases hnone

variable [Generator γ] {dtp : α} {q : Request α} {w : Passage α}

/-- A set that has got past the search has come along a passage as far as to there. -/
theorem exists_settles {r r' : Run α γ ω} {out : Nat × Nat × Option (Array Nat) × Option (Array Nat)}
    (h : (settleSet env dtp q).Yields r out r') :
    ∃ w : Passage α, w.Settles γ env dtp q ∧ gainedSince r r' = w.remaining.toList := by
  simp only [settleSet, yields_bind, yields_check, yields_pure] at h
  obtain ⟨opened, _, hopen, faces, _, ⟨hfaces, rfl⟩, _, s, hrelease, left, _, hrelocate, -, rfl⟩ := h
  obtain ⟨hstart, w, hbegins, hmoved, hgrew⟩ := exists_arrived hopen hfaces hrelease
  rw [hstart] at hrelocate
  obtain ⟨located, lost, hlocated, -, hleft⟩ := grew_relocateFresh hgrew hrelocate
  exact ⟨{ w with located, lost }, ⟨⟨hbegins.laid, hbegins.faces, hbegins.placed, hbegins.ready⟩, hmoved, hlocated⟩,
    hleft.gainedSince_eq⟩

/-- What the search does to a particle that is in the cell of its position. -/
theorem Passage.Settles.exists_remaining (h : w.Settles γ env dtp q) (htracker : GoesByPosition env) {k : Nat}
    {p : Particle α} (hp : (w.arrived env.seat.rank)[k]? = some p)
    (hlocated : env.mesh.locate p.position = some p.cell) :
    ∃ j : Nat, w.origins[j]? = some k ∧ w.remaining[j]? = some p := by
  have hstays : w.located[k]? = some p ∧ k ∉ w.lost := by
    rcases h.located with ⟨hsame, hnone⟩ | hlooked
    · rw [hsame, hnone]
      exact ⟨hp, List.not_mem_nil⟩
    · exact unchanged_of_relocated htracker hlooked hp hlocated
  obtain ⟨j, hj⟩ := List.mem_iff_getElem?.1 (mem_staying.2 ⟨lt_size_of_getElem? hstays.1, hstays.2⟩)
  exact ⟨j, hj, Passage.getElem?_remaining hj hstays.1⟩

/-- A particle that is where it was placed after the first hook is in the cell in which it was placed. -/
theorem Passage.Settles.arrived_of_undisturbed (h : w.Settles γ env dtp q) {k : Nat} {placed moved : Particle α}
    (hplaced : w.placed[k]? = some placed) (hmoved : w.moved[k]? = some moved)
    (hsame : moved.position = placed.position) :
    ∃ (p : Particle α) (i : Nat), (w.arrived env.seat.rank)[k]? = some p ∧ p.position = placed.position ∧
      p.cell = placed.cell ∧ Release.home q.zone env.mesh i = some (p.position, p.cell) := by
  have hk : k < w.index.getLastD 0 := by
    rw [← h.begins.size_ready, ← h.moved.size]
    exact lt_size_of_getElem? hmoved
  obtain ⟨i, howns⟩ := h.begins.exists_owner hk
  obtain ⟨_, ready, hplaced', hhome, hready, hstays⟩ := h.begins.exists_placed howns
  obtain rfl := Option.some.inj (hplaced'.symm.trans hplaced)
  refine ⟨afterMove env.seat.rank ready moved, i, ?_, hsame, hstays.cell, ?_⟩
  · rw [Passage.arrived, Array.getElem?_zipWith, hready, hmoved]
  · rw [hhome]
    exact congrArg some (Prod.ext hsame.symm hstays.cell.symm)

end Search

end Injector

namespace Mesh

open Injector

variable {α : Type} [FlooredScalar α]

/-- Read as exact, finding the cell of a point inverts the geometry of a box: centres of cells
are found in their cells, and those of faces in the cells behind them; a point is
found nowhere exactly if it is outside the closed box, and otherwise in a closed cell that it
is in. So a fresh particle that the first hook leaves in its place is among those that are
left of its set, with the record that it had, whether moved particles were looked up or not. -/
theorem locate_inverts (b : Box α) (h : b.Layered) (hb : b.Extended) {m : Mesh α} (hm : ofBox b = .ok m) :
    (∀ c < m.cellCount, ∃ center, m.cellCenters[c]? = some center ∧ m.locate center = some c) ∧
    (∀ g < m.faceCount, ∃ center cell, m.faceCenters[g]? = some center ∧ m.faceCells[g]? = some cell ∧
      m.locate center = some cell) ∧
    (∀ point, m.locate point = none ↔ ∃ axis, point.along axis < 0 ∨ b.lengths.along axis < point.along axis) ∧
    (∀ point c, m.locate point = some c → c < m.cellCount ∧ ∀ axis,
      b.cellLayer c axis * b.spacing axis ≤ point.along axis ∧
        point.along axis ≤ (b.cellLayer c axis + 1) * b.spacing axis) ∧
    ∀ {γ ω : Type} [Generator γ] (env : Surroundings α ω) (q : Request α) (dtp : α) (r r' : Run α γ ω)
      (out : Nat × Nat × Option (Array Nat) × Option (Array Nat)), env.mesh = m → GoesByPosition env →
      (settleSet env dtp q).Yields r out r' →
      ∃ w : Passage α, w.Settles γ env dtp q ∧ gainedSince r r' = w.remaining.toList ∧
        ∀ (k : Nat) (placed moved : Particle α), w.placed[k]? = some placed → w.moved[k]? = some moved →
          moved.position = placed.position → ∃ (j : Nat) (p : Particle α), w.origins[j]? = some k ∧
            w.remaining[j]? = some p ∧ (w.arrived env.seat.rank)[k]? = some p ∧
            p.position = placed.position ∧ p.cell = placed.cell := by
  have hsized := sized_of_ofBox hm
  refine ⟨fun c hc => ?_, fun g hg => ?_, fun point => ?_, fun point c hc => ⟨?_, ?_⟩, ?_⟩
  · obtain ⟨center, hcenter⟩ := exists_getElem? (hsized.cellCenters ▸ hc)
    exact ⟨center, hcenter, locate_cellCenter h hb hm hcenter⟩
  · obtain ⟨center, hcenter⟩ := exists_getElem? (hsized.faceCenters ▸ hg)
    obtain ⟨cell, hcell⟩ := exists_getElem? (hsized.faceCells ▸ hg)
    exact ⟨center, cell, hcenter, hcell, locate_faceCenter h hb hm hcenter hcell⟩
  · rw [locate_of_ofBox hm]
    exact Box.locate_eq_none_iff
  · exact (regular_ofBox h hm).located hc
  · exact Box.bounds_of_locate h hb (locate_of_ofBox hm point ▸ hc)
  · rintro γ ω _ env q dtp r r' out rfl htracker hsettled
    obtain ⟨w, hw, hgained⟩ := exists_settles hsettled
    refine ⟨w, hw, hgained, fun k placed moved hplaced hmoved hsame => ?_⟩
    obtain ⟨p, i, harrived, hposition, hcell, hhome⟩ := hw.arrived_of_undisturbed hplaced hmoved hsame
    obtain ⟨j, horigin, hremains⟩ := hw.exists_remaining htracker harrived (locate_of_home h hb hm hhome)
    exact ⟨j, p, horigin, hremains, harrived, hposition, hcell⟩

/-! ## Six particles on a brick -/

local instance : FlooredScalar ℚ where
  __ := Cumulative.instExactScalarRat
  toIndex_le := Nat.floor_le
  lt_toIndex_add_one _ := Nat.lt_floor_add_one _

/-- All but the first of the particles that arrive at a search have been left in their places. -/
theorem moved_of_throwFirst {q : Request ℚ} {dtp : ℚ} {w : Passage ℚ} (hw : w.Settles ChaCha.State brickEnv dtp q)
    {k : Nat} (hk : 0 < k) : w.moved[k]? = w.ready[k]? := by
  obtain ⟨outside, v, hv, hmoved⟩ := hw.moved
  obtain rfl := Except.ok.inj hv
  rw [hmoved, Vector.toArray_mapIdx, Array.getElem?_mapIdx]
  simp [Nat.ne_of_gt hk]

/-- The particle that is thrown out of the brick is lost, and the one behind it stays where it was placed. -/
theorem locate_inverts_brick : (∃ center cell, brickMesh.faceCenters[19]? = some center ∧
      brickMesh.faceCells[19]? = some cell ∧ brickMesh.locate center = some cell) ∧
    ∃ out r, (settleSet brickEnv 1 brickRequest).Yields brickRun out r ∧ out.2.1 = 1 ∧
      ∃ w : Passage ℚ, w.Settles ChaCha.State brickEnv 1 brickRequest ∧ gainedSince brickRun r = w.remaining.toList ∧
        ∃ placed moved : Particle ℚ, w.placed[1]? = some placed ∧ w.moved[1]? = some moved ∧
          moved.position = placed.position ∧ ∃ (j : Nat) (p : Particle ℚ), w.origins[j]? = some 1 ∧
            w.remaining[j]? = some p ∧ (w.arrived 0)[1]? = some p ∧
            p.position = placed.position ∧ p.cell = placed.cell := by
  have hlayered : brick.Layered := fun axis => by cases axis <;> decide
  have hextended : brick.Extended := fun axis => by cases axis <;> decide +kernel
  obtain ⟨-, hfaces, -, -, hsets⟩ := locate_inverts brick hlayered hextended (m := brickMesh) rfl
  obtain ⟨out, r, hsettled, hlost, hcells⟩ := exists_brick_settled
  obtain ⟨w, hw, hgained, hundisturbed⟩ :=
    hsets brickEnv brickRequest 1 brickRun r out rfl (fun _ _ => rfl) hsettled
  -- Five particles are left, so there is one behind the first.
  have hleft : w.remaining.size = 5 := by
    have hlength := congrArg List.length hcells
    have htail : gainedSince brickRun r = r.injector.population.particles.toList := by
      simp [gainedSince, Population.tail, brickRun, Population.empty, Population.size]
    rwa [List.length_map, ← htail, hgained, Array.length_toList] at hlength
  have hone : 1 < w.index.getLastD 0 := by
    have hle := size_dropPositions_le w.located w.lost
    rw [hw.size_located] at hle
    change w.remaining.size ≤ _ at hle
    omega
  obtain ⟨i, howns⟩ := hw.begins.exists_owner hone
  obtain ⟨placed, ready, hplaced, -, hready, hstays⟩ := hw.begins.exists_placed howns
  have hmoved : w.moved[1]? = some ready := (moved_of_throwFirst hw Nat.one_pos).trans hready
  exact ⟨hfaces 19 (by decide +kernel), out, r, hsettled, hlost, w, hw, hgained, placed, ready, hplaced, hmoved,
    hstays.position, hundisturbed 1 placed ready hplaced hmoved hstays.position⟩

end Mesh
end Inflow
