import Inflow.Proofs.Apportion.Histogram
import Inflow.Proofs.Release.Ranges
import Inflow.Proofs.Scalar.Rational
import Inflow.Random.ChaCha
/-!
# One layout, read three times

A layout says how many particles each element of a zone gets, as many as draws
selected it. Placing particles, reading off the faces they came through and reading
off the numbers of those faces each expand the layout for themselves; particle for
particle all three come to the same element.
-/

namespace Inflow

open Apportion (offsets overElements IsHistogram)

variable {α γ : Type} [Scalar α]

namespace Release

variable {zone : Zone} {mesh : Mesh α} {rank : Nat} {index : List Nat} {ps : Array (Particle α)}

/-- Fresh particles are placed, and their faces and the numbers of those are read
off, one for each; and particle `k` belongs throughout to the one element `i` with
`index[i] ≤ k < index[i + 1]`. -/
structure Expanded (zone : Zone) (mesh : Mesh α) (rank : Nat) (index : List Nat) (ps placed : Array (Particle α))
    (faces globalFaces : Array Nat) : Prop where
  size_placed : placed.size = ps.size
  size_faces : faces.size = ps.size
  size_globalFaces : globalFaces.size = ps.size
  owner : ∀ k < ps.size, ∃! i, Owns index i k
  /-- A particle begins at the home of its element, and is as before in all else. -/
  placed : ∀ i k, Owns index i k → ∃ p center cell, ps[k]? = some p ∧ home zone mesh i = some (center, cell) ∧
    placed[k]? = some { p with position := center, cell, rank }
  face : ∀ i k, Owns index i k → ∃ face, zone.elements[i]? = some face ∧ faces[k]? = some face
  globalFace : ∀ i k, Owns index i k → ∃ face, zone.globalId i = some face ∧ globalFaces[k]? = some face

theorem exists_expanded {cs : List Nat} (hcs : cs.length = zone.elements.size)
    (hhome : ∀ i < zone.elements.size, (home zone mesh i).isSome)
    (hps : ps.size = cs.sum) (hstore : ps.size * Population.recordBytes ≤ Count.byteLimit) :
    ∃ placed fs gs, place zone (offsets 0 cs) mesh rank ps = .ok placed ∧ faces zone (offsets 0 cs) = .ok fs ∧
      globalFaces zone (offsets 0 cs) = .ok gs ∧ Expanded zone mesh rank (offsets 0 cs) ps placed fs gs := by
  obtain ⟨placed, hplaced⟩ : ∃ placed, place zone (offsets 0 cs) mesh rank ps = .ok placed :=
    exists_eq_ok fun _ => place_ne_error hcs hhome
  obtain ⟨fs, hfs⟩ : ∃ fs, faces zone (offsets 0 cs) = .ok fs := by
    refine exists_eq_ok fun f hf => ?_
    -- The number of a face takes less room than a particle.
    have hlarge := (faces_eq_error hcs hf).2
    rw [Population.recordBytes] at hstore
    rw [faceBytes] at hlarge
    omega
  obtain ⟨gs, hgs⟩ : ∃ gs, globalFaces zone (offsets 0 cs) = .ok gs :=
    exists_eq_ok fun _ => globalFaces_ne_error hcs
  obtain ⟨hsize, hface⟩ := getElem?_faces hcs.le hfs
  obtain ⟨hsizeGlobal, hglobal⟩ := getElem?_globalFaces hcs.le hgs
  refine ⟨placed, fs, gs, hplaced, hfs, hgs, size_place hplaced, hsize.trans hps.symm, hsizeGlobal.trans hps.symm,
    fun k hk => ?_, fun i k howns => getElem?_place hplaced hps howns, hface, hglobal⟩
  have hlaid : k < 0 + cs.sum := by omega
  obtain ⟨i, hi⟩ := exists_owns (Nat.zero_le k) hlaid
  exact ⟨i, hi, fun j hj => hj.unique hi⟩

end Release

variable [OrderedScalar α] [Generator γ]

namespace Apportion

theorem placeable_of_built {c : Cumulative α} (hc : c.Built) (n : Nat) :
    (placeable n c).1 = if 0 < c.entries.size ∧ 0 < c.total then n else 0 := by
  obtain ⟨ws, rfl⟩ := hc.exists_ofWeights
  by_cases hpos : 0 < (Cumulative.ofWeights ws).total
  · rw [placeable_ofWeights n hpos, if_pos ⟨Cumulative.entries_pos hpos, hpos⟩]
  · rw [placeable_of_not_pos n hpos, if_neg fun h => hpos h.2]

end Apportion

namespace Release

/-- Particles are laid out as the draws select elements, none without some weight,
and they are placed at, and come through, the elements that they are laid out for. -/
theorem laid_out_as_drawn {c : Cumulative α} (hc : c.Built) (n : Nat) (s : RandomStream γ) :
    IsHistogram c s (if 0 < c.entries.size ∧ 0 < c.total then n else 0) (overElements n c s) ∧
    ∀ (zone : Zone) (mesh : Mesh α) (rank : Nat) (ps : Array (Particle α)), zone.elements.size = c.entries.size →
      (∀ i < zone.elements.size, (home zone mesh i).isSome) →
      ps.size = (if 0 < c.entries.size ∧ 0 < c.total then n else 0) →
      ps.size * Population.recordBytes ≤ Count.byteLimit →
      ∃ placed fs gs, place zone (overElements n c s).index mesh rank ps = .ok placed ∧
        faces zone (overElements n c s).index = .ok fs ∧ globalFaces zone (overElements n c s).index = .ok gs ∧
        Expanded zone mesh rank (overElements n c s).index ps placed fs gs := by
  rw [← Apportion.placeable_of_built hc]
  refine ⟨Apportion.isHistogram_overElements n c s, fun zone mesh rank ps hzone hhome hps hstore => ?_⟩
  obtain ⟨cs, hindex, hcs⟩ := Apportion.index_overElements n c s
  have hplaced := Apportion.placed_overElements n c s
  rw [Apportion.Layout.placed, hindex, Apportion.getLastD_offsets, Nat.zero_add] at hplaced
  rw [hindex]
  exact exists_expanded (hcs.trans hzone.symm) hhome (hps.trans hplaced.symm) hstore

/-- Weights of five elements, of which only the second and the fourth are not zero. -/
def scattered : Cumulative ℚ := .ofWeights [0, 3, 0, 2, 0]

/-- Five faces in front of two cells, in the order of their zone; only two of them are numbered over all ranks. -/
def shutter : Zone :=
  { id := 0, name := "shutter", kind := .boundary, elements := #[4, 3, 2, 1, 0], globalIds := some #[40, 30] }

def shutterMesh : Mesh ℚ where
  cellCenters := #[.onAxis .x 1, .onAxis .x 2]
  cellVolumes := #[1, 1]
  faceCenters := (Array.range 5).map fun i : Nat => .onAxis .y i
  faceNormals := Array.replicate 5 (.onAxis .x (-1))
  faceSurfaces := #[0, 2, 0, 3, 0]
  faceCells := #[1, 1, 0, 0, 0]
  box := none

theorem built_scattered : scattered.Built := .direct (show Cumulative.build #[0, 3, 0, 2, 0] none = _ from rfl)

/-- Of five particles three come through the second face of the zone, and two through the fourth. -/
theorem laid_out_as_drawn_scattered :
    let l := overElements 5 scattered (.ofSeed 1)
    l.index = [0, 0, 3, 3, 5, 5] ∧ l.stream.draws = 5 ∧ ∃ placed fs gs,
      place shutter l.index shutterMesh 6 (Array.replicate 5 .blank) = .ok placed ∧ faces shutter l.index = .ok fs ∧
      globalFaces shutter l.index = .ok gs ∧ placed.size = 5 ∧
      placed[4]? = some { (Particle.blank : Particle ℚ) with position := .onAxis .y 1, cell := 1, rank := 6 } ∧
      fs[4]? = some 1 ∧ gs[2]? = some 30 ∧ gs[4]? = some 1 := by
  intro l
  have hindex : l.index = [0, 0, 3, 3, 5, 5] := by decide +kernel
  have hm : (if 0 < scattered.entries.size ∧ 0 < scattered.total then 5 else 0) = 5 := by decide +kernel
  obtain ⟨hhistogram, hexpanded⟩ := laid_out_as_drawn built_scattered 5 (RandomStream.ofSeed 1)
  rw [hm] at hhistogram hexpanded
  obtain ⟨placed, fs, gs, hplaced, hfs, hgs, h⟩ := hexpanded shutter shutterMesh 6 (Array.replicate 5 .blank)
    (by decide +kernel) (by decide +kernel) (Array.size_replicate) (by decide)
  have howns (i k a b : Nat) (ha : l.index[i]? = some a) (hb : l.index[i + 1]? = some b) (hk : a ≤ k ∧ k < b) :
    Owns l.index i k := ⟨a, b, ha, hb, hk⟩
  have hfourth : Owns l.index 3 4 := howns 3 4 3 5 (by rw [hindex]; rfl) (by rw [hindex]; rfl) (by decide)
  have hsecond : Owns l.index 1 2 := howns 1 2 0 3 (by rw [hindex]; rfl) (by rw [hindex]; rfl) (by decide)
  refine ⟨hindex, hhistogram.draws, placed, fs, gs, hplaced, hfs, hgs, h.size_placed, ?_, ?_, ?_, ?_⟩
  · obtain ⟨p, center, cell, hp, hhome, hat⟩ := h.placed 3 4 hfourth
    have hbegins : home shutter shutterMesh 3 = some (.onAxis .y 1, 1) := by decide +kernel
    cases hp
    cases hbegins.symm.trans hhome
    exact hat
  · obtain ⟨face, hface, hat⟩ := h.face 3 4 hfourth
    cases hface
    exact hat
  · obtain ⟨face, hface, hat⟩ := h.globalFace 1 2 hsecond
    cases hface
    exact hat
  · obtain ⟨face, hface, hat⟩ := h.globalFace 3 4 hfourth
    cases hface
    exact hat

end Release
end Inflow
