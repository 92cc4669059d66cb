import Mathlib
import Inflow.Proofs.Box.Location
import Inflow.Proofs.Injector.Relocation
/-!
# Cells that there are

The mesh of a box that has cells names no others: neither behind its faces nor where a
point is found. So every fresh particle of a step has a cell with a volume. A box that
has no layers along some axis has no cells, but it can still have faces and
find points; then all the cells that it names are missing.
-/

namespace Inflow

open Step

variable {α : Type} [Scalar α]

namespace Mesh

variable {b : Box α} {m : Mesh α}

theorem cellCount_of_ofBox (h : ofBox b = .ok m) : m.cellCount = b.cells := by
  obtain ⟨-, -, -, -, rfl⟩ := ofBox_eq_ok.1 h
  exact Array.size_replicate

omit [Scalar α] in
/-- A mesh without cells has no volume for any. -/
theorem fetch_volume_of_no_cells (h : m.cellCount = 0) (c : Nat) :
    fetch m.cellVolumes c = .error .outOfRange :=
  fetch_eq_error.2 ⟨rfl, by unfold cellCount at h; omega⟩

theorem locate_of_ofBox (h : ofBox b = .ok m) (point : Vec3 α) : m.locate point = b.locate point := by
  obtain ⟨-, -, -, -, rfl⟩ := ofBox_eq_ok.1 h
  rfl

end Mesh

namespace Injector

variable {γ ω : Type} {env : Surroundings α ω} {q : Request α} {dtp : α} {start : Nat} {index : List Nat}
  {faces : Option (Array Nat)} {r r' r'' : Run α γ ω} {u : Unit}

/-- On a regular mesh the volumes of the cells of all fresh particles are there when they are looked at. -/
theorem exists_anyDisplaced [Generator γ] (hmesh : env.mesh.Regular) (hkind : q.zone.kind = q.kind)
    (hopen : (openSet env q).Yields r (index, start) r')
    (hrelease : (releaseFresh env q dtp index start faces).Yields r' u r'') :
    ∃ displaced, anyDisplaced env.mesh (r''.injector.population.tail start) = .ok displaced := by
  obtain ⟨cs, rfl, hopened⟩ := opened_of_yields hkind hopen
  obtain ⟨hhoused, -⟩ := housed_releaseFresh hmesh hopened.within hopened.size hrelease
  exact exists_eq_ok fun f => anyDisplaced_ne_error hhoused

/-- Without cells the first fresh particle is one too many. -/
theorem anyDisplaced_of_no_cells {m : Mesh α} (h : m.cellCount = 0) {ps : Array (Particle α)} (hps : ps ≠ #[]) :
    anyDisplaced m ps = .error .outOfRange := by
  unfold anyDisplaced
  obtain ⟨p, rest, hlist⟩ : ∃ p rest, ps.toList = p :: rest :=
    List.exists_cons_of_ne_nil fun hnil => hps (Array.toList_eq_nil_iff.1 hnil)
  rw [hlist, List.mapM_cons, Mesh.fetch_volume_of_no_cells h]
  rfl

end Injector

namespace Mesh

open Injector

/-- The mesh of a box that has cells names no others, for any face and any point, and a step over it
finds a volume for the cell of each fresh particle, whatever the hook does. In the mesh of a
box without cells each face has a cell behind it, and each point between the ends of the box is
found in one, but none of these cells has a volume, so the look-up for any fresh particles is a
fault. -/
theorem cells_named (b : Box α) {m : Mesh α} (hm : ofBox b = .ok m) :
    (0 < m.cellCount →
      (∀ g < m.faceCount, ∃ c < m.cellCount, m.faceCells[g]? = some c) ∧
      (∀ point c, m.locate point = some c → c < m.cellCount) ∧
      ∀ {γ ω : Type} [Generator γ] (env : Surroundings α ω) (q : Request α) (dtp : α) (index : List Nat) (start : Nat)
        (faces : Option (Array Nat)) (r r' r'' : Run α γ ω), env.mesh = m → q.zone.kind = q.kind →
        (openSet env q).Yields r (index, start) r' → (releaseFresh env q dtp index start faces).Yields r' () r'' →
        ∃ displaced, anyDisplaced m (r''.injector.population.tail start) = .ok displaced) ∧
    (m.cellCount = 0 →
      (∀ g < m.faceCount, ∃ c, m.faceCells[g]? = some c ∧ fetch m.cellVolumes c = .error .outOfRange) ∧
      (∀ point, (∀ axis, b.Spans axis (point.along axis)) →
        ∃ c, m.locate point = some c ∧ fetch m.cellVolumes c = .error .outOfRange) ∧
      ∀ ps, ps ≠ #[] → anyDisplaced m ps = .error .outOfRange) := by
  constructor
  · intro hcells
    have hregular := regular_ofBox (b.layered_iff.2 (cellCount_of_ofBox hm ▸ hcells)) hm
    refine ⟨fun g hg => ?_, fun _ _ => hregular.located, ?_⟩
    · obtain ⟨c, hc⟩ := exists_getElem? ((sized_of_ofBox hm).faceCells ▸ hg)
      exact ⟨c, hregular.behind c (Array.mem_of_getElem? hc), hc⟩
    · rintro γ ω _ env q dtp index start faces r r' r'' rfl hkind hopen hrelease
      exact exists_anyDisplaced hregular hkind hopen hrelease
  · intro hnone
    refine ⟨fun g hg => ?_, fun point hpoint => ?_, fun ps hps => anyDisplaced_of_no_cells hnone hps⟩
    · obtain ⟨c, hc⟩ := exists_getElem? ((sized_of_ofBox hm).faceCells ▸ hg)
      exact ⟨c, hc, fetch_volume_of_no_cells hnone c⟩
    · obtain ⟨c, hc⟩ := b.exists_locate_iff.2 hpoint
      rw [← locate_of_ofBox hm] at hc
      exact ⟨c, hc, fetch_volume_of_no_cells hnone c⟩

/-! ## A box with cells, and one without -/

def brickMesh : Mesh ℚ := (ofBox brick).toOption.get (by decide +kernel)

/-- A hook that moves the first particle by twice the length of the brick. -/
def throwFirst : Hook ℚ Unit := fun _ ps w =>
  (.ok (ps.mapIdx fun k p =>
    if k = 0 then { p with position := p.position.zipWith (· + ·) (Vec3.onAxis .x 2) } else p), w)

def brickEnv : Surroundings ℚ Unit where
  seat := .alone
  mesh := brickMesh
  fluid := .uniform (.onAxis .x 1) 300
  hooks := { Hooks.none with move := throwFirst }
  tracker := { relocate := fun mesh ps _ w => (mesh.relocate ps, w) }

/-- A set of six particles in a zone of faces on three sides of the brick. -/
def brickRequest : Request ℚ where
  kind := .boundary
  zoneIndex := 0
  entry := {
    zone := { id := 0, name := "faces", kind := .boundary, elements := #[0, 19, 51] }
    nature := .inlet }
  set := { InjectionSet.standard with count := 6 }

def brickRun : Run ℚ ChaCha.State Unit where
  injector := {
    settings := { ceiling := 10 }
    stream := .ofSeed 0
    population := .empty
    events := {}
    flow := .unset }
  census := .zero
  sink := .recording
  outside := ()

/-- One of the six particles is lost, and five stay at the faces that they came through. -/
theorem exists_brick_settled : ∃ out r, (settleSet brickEnv 1 brickRequest).Yields brickRun out r ∧
    out.2.1 = 1 ∧ r.injector.population.particles.toList.map (·.cell) = [15, 23, 23, 23, 23] := by
  have hall : (Group.run (List.ofFn fun _ : Fin 1 => (settleSet brickEnv 1 brickRequest).on brickRun)).map
      (·.all fun out => out.1.toBool &&
        decide (cellsAndLost out = ([15, 23, 23, 23, 23], some 1))) = some true := by decide +kernel
  obtain ⟨outs, ts, hresults, htest⟩ :=
    exists_results_of_all (fun out => decide (cellsAndLost out = ([15, 23, 23, 23, 23], some 1))) hall
  obtain ⟨hcells, hlost⟩ := Prod.mk.inj (of_decide_eq_true (htest 0))
  exact ⟨outs 0, ts 0, hresults.yields 0, Option.some.inj hlost, hcells⟩

/-- A box of one column without layers. -/
def sheet : Box Float where
  layers := .ofAxes fun axis => if axis = .z then 0 else 1
  lengths := .ofAxes fun _ => 1

/-- In the brick there are volumes for the cells behind its faces and of all particles of a
set; in the sheet there is none for the cell behind its lower face. -/
theorem cells_named_brick_sheet :
    (ofBox brick = .ok brickMesh ∧ (∃ c < 24, brickMesh.faceCells[19]? = some c) ∧
      ∃ opened r faces r' displaced, (openSet brickEnv brickRequest).Yields brickRun opened r ∧
        (releaseFresh brickEnv brickRequest 1 opened.1 opened.2 faces).Yields r () r' ∧
        anyDisplaced brickMesh (r'.injector.population.tail opened.2) = .ok displaced) ∧
    ∃ m, ofBox sheet = .ok m ∧ ∃ c, m.faceCells[0]? = some c ∧ fetch m.cellVolumes c = .error .outOfRange := by
  refine ⟨⟨rfl, ?_, ?_⟩, _, rfl, ?_⟩
  · obtain ⟨hbehind, -, -⟩ := (cells_named brick (m := brickMesh) rfl).1 (by decide +kernel)
    exact hbehind 19 (by decide +kernel)
  · obtain ⟨-, -, hstep⟩ := (cells_named brick (m := brickMesh) rfl).1 (by decide +kernel)
    obtain ⟨out, s, hsettled, -⟩ := exists_brick_settled
    simp only [settleSet, yields_bind, yields_check] at hsettled
    obtain ⟨opened, _, hopen, faces, r, ⟨-, rfl⟩, _, r', hrelease, -⟩ := hsettled
    obtain ⟨displaced, hdisplaced⟩ :=
      hstep brickEnv brickRequest 1 opened.1 opened.2 faces.1 brickRun r r' rfl rfl hopen hrelease
    exact ⟨opened, r, faces.1, r', displaced, hopen, hrelease, hdisplaced⟩
  · obtain ⟨hbehind, -, -⟩ := (cells_named sheet rfl).2 (by decide +kernel)
    exact hbehind 0 (by decide +kernel)

/-- The mesh of the sheet has no cell, but two faces with cell 0 behind them, and it finds a point in cell 0. -/
theorem missing_cell_named : ∃ m, ofBox sheet = .ok m ∧ m.cellCount = 0 ∧ m.faceCount = 2 ∧
    m.faceCells[0]? = some 0 ∧ m.locate (.ofAxes fun _ => Scalar.ratio 1 2) = some 0 :=
  ⟨_, rfl, by decide +kernel, by decide +kernel, by decide +kernel, by decide +kernel⟩

end Mesh
end Inflow
