import Mathlib
import Inflow.Proofs.Injector.Agreement
import Inflow.Proofs.Injector.Life
import Inflow.Proofs.Injector.Accesses
import Inflow.Proofs.Scalar.Rational
/-!
# Particles that a hook has moved

Whether a particle is away from its place shows in how far it is from there, axis by
axis and relative to the size of its cell. As soon as this shows for some particle of some
rank, all ranks look up the cells of all their fresh particles. So a particle that is kept is
in the cell of its position or still in its place, with one exception: a distance
that compares with nothing does not show, and goes unnoticed unless another particle is seen.
-/

namespace Inflow

/-! ## Away from its place -/

namespace Release

variable {α : Type} [Scalar α]

/-- How far a position is from another along each axis, relative to the size of a cell. -/
def drift (volume : α) (x y : Vec3 α) : Vec3 α := x.zipWith (fun x y => (x - y) * (1 / Scalar.cbrt volume)) y

/-- A particle is within the tolerance of the place `s` along each axis. -/
def InPlace (volume : α) (s : Vec3 α) (p : Particle α) : Prop :=
  ∀ d ∈ (drift volume p.position s).toList, Scalar.abs d ≤ displacementTolerance

instance (volume : α) (s : Vec3 α) (p : Particle α) : Decidable (InPlace volume s p) :=
  inferInstanceAs (Decidable (∀ d ∈ (drift volume p.position s).toList, Scalar.abs d ≤ displacementTolerance))

/-- Along some axis the distance of a particle from the place `s` does not compare with the tolerance. -/
def Unmeasured (volume : α) (s : Vec3 α) (p : Particle α) : Prop :=
  ∃ d ∈ (drift volume p.position s).toList,
    ¬ Scalar.abs d ≤ displacementTolerance ∧ ¬ displacementTolerance ≤ Scalar.abs d

theorem not_isDisplaced_iff {volume : α} {p : Particle α} : isDisplaced volume p = false ↔
    ∀ d ∈ (drift volume p.position p.previousPosition).toList, ¬ displacementTolerance < Scalar.abs d := by
  simp only [isDisplaced, List.any_eq_false, decide_eq_true_eq, drift]

/-- A particle that is not seen away from its place is there, or it cannot be measured whether it is. -/
theorem inPlace_of_not_isDisplaced [OrderedScalar α] {volume : α} {p : Particle α} (h : isDisplaced volume p = false) :
    InPlace volume p.previousPosition p ∨ Unmeasured volume p.previousPosition p := by
  by_cases hplace : InPlace volume p.previousPosition p
  · exact .inl hplace
  · obtain ⟨d, hd, hnot⟩ := not_forall₂.1 hplace
    have hseen := not_isDisplaced_iff.1 h d hd
    rw [OrderedScalar.lt_iff, not_and_not_right] at hseen
    exact .inr ⟨d, hd, hnot, fun hle => hnot (hseen hle)⟩

end Release

/-! ## The cells of positions -/

section Housing

variable {α : Type} [Scalar α]

/-- The particle in the cell that its position is in, if there is one. -/
def Mesh.housed (m : Mesh α) (p : Particle α) : Option (Particle α) :=
  (m.locate p.position).map fun cell => { p with cell }

theorem Mesh.host_eq (m : Mesh α) (p : Particle α) : m.host p = (m.housed p).getD p := by
  unfold host housed
  cases m.locate p.position <;> rfl

/-- What is left of particles that have been looked up are those whose positions are in some cell. -/
theorem Mesh.left_of_relocate (m : Mesh α) {n : Nat} (ps : Vector (Particle α) n) :
    (dropPositions (m.relocate ps).1.toArray (m.relocate ps).2).toList = ps.toList.filterMap m.housed := by
  have hmap : (m.relocate ps).1.toArray = ps.toArray.map fun p => (m.housed p).getD p := by
    rw [relocate, Vector.toArray_map]
    exact congrArg ps.toArray.map (funext m.host_eq)
  rw [hmap]
  exact dropPositions_map_getD m.housed (fun _ => Option.isNone_map.symm) ps.toArray

theorem Mesh.locate_of_housed {m : Mesh α} {p p' : Particle α} (h : m.housed p = some p') :
    p'.position = p.position ∧ m.locate p'.position = some p'.cell := by
  obtain ⟨cell, hcell, rfl⟩ := Option.map_eq_some_iff.1 h
  exact ⟨rfl, hcell⟩

end Housing

namespace Injector

open Step

variable {α γ ω : Type} [Scalar α]

theorem left_of_relocated {env : Surroundings α ω} (htracker : GoesByPosition env) {ps located : Array (Particle α)}
    {lost : List Nat} (h : Relocated env ps located lost) :
    (dropPositions located lost).toList = ps.toList.filterMap env.mesh.housed := by
  obtain ⟨rfl, rfl⟩ := relocated_byPosition htracker h
  exact env.mesh.left_of_relocate ps.toVector

/-- Where it can be told of all particles whether they are away from their places, each is in a cell with a volume. -/
theorem exists_volume {mesh : Mesh α} {ps : Array (Particle α)} {displaced : Bool}
    (h : anyDisplaced mesh ps = .ok displaced) {p : Particle α} (hp : p ∈ ps) :
    ∃ volume, mesh.cellVolumes[p.cell]? = some volume ∧ (displaced = false → Release.isDisplaced volume p = false) := by
  obtain ⟨flags, hflags, hany⟩ := bind_eq_ok.1 h
  obtain ⟨flag, hflag, hdone⟩ := exists_mem_of_mapM_eq_ok hflags (Array.mem_toList_iff.2 hp)
  obtain ⟨volume, hvolume, hflagged⟩ := bind_eq_ok.1 hdone
  refine ⟨volume, fetch_eq_ok.1 hvolume, fun hnone => ?_⟩
  rw [← pure_eq_ok.1 hflagged]
  rw [pure_eq_ok.1 hany] at hnone
  exact Bool.eq_false_iff.2 fun hflag' => List.any_eq_false.1 hnone flag hflag hflag'

/-! ## Up to the search -/

variable [Generator γ]

/-- The work of a set up to the point at which moved particles have been looked up. -/
def settleSet (env : Surroundings α ω) (dtp : α) (q : Request α) :
    Step α γ ω (Nat × Nat × Option (Array Nat) × Option (Array Nat)) := do
  let opened ← openSet env q
  let faces ← Step.check (facesOf q opened.1)
  releaseFresh env q dtp opened.1 opened.2 faces.1
  let left ← relocateFresh env q opened.2 faces.1 faces.2
  return (opened.2, left)

/-- Every set begins so. -/
theorem injectSet_eq_settleSet (env : Surroundings α ω) (dtp : α) (level : Nat) (q : Request α) :
    (injectSet env dtp level q : Step α γ ω SetSummary) = do
      let (start, lost, faces, globalFaces) ← settleSet env dtp q
      finishFresh env q dtp level start faces
      recordFresh env start faces globalFaces
      let kept ← closeSet q start
      return { place := q.place, kept, lost } := by
  simp only [injectSet_eq, fillSet, settleSet, bind_assoc, pure_bind]

/-! ## The group -/

/-- A rank that has a set open and has moved its particles has come along a passage as far as to there. -/
theorem exists_arrived {env : Surroundings α ω} {q : Request α} {dtp : α} {r m m' : Run α γ ω} {index : List Nat}
    {start : Nat} {faces : Option (Array Nat) × Option (Array Nat)} {u : Unit}
    (hopen : (openSet env q).Yields r (index, start) m) (hfaces : facesOf q index = .ok faces)
    (hrelease : (releaseFresh env q dtp index start faces.1).Yields m u m') :
    start = r.injector.population.size ∧ ∃ w : Passage α, w.Begins γ env dtp q ∧
      Edited env.hooks.move { set := q.set, faces := w.faces, sublayer := env.sublayer } w.ready w.moved ∧
      Grew r m' (w.arrived env.seat.rank).toList [] := by
  obtain ⟨layout, population, log, hlaid, rfl, rfl, hgrown, rfl⟩ := openSet_cases hopen
  obtain ⟨placed, ready, moved, hplaced, hready, hmoved, hgrew⟩ :=
    grew_releaseFresh (grew_appendBlank hgrown layout.stream log) hrelease
  rw [List.toArray_replicate] at hplaced
  let w : Passage α :=
    { index := layout.index, faces := faces.1, globalFaces := faces.2, placed, ready, moved,
      located := #[], lost := [], equipped := #[], modified := #[] }
  exact ⟨rfl, w, ⟨⟨_, layout, hlaid, rfl⟩, hfaces, hplaced, hready⟩, hmoved, hgrew⟩

section Group

variable {ranks : Nat} {env : Fin ranks → Surroundings α ω} {q : Fin ranks → Request α} {rs ts : Fin ranks → Run α γ ω}
  {dtp : α}

theorem together_settleSet (hseat : Seated env) {count : Nat} (hcount : ∀ i, (q i).set.count = count) (dtp : α) :
    Together (fun i => settleSet (env i) dtp (q i)) rs (fun _ _ => True) (GaveUp env q rs) := by
  unfold settleSet
  refine together_bind (together_openSet hseat hcount) fun opened _ _ _ => together_check fun faces _ => ?_
  refine together_after (fun _ => quiet_releaseFresh _ _ _ _) fun _ _ _ => ?_
  exact together_bind (together_relocateFresh _ _ _) fun left _ _ _ => together_pure trivial

/-- A group that has released a set has got past the search for moved particles. -/
theorem exists_settled_of_released (hseat : Seated env) {count : Nat} (hcount : ∀ i, (q i).set.count = count)
    (hranks : 0 < ranks) {level : Fin ranks → Nat} {s : Fin ranks → SetSummary}
    (h : Results (fun i => injectSet (env i) dtp (level i) (q i)) rs s ts) :
    ∃ outs ms, Results (fun i => settleSet (env i) dtp (q i)) rs outs ms := by
  simp only [injectSet_eq_settleSet] at h
  obtain ⟨outs, ms, -, hsettled, -⟩ := results_split (together_settleSet hseat hcount dtp) h hranks
  exact ⟨outs, ms, hsettled⟩

/-- Either some particle of some rank is seen away from its place, and each rank keeps
those of its particles whose positions are in some cell, there; or none is, and each
rank keeps all of its particles as they are. -/
def Settled (env : Fin ranks → Surroundings α ω) (rs ts : Fin ranks → Run α γ ω) (ws : Fin ranks → Passage α) : Prop :=
  ∃ displaced : Fin ranks → Bool,
    (∀ i, anyDisplaced (env i).mesh ((ws i).arrived (env i).seat.rank) = .ok (displaced i)) ∧
    ((∃ i, displaced i = true) ∧ (∀ i, gainedSince (rs i) (ts i) =
        ((ws i).arrived (env i).seat.rank).toList.filterMap (env i).mesh.housed) ∨
      (∀ i, displaced i = false) ∧
        ∀ i, gainedSince (rs i) (ts i) = ((ws i).arrived (env i).seat.rank).toList)

theorem settled_of_results (hseat : Seated env) {count : Nat} (hcount : ∀ i, (q i).set.count = count)
    (htracker : ∀ i, GoesByPosition (env i)) (hranks : 0 < ranks)
    {outs : Fin ranks → Nat × Nat × Option (Array Nat) × Option (Array Nat)}
    (h : Results (fun i => settleSet (env i) dtp (q i)) rs outs ts) :
    ∃ ws : Fin ranks → Passage α, (∀ i, (ws i).Begins γ (env i) dtp (q i) ∧ Edited (env i).hooks.move
        { set := (q i).set, faces := (ws i).faces, sublayer := (env i).sublayer } (ws i).ready (ws i).moved) ∧
      Settled env rs ts ws := by
  unfold settleSet at h
  -- The group is taken apart stage by stage, so that the runs between two stages are the same for all.
  obtain ⟨opened, ms, -, hopen, h⟩ := results_split (together_openSet hseat hcount) h hranks
  obtain ⟨faces, _, hfaces, h⟩ := results_after (fun i => quiet_check _) h hranks
  obtain ⟨_, us, hrelease, h⟩ := results_after (fun i => quiet_releaseFresh _ _ _ _) h hranks
  obtain ⟨left, vs, hsettled, -, h⟩ :=
    results_split (together_relocateFresh (E := fun _ _ => False) (fun i => (opened i).2) _ _) h hranks
  obtain rfl : ts = vs := funext fun i => (yields_pure.1 (h.yields i)).2
  have harrived := fun i => exists_arrived (hopen.yields i) (yields_check.1 (hfaces i)).1
    ((yields_check.1 (hfaces i)).2 ▸ hrelease i)
  choose hstart ws hbegins hmoved hgrew using harrived
  refine ⟨ws, fun i => ⟨hbegins i, hmoved i⟩, ?_⟩
  obtain ⟨displaced, hdisplaced, hcases⟩ := hsettled
  simp only [hstart, (hgrew _).tail] at hdisplaced hcases
  refine ⟨displaced, hdisplaced, ?_⟩
  rcases hcases with ⟨hsome, hlooked⟩ | ⟨hnone, -, rfl⟩
  · refine .inl ⟨hsome, fun i => ?_⟩
    obtain ⟨located, lost, hlocated, -, hkept⟩ := grew_lookedUp (hgrew i) (hlooked i)
    exact hkept.gainedSince_eq.trans (left_of_relocated (htracker i) hlocated)
  · exact .inr ⟨hnone, fun i => (hgrew i).gainedSince_eq⟩

omit [Scalar α] [Generator γ] in
theorem Passage.exists_of_mem_arrived {w : Passage α} {rank : Nat} {p : Particle α} (hp : p ∈ w.arrived rank) :
    ∃ (k : Nat) (saved moved : Particle α), w.ready[k]? = some saved ∧ w.moved[k]? = some moved ∧
      p = afterMove rank saved moved := by
  obtain ⟨k, hk⟩ := Array.mem_iff_getElem?.1 hp
  rw [arrived, Array.getElem?_zipWith] at hk
  split at hk
  · exact ⟨k, _, _, ‹_›, ‹_›, (Option.some.inj hk).symm⟩
  · cases hk

/-- Whatever the hook of each rank does to its particles, those that a rank keeps after
moved ones have been looked up are in the cells of their positions or within the
tolerance of their places. The only others are particles of which this cannot be
told, and those only if no particle of any rank is seen away from its place. -/
theorem located_or_in_place [OrderedScalar α] (hseat : Seated env) {count : Nat}
    (hcount : ∀ i, (q i).set.count = count) (htracker : ∀ i, GoesByPosition (env i))
    {outs : Fin ranks → Nat × Nat × Option (Array Nat) × Option (Array Nat)}
    (h : Results (fun i => settleSet (env i) dtp (q i)) rs outs ts) :
    ∃ ws : Fin ranks → Passage α, ∀ i, (ws i).Begins γ (env i) dtp (q i) ∧
      Edited (env i).hooks.move { set := (q i).set, faces := (ws i).faces, sublayer := (env i).sublayer }
        (ws i).ready (ws i).moved ∧
      ∀ p ∈ gainedSince (rs i) (ts i), ∃ (k : Nat) (saved moved : Particle α) (volume : α),
        (ws i).ready[k]? = some saved ∧ (ws i).moved[k]? = some moved ∧ (env i).mesh.cellVolumes[saved.cell]? = some volume ∧
        p.position = moved.position ∧
        ((env i).mesh.locate p.position = some p.cell ∨ Release.InPlace volume saved.position p ∨
          Release.Unmeasured volume saved.position p ∧
            ∀ j, anyDisplaced (env j).mesh ((ws j).arrived (env j).seat.rank) = .ok false) := by
  rcases Nat.eq_zero_or_pos ranks with rfl | hranks
  · exact ⟨fun i => i.elim0, fun i => i.elim0⟩
  obtain ⟨ws, hws, displaced, hdisplaced, hkept⟩ := settled_of_results hseat hcount htracker hranks h
  refine ⟨ws, fun i => ⟨(hws i).1, (hws i).2, fun p hp => ?_⟩⟩
  -- What rank `i` has seen itself does not matter: one particle that is seen anywhere decides for all.
  rcases hkept with ⟨-, hkept⟩ | ⟨hnone, hkept⟩
  · rw [hkept i, List.mem_filterMap] at hp
    obtain ⟨arrived, harrived, hhoused⟩ := hp
    obtain ⟨volume, hvolume, -⟩ := exists_volume (hdisplaced i) (Array.mem_toList_iff.1 harrived)
    obtain ⟨k, saved, moved, hsaved, hmoved, rfl⟩ := Passage.exists_of_mem_arrived (Array.mem_toList_iff.1 harrived)
    obtain ⟨hposition, hlocated⟩ := Mesh.locate_of_housed hhoused
    exact ⟨k, saved, moved, volume, hsaved, hmoved, hvolume, hposition, .inl hlocated⟩
  · rw [hkept i, Array.mem_toList_iff] at hp
    obtain ⟨volume, hvolume, hunseen⟩ := exists_volume (hdisplaced i) hp
    obtain ⟨k, saved, moved, hsaved, hmoved, rfl⟩ := Passage.exists_of_mem_arrived hp
    have hall : ∀ j, anyDisplaced (env j).mesh ((ws j).arrived (env j).seat.rank) = .ok false := by
      intro j
      rw [hdisplaced j, hnone j]
    refine ⟨k, saved, moved, volume, hsaved, hmoved, hvolume, rfl, .inr ?_⟩
    exact (Release.inPlace_of_not_isDisplaced (hunseen (hnone i))).imp_right fun hunmeasured => ⟨hunmeasured, hall⟩

end Group

/-! ## Pushed out of their cells -/

/-- What a rank of a group comes to with a set that has been settled. -/
abbrev SettledEnd (α ω : Type) :=
  Except (Halt α) (Nat × Nat × Option (Array Nat) × Option (Array Nat)) × Run α ChaCha.State ω

/-- A box of two cells, one behind the other along the first axis. -/
def twoCells : Box ℚ where
  layers := .ofAxes fun a => if a = .x then 2 else 1
  lengths := .ofAxes fun a => if a = .x then 2 else 1

def twoCellMesh : Mesh ℚ := (Mesh.ofBox twoCells).toOption.get (by decide +kernel)

/-- A hook that moves particles by the length of one cell. -/
def pushOn : Hook ℚ Unit := fun _ ps w =>
  (.ok (ps.map fun p => { p with position := p.position.zipWith (· + ·) (Vec3.onAxis .x 1) }), w)

/-- Only rank 1 moves its particles. -/
def pushedEnv (i : Fin 2) : Surroundings ℚ Unit where
  seat := { rank := i, size := 2 }
  mesh := twoCellMesh
  fluid := .uniform (.onAxis .x 1) 300
  hooks := if i.val = 1 then { Hooks.none with move := pushOn } else .none
  tracker := { relocate := fun mesh ps _ w => (mesh.relocate ps, w) }

/-- The runs of the pair, with a slot for the flow rate of a zone of cells. -/
def pushedRuns (i : Fin 2) : Run ℚ ChaCha.State Unit :=
  let flow := (FlowRates.zeros 0 1 1).toOption.get (by decide +kernel)
  { pairRuns 10 i with injector := { (pairRuns 10 i).injector with flow } }

/-- A set of four particles in a zone of both cells. -/
def pushedRequest : Request ℚ where
  kind := .volume
  zoneIndex := 0
  entry := {
    zone := { id := 0, name := "cells", kind := .volume, elements := #[0, 1] }
    nature := .inlet }
  set := { InjectionSet.standard with count := 4, location := .volume }

/-- The cells that a rank's particles are in, and how many it has lost. -/
def cellsAndLost (out : SettledEnd ℚ Unit) : List Nat × Option Nat :=
  (out.2.injector.population.particles.toList.map (·.cell), out.1.toOption.map (·.2.1))

/-- Rank 0 keeps its particle in the first cell; of three on rank 1, two are lost and one
is found in the second cell. The set goes on from there and is released. -/
theorem located_or_in_place_pushed :
    (Group.run (List.ofFn fun i => (settleSet (pushedEnv i) 1 pushedRequest).on (pushedRuns i))).map
      (·.map cellsAndLost) = some [([0], some 0), ([1], some 2)] ∧
    (∃ s us, Results (fun i => injectSet (pushedEnv i) 1 0 pushedRequest) pushedRuns s us) ∧
    ∃ outs ts, Results (fun i => settleSet (pushedEnv i) 1 pushedRequest) pushedRuns outs ts ∧
      ∃ ws : Fin 2 → Passage ℚ, ∀ i, (ws i).Begins ChaCha.State (pushedEnv i) 1 pushedRequest ∧
        Edited (pushedEnv i).hooks.move { set := pushedRequest.set, faces := (ws i).faces, sublayer := #[] }
          (ws i).ready (ws i).moved ∧
        ∀ p ∈ gainedSince (pushedRuns i) (ts i), ∃ (k : Nat) (saved moved : Particle ℚ) (volume : ℚ),
          (ws i).ready[k]? = some saved ∧ (ws i).moved[k]? = some moved ∧
          twoCellMesh.cellVolumes[saved.cell]? = some volume ∧ p.position = moved.position ∧
          (twoCellMesh.locate p.position = some p.cell ∨ Release.InPlace volume saved.position p ∨
            Release.Unmeasured volume saved.position p ∧
              ∀ j, anyDisplaced twoCellMesh ((ws j).arrived (pushedEnv j).seat.rank) = .ok false) := by
  have hall : (Group.run (List.ofFn fun i => (injectSet (pushedEnv i) 1 0 pushedRequest).on (pushedRuns i))).map
      (·.all fun out => out.1.toBool && true) = some true := by decide +kernel
  obtain ⟨s, us, hreleased, -⟩ := exists_results_of_all (fun _ => true) hall
  have hseat : Seated pushedEnv := fun _ => rfl
  have htracker : ∀ i, GoesByPosition (pushedEnv i) := fun _ _ _ _ => rfl
  obtain ⟨outs, ts, hresults⟩ := exists_settled_of_released hseat (fun _ => rfl) Nat.two_pos hreleased
  exact ⟨by decide +kernel, ⟨s, us, hreleased⟩, outs, ts, hresults,
    located_or_in_place hseat (fun _ => rfl) htracker hresults⟩

/-! ## Nowhere -/

/-- A hook that sends particles nowhere. -/
def toNowhere : Hook Float Unit := fun _ ps w => (.ok (ps.map fun p => { p with position := .ofAxes fun _ => 0 / 0 }), w)

def unitMesh : Mesh Float := (Mesh.ofBox unitBox).toOption.get (by decide +kernel)

def nowhereEnv : Surroundings Float Unit where
  seat := .alone
  mesh := unitMesh
  fluid := .uniform (.onAxis .x 1) 300
  hooks := { Hooks.none with move := toNowhere }
  tracker := { relocate := fun mesh ps _ w => (mesh.relocate ps, w) }

/-- A set of one particle in a zone of the cell. -/
def nowhereRequest : Request Float where
  kind := .volume
  zoneIndex := 0
  entry := {
    zone := { id := 0, name := "cell", kind := .volume, elements := #[0] }
    nature := .inlet }
  set := { InjectionSet.standard with count := 1, location := .volume }

def nowhereRun : Run Float ChaCha.State Unit where
  injector := {
    settings := { ceiling := 10 }
    stream := .ofSeed 0
    population := .empty
    events := {}
    flow := .unset }
  census := .zero
  sink := .recording
  outside := ()

/-- A particle is in the cell, although it is nowhere and so not in its place. -/
def strayed (p : Particle Float) : Bool :=
  p.cell = 0 && unitMesh.locate p.position = none && !decide (Release.InPlace 1 p.previousPosition p)

/-- A particle is kept that is neither within the tolerance of its place nor in any cell. -/
theorem kept_in_no_cell : ∃ outs ts,
    Results (fun _ : Fin 1 => settleSet nowhereEnv 1 nowhereRequest) (fun _ => nowhereRun) outs ts ∧
    ∃ w : Passage Float, w.Begins ChaCha.State nowhereEnv 1 nowhereRequest ∧
      Edited toNowhere { set := nowhereRequest.set, faces := w.faces, sublayer := #[] } w.ready w.moved ∧
      ∃ p ∈ gainedSince nowhereRun (ts 0), ∃ (k : Nat) (saved moved : Particle Float) (volume : Float),
        w.ready[k]? = some saved ∧ w.moved[k]? = some moved ∧ unitMesh.cellVolumes[saved.cell]? = some volume ∧
        p.position = moved.position ∧ unitMesh.locate p.position = none ∧
        ¬ Release.InPlace volume saved.position p := by
  have hall : (Group.run (List.ofFn fun _ : Fin 1 => (settleSet nowhereEnv 1 nowhereRequest).on nowhereRun)).map
      (·.all fun out => out.1.toBool && (gainedSince nowhereRun out.2).any strayed) = some true := by decide +kernel
  obtain ⟨outs, ts, hresults, hstrayed⟩ :=
    exists_results_of_all (fun out => (gainedSince nowhereRun out.2).any strayed) hall
  obtain ⟨p, hp, hp'⟩ := List.any_eq_true.1 (hstrayed 0)
  simp only [strayed, Bool.and_eq_true, decide_eq_true_eq, Bool.not_eq_true', decide_eq_false_iff_not] at hp'
  obtain ⟨⟨hcell, hnowhere⟩, hplace⟩ := hp'
  have hseat : Seated fun _ : Fin 1 => nowhereEnv := fun i => by rw [Fin.fin_one_eq_zero i]; rfl
  obtain ⟨ws, hws, displaced, -, hkept⟩ :=
    settled_of_results hseat (fun _ => rfl) (fun _ _ _ _ => rfl) Nat.one_pos hresults
  rcases hkept with ⟨-, hkept⟩ | ⟨-, hkept⟩
  · -- Looked up, the particle would have been lost.
    rw [hkept 0, List.mem_filterMap] at hp
    obtain ⟨_, -, hhoused⟩ := hp
    cases hnowhere.symm.trans (Mesh.locate_of_housed hhoused).2
  · have harrived := hp
    rw [hkept 0, Array.mem_toList_iff] at harrived
    obtain ⟨k, saved, moved, hsaved, hmoved, rfl⟩ := Passage.exists_of_mem_arrived harrived
    have hvolume : unitMesh.cellVolumes[saved.cell]? = some 1 := by
      rw [show saved.cell = 0 from hcell]
      rfl
    exact ⟨outs, ts, hresults, ws 0, (hws 0).1, (hws 0).2, _, hp, k, saved, moved, 1, hsaved, hmoved, hvolume, rfl,
      hnowhere, hplace⟩

end Injector
end Inflow
