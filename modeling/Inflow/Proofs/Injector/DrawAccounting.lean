import Inflow.Proofs.Injector.Abandoned
import Inflow.Proofs.Injector.Ceiling
import Inflow.Proofs.Injector.Visits
import Inflow.Proofs.Random.Counting
/-!
# The draws of a step

A rank draws in four places: the coordinator shares the particles of a set out,
and every rank lays its own out, sets their state and sets their diameters. How
many draws that takes depends on how many particles there are and never on the
values drawn. So two groups that place and keep as many particles of each set
take as many draws, whatever their seeds.
-/

namespace Inflow

/-- The number of draws that a run has taken from its stream. -/
def Run.draws {α γ ω : Type} (r : Run α γ ω) : Nat := r.injector.stream.draws

namespace Injector

open Step

open Release (diameterDraws)

open Apportion (shareDraws)

variable {α γ ω : Type}

/-! ## The parts of a set's work -/

section Parts

variable [Scalar α] [Generator γ] {env : Surroundings α ω} {q : Request α} {r r' : Run α γ ω} {dtp : α} {level start : Nat}

theorem draws_releaseFresh {index : List Nat} {faces : Option (Array Nat)} {u : Unit}
    (h : (releaseFresh env q dtp index start faces).Yields r u r') :
    r'.draws = r.draws + (r.injector.population.size - start) := by
  simp only [releaseFresh, yields_bind, yields_fresh, yields_check, yields_draw, yields_setFresh] at h
  obtain ⟨_, _, ⟨rfl, rfl⟩, placed, _, ⟨hplaced, rfl⟩, ready, _, ⟨hready, rfl⟩, moved, _, hmoved, rfl⟩ := h
  obtain ⟨-, outside, rfl⟩ := yields_runHook hmoved
  have htakes := Release.takes_initializeAll _ _ _ _ _ _ _ hready
  rwa [Release.size_place hplaced, Population.size_tail] at htakes

omit [Generator γ] in
theorem draws_relocateFresh {faces globalFaces : Option (Array Nat)} {out : Nat × Option (Array Nat) × Option (Array Nat)}
    (h : (relocateFresh env q start faces globalFaces).Yields r out r') : r'.draws = r.draws := by
  rcases relocateFresh_cases h with ⟨-, rfl⟩ | ⟨_, _, _, _, -, -, rfl⟩ <;> rfl

theorem draws_finishFresh {faces : Option (Array Nat)} {u : Unit}
    (h : (finishFresh env q dtp level start faces).Yields r u r') :
    r'.draws = r.draws + (r.injector.population.size - start) * diameterDraws q.set := by
  simp only [finishFresh, yields_bind, yields_get, yields_fresh, yields_draw, yields_setFresh] at h
  obtain ⟨_, _, ⟨rfl, rfl⟩, _, _, ⟨rfl, rfl⟩, equipped, _, ⟨hequipped, rfl⟩, modified, _, hmodified, rfl⟩ := h
  obtain ⟨-, outside, rfl⟩ := yields_runHook hmodified
  have htakes := Release.takes_attributes _ _ _ _ _ hequipped
  rwa [Population.size_tail] at htakes

omit [Scalar α] [Generator γ] in
theorem draws_recordFresh {faces globalFaces : Option (Array Nat)} {u : Unit}
    (h : (recordFresh env start faces globalFaces).Yields r u r') : r'.draws = r.draws := by
  obtain ⟨events, sink, rfl⟩ := recordFresh_cases h
  rfl

omit [Generator γ] in
theorem draws_closeSet {kept : Nat} (h : (closeSet q start).Yields r kept r') : r'.draws = r.draws := by
  obtain ⟨flow, population, -, -, -, rfl⟩ := closeSet_cases h
  rfl

/-- An open set takes a draw for each particle, and those of its diameter for each that is kept. -/
theorem draws_fillSet {index : List Nat} {s : SetSummary} (h : (fillSet env dtp level q index start).Yields r s r')
    (hstart : start ≤ r.injector.population.size) :
    r'.draws = r.draws + (s.kept + s.lost) + s.kept * diameterDraws q.set := by
  obtain ⟨-, -, hsize, hall, -⟩ := yields_fillSet h hstart
  simp only [fillSet, yields_bind, yields_check, yields_pure] at h
  obtain ⟨faces, r, ⟨-, rfl⟩, _, r₁, hrelease, left, r₂, hrelocate, _, r₃, hfinish, _, r₄, hrecord, kept, _, hclose,
    rfl, rfl⟩ := h
  -- The particles that get attributes are those that are kept in the end.
  have hkept : r₂.injector.population.size - start = kept := by
    have hlast := (yields_closeSet hclose).2.2.2.1
    rw [(yields_recordFresh hrecord).2, (yields_finishFresh hfinish).2] at hlast
    exact hlast.symm
  have hfresh : r.injector.population.size - start = kept + left.1 := by
    simp only at hall
    omega
  rw [draws_closeSet hclose, draws_recordFresh hrecord, draws_finishFresh hfinish, draws_relocateFresh hrelocate,
    draws_releaseFresh hrelease, hkept, hfresh]

end Parts

/-! ## One set of a group -/

section Group

variable [Scalar α]

variable {ranks : Nat} {env : Fin ranks → Surroundings α ω} {q : Fin ranks → Request α}

/-- The draws of a rank for a set, given what came of the set on each rank. -/
def setDraws (env : Fin ranks → Surroundings α ω) (q : Fin ranks → Request α) (s : Fin ranks → SetSummary)
    (i : Fin ranks) : Nat :=
  shareDraws (q i).set.count (fun j => partWeight (env j) (q j)) i + 2 * ((s i).kept + (s i).lost) +
    (s i).kept * diameterDraws (q i).set

variable [Generator γ] {rs ts : Fin ranks → Run α γ ω}

/-- Ranks that have shared a set out have drawn for the group and for their own particles. -/
theorem draws_laidOut (hseat : Seated env) {count : Nat} (hcount : ∀ i, (q i).set.count = count)
    {layouts : Fin ranks → Apportion.Layout γ} (h : LaidOut env q rs layouts) (i : Fin ranks) :
    (layouts i).stream.draws =
      (rs i).draws + shareDraws count (fun j => partWeight (env j) (q j)) i + (layouts i).placed := by
  obtain ⟨tables, htables, rfl⟩ := h.exists_tables hseat hcount
  have hweights : (fun j => (tables j).total) = fun j => partWeight (env j) (q j) :=
    funext fun j => (partWeight_eq (htables j)).symm
  rw [← hweights]
  exact Apportion.draws_rankLayout count tables _ i

theorem draws_injectSet (hseat : Seated env) {count : Nat} (hcount : ∀ i, (q i).set.count = count) (hranks : 0 < ranks)
    {dtp : α} {level : Fin ranks → Nat} {s : Fin ranks → SetSummary}
    (h : Results (fun i => injectSet (env i) dtp (level i) (q i)) rs s ts) (i : Fin ranks) :
    (ts i).draws = (rs i).draws + setDraws env q s i := by
  simp only [injectSet_eq] at h
  obtain ⟨opened, ms, ⟨layouts, hlaid, -, hlayouts⟩, hopened, hfilled⟩ :=
    results_split (together_openSet hseat hcount) h hranks
  obtain ⟨-, hstart, hsize⟩ := yields_openSet (hopened.yields i)
  obtain ⟨-, -, -, hall, -⟩ := yields_fillSet (hfilled.yields i) (by omega)
  have hopen : (ms i).draws = (layouts i).stream.draws := congrArg (·.draws) (hlayouts i).2
  have hplaced : (layouts i).placed = (s i).kept + (s i).lost := by
    rw [Apportion.Layout.placed, ← (hlayouts i).1]
    omega
  rw [draws_fillSet (hfilled.yields i) (by omega), hopen, draws_laidOut hseat hcount hlaid, hplaced, setDraws, hcount i]
  omega

end Group

/-! ## All sets of a group -/

section Sets

variable [Scalar α] [Generator γ] {ranks : Nat} {env : Fin ranks → Surroundings α ω} {rs ts : Fin ranks → Run α γ ω}

/-- Every rank takes the draws of the sets that the group visits. -/
theorem draws_visits (hseat : Seated env) {dtp : α} {level : Fin ranks → Nat} {vs : List (Visit α γ ω ranks)}
    (h : Visits env dtp level rs vs ts) (houtline : ∀ v ∈ vs, ∀ i j, (v.request i).outline = (v.request j).outline)
    (i : Fin ranks) :
    (ts i).draws = (rs i).draws + (vs.map fun v => setDraws env v.request v.summary i).sum := by
  induction h with
  | nil => rfl
  | @cons v vs ts released _ ih =>
    obtain ⟨hv, hvs⟩ := List.forall_mem_cons.1 houtline
    have hcount : ∀ j, (v.request j).set.count = (v.request i).set.count := fun j => Request.count_eq_of_outline (hv j i)
    rw [ih hvs, draws_injectSet hseat hcount i.pos released, List.map_cons, List.sum_cons, Nat.add_assoc]

variable {registry : Fin ranks → Registry α}

/-- The draws of a step in which all ranks released what was due. -/
structure Drawn (env : Fin ranks → Surroundings α ω) (registry : Fin ranks → Registry α) (time : TimeStep α)
    (rs : Fin ranks → Run α γ ω) (s : Fin ranks → StepSummary α) (ts : Fin ranks → Run α γ ω)
    (rel : List (SetRelease α ranks)) : Prop where
  due : ∀ i, dueSets (registry i) time (rs i) = rel.map (·.request i)
  outline : ∀ x ∈ rel, ∀ i j, (x.request i).outline = (x.request j).outline
  sets : ∀ i, (s i).sets = rel.map (·.summary i)
  draws : ∀ i, (ts i).draws = (rs i).draws + (rel.map fun x => setDraws env x.request x.summary i).sum

theorem drawn_of_run (h : Shared env registry rs) {time : TimeStep α} {wantedLevel : Fin ranks → Nat}
    {s : Fin ranks → StepSummary α}
    (hrun : Results (fun i => inject (env i) (registry i) time (wantedLevel i)) rs (fun i => .injected (s i)) ts) :
    ∃ rel, Drawn env registry time rs s ts rel := by
  obtain ⟨vs, htoured⟩ := toured_of_run h hrun
  obtain ⟨flow, us, -, hvisits, hend⟩ := htoured.visits
  refine ⟨vs.map (·.toSetRelease), fun i => ?_, ?_, fun i => ?_, fun i => ?_⟩
  · rw [htoured.due i, List.map_map]
    rfl
  · rintro _ hx i j
    obtain ⟨v, hv, rfl⟩ := List.mem_map.1 hx
    exact htoured.outline v hv i j
  · rw [htoured.sets i, List.map_map]
    rfl
  · rw [List.map_map, Run.draws, hend i]
    exact draws_visits h.seated hvisits htoured.outline i

end Sets

/-! ## Steps that draw nothing -/

section Idle

variable [Scalar α] [Generator γ] {env : Surroundings α ω} {registry : Registry α} {time : TimeStep α} {wantedLevel : Nat}
  {r r' : Run α γ ω} {e : InjectionError α}

theorem draws_of_skipped {current projected ceiling : Nat}
    (h : (inject env registry time wantedLevel).Yields r (.skipped current projected ceiling) r') :
    r'.draws = r.draws := by
  obtain ⟨-, -, flow, log, -, rfl⟩ := yields_inject_skipped h
  rfl

/-- Sets are never given up for a faulty setup. -/
theorem AbandonedAmong.ne_setup {x : Release.Setting α} {qs : List (Request α)} {recorded : Bool}
    {ps : List (Particle α)} {es : List (TrackingEvent α)} (h : AbandonedAmong γ env x qs recorded e ps es)
    (issues : List (Issue α)) : e ≠ .setup issues := by
  obtain ⟨before, q, after, ws, ps', es', -, -, hleaves, -, -⟩ := h
  rintro rfl
  cases hleaves with
  | inputs reports =>
    rcases reports with hown | ⟨-, hpeer⟩
    · unfold checkInputs at hown
      split at hown
      · cases hown
      · split at hown
        · split at hown <;> cases hown
        · cases hown
    · cases hpeer
  | growth error reports => cases reports
  | blank stream layout laid reports => cases reports
  | admission w first violations follows found reports =>
    rcases reports with hown | ⟨-, hpeer⟩
    · unfold admission at hown
      split at hown <;> cases hown
    · cases hpeer

/-- A faulty setup is found before anything is done. -/
theorem draws_of_setup {issues : List (Issue α)}
    (h : (inject env registry time wantedLevel).Errs r (.setup issues) r') : r'.draws = r.draws := by
  have hon := on_inject env registry time wantedLevel r
  by_cases hissues : registry.issues r.injector.settings.model = []
  · rw [if_pos hissues] at hon
    by_cases hceiling : PassesCeiling registry r
    · rw [if_pos hceiling] at hon
      exact (not_errs_skip ((errs_congr hon).1 h)).elim
    · rw [if_neg hceiling] at hon
      rcases errs_bind.1 ((errs_congr hon).1 h) with hrelease | ⟨sets, m, -, hend⟩
      · obtain ⟨ps, es, habandoned, -⟩ := abandoned_releaseSets hrelease
        exact absurd rfl (habandoned.ne_setup issues)
      · exact (not_errs_conclude hend).elim
  · rw [if_neg hissues] at hon
    obtain ⟨-, rfl⟩ := errs_throw.1 ((errs_congr hon).1 h)
    rfl

end Idle

/-! ## Draws over all ranks -/

section Sum

variable [Scalar α] {ranks : Nat} {env : Fin ranks → Surroundings α ω} {registry : Fin ranks → Registry α}

theorem diameterDraws_eq_of_outline {q q' : Request α} (h : q.outline = q'.outline) :
    diameterDraws q.set = diameterDraws q'.set := by
  change diameterDraws q.outline.set = diameterDraws q'.outline.set
  rw [h]

/-- Where nothing is lost, the draws of all ranks for a set follow from the number of particles placed. -/
theorem sum_setDraws {q : Fin ranks → Request α} {s : Fin ranks → SetSummary} (first : Fin ranks)
    (houtline : ∀ i, (q i).outline = (q first).outline) (hlost : ∀ i, (s i).lost = 0) :
    ∑ i, setDraws env q s i =
      ∑ i, shareDraws (q i).set.count (fun j => partWeight (env j) (q j)) i +
        (2 + diameterDraws (q first).set) * ∑ i, ((s i).kept + (s i).lost) := by
  rw [Finset.mul_sum, ← Finset.sum_add_distrib]
  refine Finset.sum_congr rfl fun i _ => ?_
  rw [setDraws, hlost i, diameterDraws_eq_of_outline (houtline i), Nat.add_zero, Nat.add_mul, Nat.add_assoc,
    Nat.mul_comm (s i).kept]

/-- The number of particles that all ranks have placed for the `k`-th of the sets that were due. -/
def placedOver (s : Fin ranks → StepSummary α) (k : Nat) : Nat :=
  ∑ i, (((s i).sets[k]?).map fun x => x.kept + x.lost).getD 0

/-- All or none of the particles of each set that was due have been placed: all where `full` holds of the set. -/
def PlacesAllOrNone {γ : Type} (registry : Fin ranks → Registry α) (time : TimeStep α) (rs : Fin ranks → Run α γ ω)
    (full : (Fin ranks → Request α) → Bool) (s : Fin ranks → StepSummary α) : Prop :=
  ∀ (k : Nat) (q : Fin ranks → Request α), (∀ i, (dueSets (registry i) time (rs i))[k]? = some (q i)) →
    ∀ i, placedOver s k = if full q then (q i).set.count else 0

variable {rs ts rs' ts' : Fin ranks → Run α γ ω} {time : TimeStep α} {s s' : Fin ranks → StepSummary α}
  {rel rel' : List (SetRelease α ranks)}

theorem Drawn.sum_draws (h : Drawn env registry time rs s ts rel) :
    ∑ i, ((ts i).draws - (rs i).draws) = (rel.map fun x => ∑ i, setDraws env x.request x.summary i).sum := by
  rw [← sum_sum_map]
  exact Finset.sum_congr rfl fun i _ => by rw [h.draws i, Nat.add_sub_cancel_left]

theorem Drawn.placedOver_eq (h : Drawn env registry time rs s ts rel) {k : Nat} {x : SetRelease α ranks}
    (hx : rel[k]? = some x) : placedOver s k = ∑ i, ((x.summary i).kept + (x.summary i).lost) := by
  refine Finset.sum_congr rfl fun i _ => ?_
  rw [h.sets i, List.getElem?_map, hx]
  rfl

theorem Drawn.lost_eq (h : Drawn env registry time rs s ts rel) (hlost : ∀ i, lostIn (s i).sets = 0)
    {x : SetRelease α ranks} (hx : x ∈ rel) (i : Fin ranks) : (x.summary i).lost = 0 := by
  have hall := List.sum_eq_zero_iff.1 (hlost i)
  rw [h.sets i, List.map_map] at hall
  exact hall _ (List.mem_map_of_mem hx)

/-- Two groups with the same sets that lose nothing and place all or none of each take as many draws. -/
theorem Drawn.sum_draws_eq (h : Drawn env registry time rs s ts rel) (h' : Drawn env registry time rs' s' ts' rel')
    (first : Fin ranks) (hdue : ∀ i, dueSets (registry i) time (rs i) = dueSets (registry i) time (rs' i))
    (hlost : ∀ i, lostIn (s i).sets = 0) (hlost' : ∀ i, lostIn (s' i).sets = 0)
    {full : (Fin ranks → Request α) → Bool} (hfull : PlacesAllOrNone registry time rs full s)
    (hfull' : PlacesAllOrNone registry time rs' full s') :
    ∑ i, ((ts i).draws - (rs i).draws) = ∑ i, ((ts' i).draws - (rs' i).draws) := by
  have hrequests : ∀ i, rel.map (·.request i) = rel'.map (·.request i) := fun i => by rw [← h.due i, hdue i, h'.due i]
  have hlength : rel.length = rel'.length := by
    simpa only [List.length_map] using congrArg List.length (hrequests first)
  rw [h.sum_draws, h'.sum_draws]
  refine congrArg List.sum (List.ext_getElem (by rw [List.length_map, List.length_map, hlength]) fun k hk hk' => ?_)
  rw [List.length_map] at hk hk'
  rw [List.getElem_map, List.getElem_map]
  have hget : rel[k]? = some rel[k] := List.getElem?_eq_getElem hk
  have hget' : rel'[k]? = some rel'[k] := List.getElem?_eq_getElem hk'
  have hsame : rel[k].request = rel'[k].request := by
    funext i
    have hone := congrArg (·[k]?) (hrequests i)
    simpa only [List.getElem?_map, hget, hget', Option.map_some, Option.some.injEq] using hone
  have hplaced : placedOver s k = placedOver s' k := by
    rw [hfull k rel[k].request (fun i => by rw [h.due i, List.getElem?_map, hget]; rfl) first,
      hfull' k rel[k].request (fun i => by rw [h'.due i, List.getElem?_map, hget', hsame]; rfl) first]
  rw [h.placedOver_eq hget, h'.placedOver_eq hget'] at hplaced
  rw [sum_setDraws first (fun i => h.outline _ (List.getElem_mem hk) i first) (h.lost_eq hlost (List.getElem_mem hk)),
    sum_setDraws first (fun i => h'.outline _ (List.getElem_mem hk') i first)
      (h'.lost_eq hlost' (List.getElem_mem hk')), hplaced, hsame]

end Sum

/-! ## The whole step -/

section Step

variable [Scalar α] [Generator γ] {ranks : Nat}

/-- A step in which the sets that are due are released takes exactly the draws of
these sets on each rank; one that is skipped, or that reports a faulty setup, takes
none. So the draws of a step over all ranks are the same for any streams, if
nothing is lost and all or none of each set is placed. -/
theorem draws_accounted :
    (∀ (env : Fin ranks → Surroundings α ω) (registry : Fin ranks → Registry α) (rs : Fin ranks → Run α γ ω)
      (time : TimeStep α) (wantedLevel : Fin ranks → Nat)
      (outs : Fin ranks → Except (Halt α) (StepOutcome α) × Run α γ ω),
      Shared env registry rs →
      Group.run (List.ofFn fun i => (inject (env i) (registry i) time (wantedLevel i)).on (rs i)) =
        some (List.ofFn outs) →
      ∀ i s, (outs i).1 = .ok (.injected s) → ∃ s ts rel, outs = (fun j => (.ok (.injected (s j)), ts j)) ∧
        Accounted env registry time wantedLevel rs s ts ∧ Drawn env registry time rs s ts rel) ∧
    (∀ (env : Surroundings α ω) (registry : Registry α) (time : TimeStep α) (wantedLevel : Nat) (r r' : Run α γ ω),
      (∃ current projected ceiling,
        (inject env registry time wantedLevel).Yields r (.skipped current projected ceiling) r') ∨
      (∃ issues, (inject env registry time wantedLevel).Errs r (.setup issues) r') → r'.draws = r.draws) ∧
    ∀ (env : Fin ranks → Surroundings α ω) (registry : Fin ranks → Registry α) (rs rs' : Fin ranks → Run α γ ω)
      (time : TimeStep α) (wantedLevel : Fin ranks → Nat) (s s' : Fin ranks → StepSummary α)
      (ts ts' : Fin ranks → Run α γ ω) (full : (Fin ranks → Request α) → Bool),
      Shared env registry rs → Shared env registry rs' → (∀ i, (rs i).census = (rs' i).census) →
      Results (fun i => inject (env i) (registry i) time (wantedLevel i)) rs (fun i => .injected (s i)) ts →
      Results (fun i => inject (env i) (registry i) time (wantedLevel i)) rs' (fun i => .injected (s' i)) ts' →
      (∀ i, lostIn (s i).sets = 0) → (∀ i, lostIn (s' i).sets = 0) →
      PlacesAllOrNone registry time rs full s → PlacesAllOrNone registry time rs' full s' →
      ∑ i, ((ts i).draws - (rs i).draws) = ∑ i, ((ts' i).draws - (rs' i).draws) := by
  refine ⟨?_, ?_, ?_⟩
  · intro env registry rs time wantedLevel outs h hrun i s hi
    obtain ⟨s, ts, rfl, haccounted⟩ := accounted_of_run h hrun hi
    obtain ⟨rel, hdrawn⟩ := drawn_of_run h hrun
    exact ⟨s, ts, rel, rfl, haccounted, hdrawn⟩
  · rintro env registry time wantedLevel r r' (⟨current, projected, ceiling, h⟩ | ⟨issues, h⟩)
    · exact draws_of_skipped h
    · exact draws_of_setup h
  · intro env registry rs rs' time wantedLevel s s' ts ts' full h h' hcensus hrun hrun' hlost hlost' hfull hfull'
    obtain ⟨rel, hdrawn⟩ := drawn_of_run h hrun
    obtain ⟨rel', hdrawn'⟩ := drawn_of_run h' hrun'
    exact hdrawn.sum_draws_eq hdrawn' ⟨0, h.ranks_pos⟩ (fun i => by rw [dueSets, dueSets, hcensus i]) hlost hlost' hfull
      hfull'

end Step

/-! ## A pair with two seeds -/

/-- The pair's zone with a set of four particles whose diameters are spread. -/
def spreadRegistry (i : Fin 2) : Registry ℚ :=
  { boundary := (pairRegistry ![0, 0] i).boundary.map fun entry =>
      { entry with sets := [{ InjectionSet.standard with count := 4, diameter := 1, diameterDeviation := 1 / 10 }] } }

/-- The pair without hooks, and with a tracker that finds all particles. -/
def calmEnv (i : Fin 2) : Surroundings ℚ Unit :=
  { pairEnv i with hooks := .none, tracker := { relocate := fun _ ps _ w => ((ps, []), w) } }

def seededRuns (seed : UInt64) (i : Fin 2) : Run ℚ ChaCha.State Unit :=
  { pairRuns 10 i with injector := { (pairRuns 10 i).injector with stream := .ofSeed seed } }

theorem calmShared (seed : UInt64) : Shared calmEnv spreadRegistry (seededRuns seed) where
  ranks_pos := Nat.two_pos
  seated _ := rfl
  settings _ _ := by simp only [seededRuns, pairRuns]
  census _ _ := rfl
  outline _ _ := rfl

theorem counts_spreadRegistry :
    ∀ i, ((spreadRegistry i).requests.filter (dueAt firstStep 0)).map (·.set.count) = [4] := by
  decide +kernel

/-- One set was released, and the four particles of it over both ranks were all kept. -/
def keptAll (out : PairEnd) : Bool :=
  match out.1 with
  | .ok (.injected s) => s.sets.length == 1 && lostIn s.sets == 0 && out.2.census.total == 4
  | _ => false

theorem placesAll_of_keptAll {seed : UInt64} {s : Fin 2 → StepSummary ℚ} {ts : Fin 2 → Run ℚ ChaCha.State Unit}
    (haccounted : Accounted calmEnv spreadRegistry firstStep (fun _ => 0) (seededRuns seed) s ts)
    (htest : ∀ i, keptAll (.ok (.injected (s i)), ts i) = true) :
    (∀ i, lostIn (s i).sets = 0) ∧
      PlacesAllOrNone spreadRegistry firstStep (seededRuns seed) (fun _ => true) s := by
  have hparts : ∀ i, ((s i).sets.length = 1 ∧ lostIn (s i).sets = 0) ∧ (ts i).census.total = 4 := by
    intro i
    simpa only [keptAll, Bool.and_eq_true, beq_iff_eq] using htest i
  have hone : ∀ i, ∃ x, (s i).sets = [x] := fun i => List.length_eq_one_iff.1 (hparts i).1.1
  choose x hx using hone
  have hlost : ∀ i, (x i).lost = 0 := by
    intro i
    simpa [lostIn, hx i] using (hparts i).1.2
  have hsum : ∑ i, (x i).kept = 4 := by
    have htotal := (Count.add_eq_ok.1 (haccounted.census 0).total).1
    rw [(hparts 0).2] at htotal
    simpa [keptIn, hx, seededRuns, pairRuns, Census.zero] using htotal.symm
  refine ⟨fun i => (hparts i).1.2, fun k q hq i => ?_⟩
  have hget := congrArg (·[k]?) (counts_spreadRegistry i)
  have hdue : ((spreadRegistry i).requests.filter (dueAt firstStep 0))[k]? = some (q i) := hq i
  simp only [List.getElem?_map, hdue] at hget
  cases k with
  | zero =>
    have hcount : (q i).set.count = 4 := by simpa using hget
    rw [if_pos rfl, hcount, ← hsum]
    refine Finset.sum_congr rfl fun j _ => ?_
    rw [hx j, List.getElem?_cons_zero, Option.map_some, Option.getD_some, hlost j, Nat.add_zero]
  | succ k => simp at hget

/-- The pair takes as many draws with one seed as with another, and none in a step that is skipped. -/
theorem draws_accounted_onPair : ∃ (s s' : Fin 2 → StepSummary ℚ) (ts ts' : Fin 2 → Run ℚ ChaCha.State Unit),
    Results (fun i => inject (calmEnv i) (spreadRegistry i) firstStep 0) (seededRuns 1) (fun i => .injected (s i)) ts ∧
    Results (fun i => inject (calmEnv i) (spreadRegistry i) firstStep 0) (seededRuns 2) (fun i => .injected (s' i))
      ts' ∧
    (∃ rel, Drawn calmEnv spreadRegistry firstStep (seededRuns 1) s ts rel) ∧
    ∑ i, ((ts i).draws - (seededRuns 1 i).draws) = ∑ i, ((ts' i).draws - (seededRuns 2 i).draws) ∧
    ∃ r', (inject (pairEnv 0) (pairRegistry ![0, 0] 0) firstStep 0).Yields (pairRuns 3 0) (.skipped 0 4 3) r' ∧
      r'.draws = (pairRuns 3 0).draws := by
  have hall : ∀ seed, seed = 1 ∨ seed = 2 → (Group.run (List.ofFn fun i =>
      (inject (calmEnv i) (spreadRegistry i) firstStep 0).on (seededRuns seed i))).map
        (·.all fun out => releasedCount 4 out && keptAll out) = some true := by
    rintro _ (rfl | rfl) <;> decide +kernel
  have hskip : (Group.run (List.ofFn (pairStep ![0, 0] 3))).map (·.all (skippedAt 0 4 3)) = some true := by
    decide +kernel
  obtain ⟨s, ts, hrun, htest⟩ := released_of_all keptAll (hall 1 (.inl rfl))
  obtain ⟨s', ts', hrun', htest'⟩ := released_of_all keptAll (hall 2 (.inr rfl))
  obtain ⟨hinjected, hidle, hseeds⟩ := @draws_accounted ℚ ChaCha.State Unit _ _ 2
  have hbooks : ∀ {seed s ts}, Results (fun i => inject (calmEnv i) (spreadRegistry i) firstStep 0) (seededRuns seed)
      (fun i => .injected (s i)) ts → Accounted calmEnv spreadRegistry firstStep (fun _ => 0) (seededRuns seed) s ts ∧
        ∃ rel, Drawn calmEnv spreadRegistry firstStep (seededRuns seed) s ts rel := by
    intro seed s ts hrun
    obtain ⟨s₀, ts₀, rel, houts, haccounted, hdrawn⟩ := hinjected _ _ _ _ _ _ (calmShared seed) hrun 0 (s 0) rfl
    obtain rfl : ts = ts₀ := funext fun i => congrArg Prod.snd (congrFun houts i)
    obtain rfl : s = s₀ := funext fun i => by
      simpa only [Except.ok.injEq, StepOutcome.injected.injEq] using congrArg Prod.fst (congrFun houts i)
    exact ⟨haccounted, rel, hdrawn⟩
  obtain ⟨hlost, hfull⟩ := placesAll_of_keptAll (hbooks hrun).1 fun i => (htest i).2
  obtain ⟨hlost', hfull'⟩ := placesAll_of_keptAll (hbooks hrun').1 fun i => (htest' i).2
  refine ⟨s, s', ts, ts', hrun, hrun', (hbooks hrun).2, ?_, ?_⟩
  · exact hseeds _ _ _ _ _ _ _ _ _ _ _ (calmShared 1) (calmShared 2) (fun _ => rfl) hrun hrun' hlost hlost' hfull hfull'
  · obtain ⟨outs, hrun, hskipped⟩ := Group.results_of_all _ hskip
    have hyields : (inject (pairEnv 0) (pairRegistry ![0, 0] 0) firstStep 0).Yields (pairRuns 3 0) (.skipped 0 4 3)
        (outs 0).2 := by
      rw [Yields, ← eq_of_skippedAt (hskipped 0)]
      exact Group.can_of_run hrun 0
    exact ⟨_, hyields, hidle _ _ _ _ _ _ (.inl ⟨_, _, _, hyields⟩)⟩

end Injector
end Inflow
