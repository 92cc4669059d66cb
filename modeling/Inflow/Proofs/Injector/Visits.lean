import Inflow.Proofs.Injector.Passage
/-!
# The sets of a step, one after the other

In a step that all ranks come out of, the group has released the sets that were
due, each where the one before has left the ranks. A visit is one such release,
with the runs before and after it. What a release does to a run is so summed up
by an induction on the visits.
-/

namespace Inflow.Injector

open Step

variable {α γ ω : Type}

/-- A set that a group has released: the set as each rank has it, and what came of it there. -/
structure SetRelease (α : Type) (ranks : Nat) where
  request : Fin ranks → Request α
  summary : Fin ranks → SetSummary

/-- The release of a set by a group, with the runs that it began and ended with. -/
structure Visit (α γ ω : Type) (ranks : Nat) extends SetRelease α ranks where
  before : Fin ranks → Run α γ ω
  after : Fin ranks → Run α γ ω

/-- The particles that a rank has kept of a set. -/
def Visit.kept (v : Visit α γ ω ranks) (i : Fin ranks) : List (Particle α) := gainedSince (v.before i) (v.after i)

/-- Lists of one length, one for each rank, are one list of what stands in each place. -/
theorem exists_columns {β : Type} {ranks : Nat} {xs : Fin ranks → List β} (first : Fin ranks)
    (h : ∀ i, (xs i).length = (xs first).length) : ∃ cols : List (Fin ranks → β), ∀ i, xs i = cols.map (· i) := by
  refine ⟨List.ofFn fun (k : Fin (xs first).length) i => (xs i).get (k.cast (h i).symm), fun i => ?_⟩
  rw [List.map_ofFn]
  refine List.ext_getElem (by rw [List.length_ofFn, h i]) fun k _ _ => ?_
  rw [List.getElem_ofFn]
  rfl

/-- Amounts of all ranks for all entries of a list, added up rank by rank or entry by entry. -/
theorem sum_sum_map {M β : Type} [AddCommMonoid M] {ranks : Nat} (f : β → Fin ranks → M) (xs : List β) :
    ∑ i, (xs.map fun x => f x i).sum = (xs.map fun x => ∑ i, f x i).sum := by
  induction xs with
  | nil => simp
  | cons x xs ih => simp only [List.map_cons, List.sum_cons, Finset.sum_add_distrib, ih]

section Sets

variable [Scalar α] [Generator γ] {ranks : Nat} {env : Fin ranks → Surroundings α ω} {rs ts : Fin ranks → Run α γ ω}

/-- What all ranks have got out of a set that they have released. -/
theorem laid_of_injectSet (hseat : Seated env) {q : Fin ranks → Request α} {count : Nat}
    (hcount : ∀ i, (q i).set.count = count) (hranks : 0 < ranks) {dtp : α} {level : Fin ranks → Nat}
    {s : Fin ranks → SetSummary} (h : Results (fun i => injectSet (env i) dtp (level i) (q i)) rs s ts) :
    ∃ layouts, LaidOut env q rs layouts ∧ ∀ i, (s i).kept + (s i).lost = (layouts i).placed := by
  obtain ⟨layouts, hlaid, -, hall⟩ := promised_of_results (together_injectSet hseat hcount dtp level) h hranks
  exact ⟨layouts, hlaid, hall⟩

/-- The group has released sets one after the other, beginning with the runs `rs`
and ending with the runs `ts`. -/
inductive Visits (env : Fin ranks → Surroundings α ω) (dtp : α) (level : Fin ranks → Nat) :
    (rs : Fin ranks → Run α γ ω) → List (Visit α γ ω ranks) → (ts : Fin ranks → Run α γ ω) → Prop
  | nil (rs : Fin ranks → Run α γ ω) : Visits env dtp level rs [] rs
  | cons {v : Visit α γ ω ranks} {vs : List (Visit α γ ω ranks)} {ts : Fin ranks → Run α γ ω}
      (released : Results (fun i => injectSet (env i) dtp (level i) (v.request i)) v.before v.summary v.after)
      (rest : Visits env dtp level v.after vs ts) : Visits env dtp level v.before (v :: vs) ts

theorem Visits.released {dtp : α} {level : Fin ranks → Nat} {vs : List (Visit α γ ω ranks)}
    (h : Visits env dtp level rs vs ts) : ∀ v ∈ vs,
      Results (fun i => injectSet (env i) dtp (level i) (v.request i)) v.before v.summary v.after := by
  induction h with
  | nil => exact fun v hv => absurd hv List.not_mem_nil
  | cons released _ ih => exact List.forall_mem_cons.2 ⟨released, ih⟩

/-- The particles that a rank has at the end are those it had and those of all sets, in their order. -/
theorem particles_visits {dtp : α} {level : Fin ranks → Nat} {vs : List (Visit α γ ω ranks)}
    (h : Visits env dtp level rs vs ts) (i : Fin ranks) : (ts i).injector.population.particles.toList =
      (rs i).injector.population.particles.toList ++ vs.flatMap (·.kept i) := by
  induction h with
  | nil rs => simp
  | @cons v vs ts released _ ih =>
    obtain ⟨w, -, -, -, hgrew⟩ := follows_injectSet (released.yields i)
    rw [ih, hgrew.particles, List.flatMap_cons, Visit.kept, hgrew.gainedSince_eq, List.append_assoc]

/-- The group visits the sets that are due, and no others. -/
theorem visits_injectDue (hseat : Seated env) {time : TimeStep α} {level : Fin ranks → Nat} {released : Nat}
    (first : Fin ranks) {cols : List (Fin ranks → Request α)}
    (houtline : ∀ q ∈ cols, ∀ i, (q i).outline = (q first).outline)
    (hreleased : ∀ i, (rs i).census.cumulativeTotal = released) {sets : Fin ranks → List SetSummary}
    (h : Results (fun i => injectDue (env i) time (level i) (cols.map (· i))) rs sets ts) :
    ∃ vs : List (Visit α γ ω ranks),
      vs.map (·.request) = cols.filter (fun q => dueAt time released (q first)) ∧
      (∀ i, sets i = vs.map (·.summary i)) ∧ Visits env time.dtp level rs vs ts := by
  induction cols generalizing rs sets with
  | nil =>
    have hnone : ∀ i, sets i = [] ∧ ts i = rs i := fun i => yields_pure.1 (h.yields i)
    obtain rfl : ts = rs := funext fun i => (hnone i).2
    exact ⟨[], rfl, fun i => (hnone i).1, .nil ts⟩
  | cons q cols ih =>
    have hq : ∀ i, (q i).outline = (q first).outline := houtline q List.mem_cons_self
    have hrest : ∀ p ∈ cols, ∀ i, (p i).outline = (p first).outline :=
      fun p hp => houtline p (List.mem_cons_of_mem q hp)
    have hdue : ∀ i, (q i).set.isDue time.step time.start (rs i).census.cumulativeTotal =
        .ok (dueAt time released (q first)) := by
      intro i
      have hyields := h.yields i
      simp only [List.map_cons, injectDue, yields_bind, yields_get, yields_check] at hyields
      obtain ⟨_, _, ⟨rfl, rfl⟩, due, _, ⟨hdue, rfl⟩, -⟩ := hyields
      rw [hreleased i, Request.isDue_eq_of_outline (hq i)] at hdue ⊢
      rw [dueAt, hdue]
    cases hcase : dueAt time released (q first) with
    | false =>
      have hskip : Results (fun i => injectDue (env i) time (level i) (cols.map (· i))) rs sets ts := by
        rw [Results] at h ⊢
        simpa only [List.map_cons, on_injectDue_cons (hdue _), hcase, Bool.false_eq_true, if_false] using h
      rw [List.filter_cons_of_neg (by simp [hcase])]
      exact ih hrest hreleased hskip
    | true =>
      have hboth : Results (fun i => injectSet (env i) time.dtp (level i) (q i) >>= fun s => do
          let after ← injectDue (env i) time (level i) (cols.map (· i))
          return s :: after) rs sets ts := by
        rw [Results] at h ⊢
        simpa only [List.map_cons, on_injectDue_cons (hdue _), hcase, if_true] using h
      have hcount : ∀ i, (q i).set.count = (q first).set.count := fun i => Request.count_eq_of_outline (hq i)
      obtain ⟨s, ms, -, hset, hafter⟩ :=
        results_split (together_injectSet hseat hcount time.dtp level) hboth first.pos
      have hcensus : ∀ i, (ms i).census.cumulativeTotal = released := by
        intro i
        rw [(yields_injectSet (hset.yields i)).1.census, hreleased i]
      have hmap : ∀ i, (cols.map (· i)).map Request.outline = cols.map fun p => (p first).outline := by
        intro i
        rw [List.map_map]
        exact List.map_congr_left fun p hp => hrest p hp i
      obtain ⟨after, us, -, hdone, hpure⟩ :=
        results_split (together_injectDue hseat time level hmap hcensus) hafter first.pos
      have hlast : ∀ i, sets i = s i :: after i ∧ ts i = us i := fun i => yields_pure.1 (hpure.yields i)
      obtain rfl : ts = us := funext fun i => (hlast i).2
      obtain ⟨vs, hrequests, hsummaries, hvisits⟩ := ih hrest hcensus hdone
      refine ⟨⟨⟨q, s⟩, rs, ms⟩ :: vs, ?_, fun i => ?_, Visits.cons (v := ⟨⟨q, s⟩, rs, ms⟩) hset hvisits⟩
      · rw [List.filter_cons_of_pos (by simp [hcase]), List.map_cons, hrequests]
      · rw [(hlast i).1, hsummaries i, List.map_cons]

/-! ## A whole step -/

variable {registry : Fin ranks → Registry α}

/-- The visits of a step that all ranks come out of with what was due released:
from the runs as they are begun, to runs whose injectors are those at the end. -/
structure Toured (env : Fin ranks → Surroundings α ω) (registry : Fin ranks → Registry α) (time : TimeStep α)
    (wantedLevel : Fin ranks → Nat) (rs : Fin ranks → Run α γ ω) (s : Fin ranks → StepSummary α)
    (ts : Fin ranks → Run α γ ω) (vs : List (Visit α γ ω ranks)) : Prop where
  due : ∀ i, dueSets (registry i) time (rs i) = vs.map (·.request i)
  outline : ∀ v ∈ vs, ∀ i j, (v.request i).outline = (v.request j).outline
  sets : ∀ i, (s i).sets = vs.map (·.summary i)
  visits : ∃ (flow : Fin ranks → FlowRates α) (us : Fin ranks → Run α γ ω),
    (∀ i, freshFlow (registry i) (rs i).injector.settings.model = .ok (flow i)) ∧
    Visits env time.dtp (fun i => (env i).fluid.level (wantedLevel i)) (fun i => begun (rs i) (flow i)) vs us ∧
    ∀ i, (ts i).injector = (us i).injector

theorem Toured.released {time : TimeStep α} {wantedLevel : Fin ranks → Nat} {s : Fin ranks → StepSummary α}
    {vs : List (Visit α γ ω ranks)} (h : Toured env registry time wantedLevel rs s ts vs) {v : Visit α γ ω ranks}
    (hv : v ∈ vs) : Results (fun i => injectSet (env i) time.dtp ((env i).fluid.level (wantedLevel i)) (v.request i))
      v.before v.summary v.after := by
  obtain ⟨_, _, -, hvisits, -⟩ := h.visits
  exact hvisits.released v hv

theorem Toured.mem_requests {time : TimeStep α} {wantedLevel : Fin ranks → Nat} {s : Fin ranks → StepSummary α}
    {vs : List (Visit α γ ω ranks)} (h : Toured env registry time wantedLevel rs s ts vs) {v : Visit α γ ω ranks}
    (hv : v ∈ vs) (i : Fin ranks) : v.request i ∈ (registry i).requests := by
  have hdue : v.request i ∈ dueSets (registry i) time (rs i) := h.due i ▸ List.mem_map_of_mem hv
  exact (List.mem_filter.1 hdue).1

theorem toured_of_run (h : Shared env registry rs) {time : TimeStep α} {wantedLevel : Fin ranks → Nat}
    {s : Fin ranks → StepSummary α}
    (hrun : Results (fun i => inject (env i) (registry i) time (wantedLevel i)) rs (fun i => .injected (s i)) ts) :
    ∃ vs, Toured env registry time wantedLevel rs s ts vs := by
  have first : Fin ranks := ⟨0, h.ranks_pos⟩
  obtain ⟨-, -, sets, us, hresults, hend⟩ := injected_of_run (s := s first) h hrun rfl
  have hsets : ∀ i, (s i).sets = sets i := by
    intro i
    have hsummary := (hend i).summary
    simp only [Except.ok.injEq, StepOutcome.injected.injEq] at hsummary
    rw [hsummary]
    rfl
  obtain ⟨cols, hcols⟩ := exists_columns first fun i => by
    simpa only [List.length_map] using congrArg List.length (h.requests_outline_eq i first)
  have houtline : ∀ q ∈ cols, ∀ i, (q i).outline = (q first).outline := by
    intro q hq i
    obtain ⟨k, hk⟩ := List.mem_iff_getElem?.1 hq
    exact h.outline_eq (k := k) (fun j => by rw [hcols j, List.getElem?_map, hk]; rfl) i first
  obtain ⟨u, ms, hbegun, hdue⟩ := results_after (fun i => quiet_beginStep (registry i)) hresults h.ranks_pos
  choose flow hflow hms using fun i => yields_beginStep.1 (hbegun i)
  obtain rfl : ms = fun i => begun (rs i) (flow i) := funext hms
  simp only [hcols] at hdue
  have hcensus : ∀ i, (begun (rs i) (flow i)).census.cumulativeTotal = (rs first).census.cumulativeTotal :=
    fun i => congrArg Census.cumulativeTotal (h.census i first)
  obtain ⟨vs, hrequests, hsummaries, hvisits⟩ := visits_injectDue h.seated first houtline hcensus hdue
  have hmem : ∀ v ∈ vs, v.request ∈ cols := fun v hv =>
    (List.mem_filter.1 (hrequests ▸ List.mem_map_of_mem hv)).1
  refine ⟨vs, fun i => ?_, fun v hv i j => ?_, fun i => by rw [hsets, hsummaries], flow, us, hflow, hvisits,
    fun i => (hend i).injector⟩
  · have hsame : ∀ q ∈ cols, dueAt time (rs i).census.cumulativeTotal (q i) =
        dueAt time (rs first).census.cumulativeTotal (q first) := by
      intro q hq
      rw [dueAt, dueAt, Request.isDue_eq_of_outline (houtline q hq i), h.census i first]
    have hmap : vs.map (·.request i) = (vs.map (·.request)).map (· i) := by
      rw [List.map_map]
      rfl
    rw [dueSets, hcols i, hmap, hrequests, List.filter_map]
    exact congrArg _ (List.filter_congr hsame)
  · rw [houtline _ (hmem v hv) i, houtline _ (hmem v hv) j]

end Sets

end Inflow.Injector
