import Mathlib
import Inflow.Proofs.Injector.Upholds
import Inflow.Proofs.Injector.Accounting
/-!
# Older particles

A step works on the end of the population and never on the particles before it:
not in the work of a set, not where hooks and the tracker take a hand, and not
where it is given up halfway. What it upholds in all of these is that a list of
particles stands at the front.
-/

namespace Inflow

variable {α γ ω : Type}

namespace Injector

open Step

variable {r r' : Run α γ ω} {old : List (Particle α)}

/-! ## Particles at the front -/

/-- The particles `old` are the first in the population. -/
def Holds (old : List (Particle α)) (r : Run α γ ω) : Prop := old <+: r.injector.population.particles.toList

theorem Holds.length_le (h : Holds old r) : old.length ≤ r.injector.population.size := by
  rw [Population.size, ← Array.length_toList]
  exact List.IsPrefix.length_le h

/-- Other particles in the place of those from `start` on leave those before it where they are. -/
theorem Holds.withTail (h : Holds old r) {start : Nat} (hstart : old.length ≤ start) (ps : Array (Particle α)) :
    old <+: (r.injector.population.withTail start ps).particles.toList := by
  rw [Population.withTail, Array.toList_append, Array.toList_shrink]
  exact (List.prefix_take_iff.2 ⟨h, hstart⟩).trans (List.prefix_append _ _)

theorem Holds.removeFrom (h : Holds old r) {start : Nat} (hstart : old.length ≤ start) (lost : List Nat) :
    old <+: (r.injector.population.removeFrom start lost).2.particles.toList := by
  rw [Population.removeFrom_eq]
  exact h.withTail hstart _

variable [Scalar α]

theorem Holds.appendBlank (h : Holds old r) {memory : Memory} {n : Nat}
    {change : Population.Change α GrowthError Span}
    (hchange : r.injector.population.appendBlankFrom memory n = .ok change) :
    old <+: change.population.particles.toList := by
  obtain ⟨e | range, population⟩ := change
  · rw [Population.appendBlankFrom_failed hchange]
    exact h
  · rw [(Population.appendBlankFrom_ok hchange).2.1, Array.toList_append]
    exact List.IsPrefix.trans h (List.prefix_append _ _)

/-! ## The work of a set -/

variable [Generator γ] {env : Surroundings α ω} {q : Request α}

theorem upholds_openSet (h : Holds old r) : (openSet env q : Step α γ ω _).Upholds (Holds old) r := by
  unfold openSet
  refine upholds_agree_bind h fun _ _ => upholds_get_bind (upholds_meet_bind h fun laid => ?_)
  refine upholds_check_bind h fun layout _ => upholds_modify_bind (upholds_modify_bind (upholds_modify_bind ?_))
  refine upholds_get_bind (upholds_check_bind h fun grown hgrown => upholds_modify_bind ?_)
  exact upholds_agree_bind (h.appendBlank hgrown) fun _ _ => upholds_pure _ (h.appendBlank hgrown)

theorem upholds_releaseFresh {dtp : α} {index : List Nat} {start : Nat} {faces : Option (Array Nat)} (h : Holds old r)
    (hstart : old.length ≤ start) :
    (releaseFresh env q dtp index start faces : Step α γ ω _).Upholds (Holds old) r := by
  unfold releaseFresh
  refine upholds_fresh_bind (upholds_check_bind h fun placed _ => upholds_draw_bind (fun _ => h) fun ready stream => ?_)
  exact upholds_runHook_bind (fun _ => h) fun moved _ => upholds_modify (h.withTail hstart _)

omit [Generator γ] in
theorem upholds_relocateFresh {start : Nat} {faces globalFaces : Option (Array Nat)} (h : Holds old r)
    (hstart : old.length ≤ start) :
    (relocateFresh env q start faces globalFaces : Step α γ ω _).Upholds (Holds old) r := by
  unfold relocateFresh
  refine upholds_fresh_bind (upholds_check_bind h fun displaced _ => upholds_meet_bind h fun someone => ?_)
  split
  · refine upholds_get_bind (upholds_modify_bind (upholds_modify_bind ?_))
    have hlocated : ∀ (ps : Array (Particle α)) (outside : ω), Holds old { r with
        injector := { r.injector with population := r.injector.population.withTail start ps }, outside } :=
      fun ps _ => h.withTail hstart ps
    split
    · exact upholds_pure _ (hlocated _ _)
    · refine upholds_get_bind (upholds_modify_bind (upholds_modify_bind (upholds_pure _ ?_)))
      exact (hlocated _ _).removeFrom hstart _
  · exact upholds_pure _ h

theorem upholds_finishFresh {dtp : α} {level start : Nat} {faces : Option (Array Nat)} (h : Holds old r)
    (hstart : old.length ≤ start) :
    (finishFresh env q dtp level start faces : Step α γ ω _).Upholds (Holds old) r := by
  unfold finishFresh
  refine upholds_get_bind (upholds_fresh_bind (upholds_draw_bind (fun _ => h) fun ready stream => ?_))
  exact upholds_runHook_bind (fun _ => h) fun modified _ => upholds_modify (h.withTail hstart _)

omit [Scalar α] [Generator γ] in
theorem upholds_recordInflow {ps : List (Particle α)} {faces globalFaces : List Nat} (h : Holds old r) :
    (recordInflow ps faces globalFaces : Step α γ ω _).Upholds (Holds old) r := by
  induction ps, faces, globalFaces using recordInflow.induct generalizing r with
  | case1 p ps face faces globalFace globalFaces ih =>
    rw [recordInflow, recordEvent]
    exact upholds_modify_bind (ih h)
  | case2 ps faces globalFaces hnone =>
    rw [recordInflow.eq_2 _ _ _ hnone]
    exact upholds_pure _ h

omit [Scalar α] [Generator γ] in
theorem upholds_recordFresh {start : Nat} {faces globalFaces : Option (Array Nat)} (h : Holds old r) :
    (recordFresh env start faces globalFaces : Step α γ ω _).Upholds (Holds old) r := by
  unfold recordFresh
  split
  · refine upholds_get_bind ?_
    split
    · refine upholds_modify_bind ?_
      have hroom : ∀ events, Holds old { r with injector := { r.injector with events } } := fun _ => h
      split
      · exact upholds_bind (upholds_throw _ (hroom _)) fun _ _ hy => (yields_throw.1 hy).elim
      · exact upholds_fresh_bind (upholds_recordInflow (hroom _))
    · exact upholds_pure _ h
  · exact upholds_pure _ h

omit [Generator γ] in
theorem upholds_closeSet {start : Nat} (h : Holds old r) :
    (closeSet q start : Step α γ ω _).Upholds (Holds old) r := by
  unfold closeSet
  refine upholds_fresh_bind (upholds_get_bind (upholds_check_bind h fun violations _ => ?_))
  refine upholds_agree_bind h fun _ _ => upholds_get_bind (upholds_check_bind h fun flow _ => upholds_modify_bind ?_)
  refine upholds_get_bind (upholds_check_bind h fun population hpopulation => ?_)
  refine upholds_modify_bind (upholds_pure _ ?_)
  rw [Holds, (Population.recordReleased_ok _ hpopulation).2]
  exact h

theorem upholds_fillSet {dtp : α} {level start : Nat} {index : List Nat} (h : Holds old r)
    (hstart : old.length ≤ start) : (fillSet env dtp level q index start : Step α γ ω _).Upholds (Holds old) r := by
  unfold fillSet
  refine upholds_check_bind h fun faces _ => ?_
  refine upholds_bind (upholds_releaseFresh h hstart) fun _ _ _ h => ?_
  refine upholds_bind (upholds_relocateFresh h hstart) fun _ _ _ h => ?_
  refine upholds_bind (upholds_finishFresh h hstart) fun _ _ _ h => ?_
  refine upholds_bind (upholds_recordFresh h) fun _ _ _ h => ?_
  exact upholds_bind (upholds_closeSet h) fun _ _ _ h => upholds_pure _ h

/-- The work of a set begins at the end of the population. -/
theorem upholds_injectSet {dtp : α} {level : Nat} (h : Holds old r) :
    (injectSet env dtp level q : Step α γ ω _).Upholds (Holds old) r := by
  rw [injectSet_eq]
  refine upholds_bind (upholds_openSet h) fun opened m hopen hm => upholds_fillSet hm ?_
  obtain ⟨-, hstart, -⟩ := yields_openSet hopen
  exact h.length_le.trans_eq hstart.symm

/-! ## The sets of a step -/

/-- The course of a step through its sets, with the runs after those that it has
released: a set is passed over if it is not due, and where one cannot be told to
be due, or is given up, that is the end. -/
inductive Trail (env : Surroundings α ω) (time : TimeStep α) (level : Nat) :
    List (Request α) → Run α γ ω → List (Run α γ ω) → Run α γ ω → Prop
  | finished (r : Run α γ ω) : Trail env time level [] r [] r
  | untold {q qs r f} (untold : q.set.isDue time.step time.start r.census.cumulativeTotal = .error f) :
      Trail env time level (q :: qs) r [] r
  | passed {q qs r ms r'} (idle : q.set.isDue time.step time.start r.census.cumulativeTotal = .ok false)
      (rest : Trail env time level qs r ms r') : Trail env time level (q :: qs) r ms r'
  | released {q qs r s m ms r'} (due : q.set.isDue time.step time.start r.census.cumulativeTotal = .ok true)
      (set : ((injectSet env time.dtp level q).on r).Can (.ok s, m)) (rest : Trail env time level qs m ms r') :
      Trail env time level (q :: qs) r (m :: ms) r'
  | givenUp {q qs r halt r'} (due : q.set.isDue time.step time.start r.census.cumulativeTotal = .ok true)
      (set : ((injectSet env time.dtp level q).on r).Can (.error halt, r')) : Trail env time level (q :: qs) r [] r'

/-- Each of the particles is still there, at the same index and with the same contents. -/
def KeepsOlder (ps ps' : Array (Particle α)) : Prop := ∀ (i : Nat) (p : Particle α), ps[i]? = some p → ps'[i]? = some p

omit [Scalar α] in
theorem keepsOlder_of_prefix {ps ps' : Array (Particle α)} (h : ps.toList <+: ps'.toList) : KeepsOlder ps ps' := by
  intro i p hp
  rw [← Array.getElem?_toList] at *
  obtain ⟨hlt, rfl⟩ := List.getElem?_eq_some_iff.1 hp
  exact List.prefix_iff_getElem?.1 h i hlt

variable {time : TimeStep α} {level : Nat}

theorem keepsOlder_injectSet {dtp : α} {out : Except (Halt α) SetSummary}
    (h : ((injectSet env dtp level q).on r).Can (out, r')) :
    KeepsOlder r.injector.population.particles r'.injector.population.particles :=
  keepsOlder_of_prefix ((upholds_injectSet (List.prefix_refl _)).of_can h)

/-- Wherever the sets of a step come to, there is a trail to it. -/
theorem exists_trail {qs : List (Request α)} {out : Except (Halt α) (List SetSummary)}
    (h : ((injectDue env time level qs).on r).Can (out, r')) : ∃ ms, Trail env time level qs r ms r' := by
  induction qs generalizing r out with
  | nil =>
    cases h
    exact ⟨[], .finished _⟩
  | cons q qs ih =>
    cases hdue : q.set.isDue time.step time.start r.census.cumulativeTotal with
    | error f =>
      rw [injectDue, on_bind, on_get, Program.done_bind, andThen] at h
      simp only [hdue] at h
      cases h
      exact ⟨[], .untold hdue⟩
    | ok due =>
      rw [on_injectDue_cons hdue] at h
      cases due with
      | false =>
        obtain ⟨ms, hms⟩ := ih h
        exact ⟨ms, .passed hdue hms⟩
      | true =>
        rw [if_pos rfl, on_bind, Program.can_bind] at h
        obtain ⟨⟨halt | s, m⟩, hset, h⟩ := h
        · cases h
          exact ⟨[], .givenUp hdue hset⟩
        · rw [andThen, on_bind, Program.can_bind] at h
          obtain ⟨⟨_ | _, _⟩, hrest, h⟩ := h
          all_goals
            cases h
            obtain ⟨ms, hms⟩ := ih hrest
            exact ⟨m :: ms, .released hdue hset hms⟩

/-- Along a trail each run has all particles of those before it. -/
theorem Trail.keepsOlder {qs : List (Request α)} {ms : List (Run α γ ω)} (h : Trail env time level qs r ms r') :
    ((r :: ms ++ [r']).map fun m => m.injector.population.particles).Pairwise KeepsOlder := by
  have hcons : ∀ {ps ps' : Array (Particle α)} {rest : List (Array (Particle α))}, KeepsOlder ps ps' →
      (ps' :: rest).Pairwise KeepsOlder → (ps :: ps' :: rest).Pairwise KeepsOlder := by
    intro ps ps' rest hps hrest
    refine List.pairwise_cons.2 ⟨fun x hx => ?_, hrest⟩
    rcases List.mem_cons.1 hx with rfl | hx
    · exact hps
    · exact fun i p hp => (List.pairwise_cons.1 hrest).1 x hx i p (hps i p hp)
  induction h with
  | finished r | untold => exact hcons (fun _ _ hp => hp) (List.pairwise_singleton _ _)
  | passed _ _ ih => exact ih
  | released _ hset _ ih => exact hcons (keepsOlder_injectSet hset) ih
  | givenUp _ hset => exact hcons (keepsOlder_injectSet hset) (List.pairwise_singleton _ _)

/-! ## The whole step -/

/-- The step has come to no set: its setup is faulty, it is skipped, or it stops at a fault. -/
def ReleasesNone (out : Except (Halt α) (StepOutcome α)) : Prop :=
  (∃ issues, out = .error (.error (.setup issues))) ∨
    (∃ current projected ceiling, out = .ok (.skipped current projected ceiling)) ∨ ∃ f, out = .error (.fault f)

variable {registry : Registry α}

omit [Generator γ] in
/-- A step begins, or stops at a fault; either way it has not touched a particle. -/
theorem begun_or_fault {out : Except (Halt α) Unit} {m : Run α γ ω} (h : ((beginStep registry).on r).Can (out, m)) :
    m.injector.population.particles = r.injector.population.particles ∧
      ((∃ f, out = .error (.fault f)) ∨ out = .ok () ∧ ∃ flow, m = begun r flow) := by
  have hkeeps : (beginStep registry : Step α γ ω Unit).Upholds
      (·.injector.population.particles = r.injector.population.particles) r := by
    unfold beginStep
    refine upholds_modify_bind (upholds_get_bind (upholds_check_bind rfl fun slots _ => ?_))
    exact upholds_check_bind rfl fun flow _ => upholds_modify rfl
  refine ⟨hkeeps.of_can h, ?_⟩
  obtain ⟨out', hout, hquiet⟩ := quiet_beginStep registry r
  rw [hout, Program.can_done] at h
  subst h
  rcases out with (f | e) | u
  · exact .inl ⟨f, rfl⟩
  · exact absurd rfl (hquiet e)
  · have hcan : ((beginStep registry).on r).Can (.ok u, m) := by rw [hout]; rfl
    obtain ⟨flow, -, rfl⟩ := yields_beginStep.1 (yields_of_can hcan)
    exact .inr ⟨rfl, flow, rfl⟩

omit [Generator γ] in
/-- A step that is skipped has the particles that it began with. -/
theorem releasesNone_skip {out : Except (Halt α) (StepOutcome α)} (h : ((skip registry time).on r).Can (out, r')) :
    r'.injector.population.particles = r.injector.population.particles ∧ ReleasesNone out := by
  rw [skip, on_bind, Program.can_bind] at h
  obtain ⟨⟨out₁, m⟩, hbegin, h⟩ := h
  obtain ⟨hsame, ⟨f, rfl⟩ | ⟨rfl, flow, rfl⟩⟩ := begun_or_fault hbegin
  · cases h
    exact ⟨hsame, .inr (.inr ⟨f, rfl⟩)⟩
  · cases h
    exact ⟨hsame, .inr (.inl ⟨_, _, _, rfl⟩)⟩

omit [Generator γ] in
/-- The end of a step is entered into the census and the sink. -/
theorem particles_of_conclude {env : Surroundings α ω} {sets : List SetSummary} {out : Except (Halt α) (StepOutcome α)}
    (h : ((conclude env time sets).on r).Can (out, r')) :
    r'.injector.population.particles = r.injector.population.particles := by
  rw [conclude, on_bind, on_endStep, Program.can_bind] at h
  obtain ⟨⟨out₁, m⟩, hend, h⟩ := h
  rw [Program.can_bind] at hend
  obtain ⟨entered, -, hend⟩ := hend
  rw [Program.can_done] at hend
  cases hfault : entered.fault with
  | some f =>
    rw [endWith_of_some hfault] at hend
    cases hend
    cases h
    rfl
  | none =>
    rw [endWith_of_none hfault] at hend
    cases hend
    cases h
    rfl

/-- Whatever a step comes to, every particle from before it is still there, at the
same index and with the same contents. Unless the step comes to no set, it goes
through the sets of the registry, and what the population is after each of those
that it releases is kept in the same way up to its end. -/
theorem older_particles_undisturbed {wantedLevel : Nat} {out : Except (Halt α) (StepOutcome α)}
    (h : ((inject env registry time wantedLevel).on r).Can (out, r')) :
    KeepsOlder r.injector.population.particles r'.injector.population.particles ∧
      (r'.injector.population.particles = r.injector.population.particles ∧ ReleasesNone out ∨
        ∃ flow ms t, Trail env time (env.fluid.level wantedLevel) registry.requests (begun r flow) ms t ∧
          t.injector.population.particles = r'.injector.population.particles ∧
          ((r :: ms ++ [r']).map fun m => m.injector.population.particles).Pairwise KeepsOlder) := by
  have hnone : r'.injector.population.particles = r.injector.population.particles ∧ ReleasesNone out →
      KeepsOlder r.injector.population.particles r'.injector.population.particles := by
    rintro ⟨hsame, -⟩
    rw [hsame]
    exact fun _ _ hp => hp
  rw [on_inject] at h
  split at h
  · split at h
    · have hskip := releasesNone_skip h
      exact ⟨hnone hskip, .inl hskip⟩
    · rw [release, releaseSets, bind_assoc, on_bind, Program.can_bind] at h
      obtain ⟨⟨out₁, m⟩, hbegin, h⟩ := h
      obtain ⟨hsame, ⟨f, rfl⟩ | ⟨rfl, flow, rfl⟩⟩ := begun_or_fault hbegin
      · cases h
        have hfault : ReleasesNone (.error (.fault f) : Except (Halt α) (StepOutcome α)) := .inr (.inr ⟨f, rfl⟩)
        exact ⟨hnone ⟨hsame, hfault⟩, .inl ⟨hsame, hfault⟩⟩
      · rw [andThen, on_bind, Program.can_bind] at h
        obtain ⟨⟨out₂, t⟩, hdue, h⟩ := h
        obtain ⟨ms, htrail⟩ := exists_trail hdue
        have hend : t.injector.population.particles = r'.injector.population.particles := by
          cases out₂ with
          | error halt => cases h; rfl
          | ok sets => exact (particles_of_conclude h).symm
        have hpairs := htrail.keepsOlder
        simp only [List.cons_append, List.map_cons, List.map_append, List.map_nil, hend, hsame] at hpairs ⊢
        refine ⟨(List.pairwise_cons.1 hpairs).1 _ (by simp), .inr ⟨flow, ms, t, htrail, hend, hpairs⟩⟩
  · cases h
    have hsetup : ReleasesNone (.error (.error (.setup (registry.issues r.injector.settings.model))) :
        Except (Halt α) (StepOutcome α)) := .inl ⟨_, rfl⟩
    exact ⟨hnone ⟨rfl, hsetup⟩, .inl ⟨rfl, hsetup⟩⟩

/-! ## A pair with a particle from before -/

/-- A particle that was there before the step. -/
def olderParticle : Particle ℚ := { Particle.blank with mass := 5, position := .onAxis .z 3 }

def olderRuns (i : Fin 2) : Run ℚ ChaCha.State Unit :=
  { pairRuns 10 i with
    injector := { (pairRuns 10 i).injector with
      population := { particles := #[olderParticle], capacity := 1, releasedWeight := 0 } } }

/-- The zone of the pair with two sets. -/
def twoSets (i : Fin 2) : Registry ℚ :=
  { boundary := (pairRegistry ![0, 0] i).boundary.map fun entry =>
      { entry with
        sets := [{ InjectionSet.standard with count := 3 }, { InjectionSet.standard with id := 1, count := 4 }] } }

/-- The particles that are there after each set, where a hook moves the fresh ones
of one rank and the tracker loses some of them. -/
theorem older_particles_undisturbed_onPair : ∃ (s : Fin 2 → StepSummary ℚ) (ts : Fin 2 → Run ℚ ChaCha.State Unit),
    Group.run (List.ofFn fun i => (inject (pairEnv i) (twoSets i) firstStep 0).on (olderRuns i)) =
      some (List.ofFn fun i => (.ok (.injected (s i)), ts i)) ∧
    ∀ i, (s i).released = 4 ∧ (ts i).injector.population.particles[0]? = some olderParticle ∧
      ∃ flow ms t, Trail (pairEnv i) firstStep 0 (twoSets i).requests (begun (olderRuns i) flow) ms t ∧
        ((olderRuns i :: ms ++ [ts i]).map fun m => m.injector.population.particles).Pairwise KeepsOlder := by
  have hall : (Group.run (List.ofFn fun i => (inject (pairEnv i) (twoSets i) firstStep 0).on (olderRuns i))).map
      (·.all fun out => releasedCount 4 out && true) = some true := by decide +kernel
  obtain ⟨s, ts, hrun, hreleased⟩ := released_of_all (fun _ => true) hall
  refine ⟨s, ts, hrun, fun i => ⟨(hreleased i).1, ?_⟩⟩
  obtain ⟨hkept, hsets⟩ := older_particles_undisturbed (Group.can_of_run hrun i)
  refine ⟨hkept 0 olderParticle rfl, ?_⟩
  obtain ⟨-, ⟨_, h⟩ | ⟨_, _, _, h⟩ | ⟨_, h⟩⟩ | ⟨flow, ms, t, htrail, -, hpairs⟩ := hsets
  · cases h
  · cases h
  · cases h
  · exact ⟨flow, ms, t, htrail, hpairs⟩

end Injector
end Inflow
