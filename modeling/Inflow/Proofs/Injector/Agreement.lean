import Mathlib
import Inflow.Proofs.Injector.Step
import Inflow.Proofs.Scalar.Rational
import Inflow.Random.ChaCha
/-!
# Ranks agree on the outcome of a step

Whatever differs from rank to rank, no rank decides on its own to leave a step:
all ranks meet in the same collectives until they return, and they return the
same kind of outcome.
-/

namespace Inflow.Injector

open Step

variable {α γ ω : Type} [Scalar α] {ranks : Nat} {env : Fin ranks → Surroundings α ω}
  {registry : Fin ranks → Registry α} {rs : Fin ranks → Run α γ ω}

theorem together_skip (time : TimeStep α) {E : (Fin ranks → InjectionError α) → (Fin ranks → Run α γ ω) → Prop} :
    Together (fun i => skip (registry i) time) rs
      (fun outcomes _ => ∀ i, ∃ current projected ceiling, outcomes i = .skipped current projected ceiling) E := by
  unfold skip
  refine together_after (fun _ => quiet_beginStep _) fun _ ms _ => ?_
  exact together_get (together_modify (together_pure fun i => ⟨_, _, _, rfl⟩))

variable [Generator γ]

/-- Ranks that release sets either all give up at the same set or come out with one census. -/
theorem together_release (h : Shared env registry rs) (time : TimeStep α) (wantedLevel : Fin ranks → Nat) :
    Together (fun i => release (env i) (registry i) time (wantedLevel i)) rs
      (fun outcomes ts => (∀ i, ∃ s, outcomes i = .injected s) ∧ ∀ i j, (ts i).census = (ts j).census)
      (GaveUpAmong env (fun i => releaseSets (env i) (registry i) time (wantedLevel i)) (fun i => (registry i).requests)
        rs) := by
  have first : Fin ranks := ⟨0, h.ranks_pos⟩
  unfold release conclude
  refine together_bind (together_releaseSets h time wantedLevel (fun i => h.requests_outline_eq i first) first)
    fun sets us hsets _ => ?_
  refine together_bind (together_endStep time sets) fun s ts _ hcensus =>
    together_pure ⟨fun i => ⟨_, rfl⟩, fun i j => ?_⟩
  have hus : ∀ i, (us i).census = (rs i).census := fun i => (yields_releaseSets (hsets i)).2.1
  rw [hcensus, hcensus, enteredBy, enteredBy, hus, hus, h.census i j]

/-- All ranks meet in the same collectives until one of them stops at a fault or
all return. They all skip the step, or all come out of it with one census, or
all fail: with the same report of a faulty setup, or at the same set, where at
least one rank has found something and every rank that has found nothing says
that a peer has. -/
theorem inject_together (h : Shared env registry rs) (time : TimeStep α) (wantedLevel : Fin ranks → Nat) :
    Together (fun i => inject (env i) (registry i) time (wantedLevel i)) rs
      (fun outcomes ts =>
        (∀ i, ∃ current projected ceiling, outcomes i = .skipped current projected ceiling) ∨
        (∀ i, ∃ s, outcomes i = .injected s) ∧ ∀ i j, (ts i).census = (ts j).census)
      (fun errors ts =>
        (∃ issues, ∀ i, errors i = .setup issues) ∨
        ∃ k place q sets ms, (∀ i, (registry i).requests[k]? = some (q i) ∧ (q i).place = place) ∧
          Results (fun i => releaseSets (env i) (registry i) time (wantedLevel i) ((registry i).requests.take k)) rs
            sets ms ∧
          GaveUp env q ms errors ts) := by
  have first : Fin ranks := ⟨0, h.ranks_pos⟩
  simp only [Together, on_inject]
  by_cases hissues : (registry first).issues (rs first).injector.settings.model = []
  · simp only [fun i => h.issues_eq i first, hissues, if_true]
    by_cases hceiling : PassesCeiling (registry first) (rs first)
    · simp only [fun i => h.passesCeiling_iff i first, hceiling, if_true]
      exact together_imp (together_skip time) (fun _ _ _ hq => .inl hq) fun _ _ he => he
    · simp only [fun i => h.passesCeiling_iff i first, hceiling, if_false]
      refine together_imp (together_release h time wantedLevel) (fun _ _ _ hq => .inr hq) ?_
      rintro es ts ⟨k, q, sets, ms, hk, hbefore, hgave⟩
      exact .inr ⟨k, (q first).place, q, sets, ms,
        fun i => ⟨hk i, Request.place_eq_of_outline (h.outline_eq hk i first)⟩, hbefore, hgave⟩
  · simp only [fun i => h.issues_eq i first, if_neg hissues]
    exact .done (.errors (.inl ⟨_, fun _ => rfl⟩))

/-! ## A pair of ranks -/

/-- How a rank of the pair ends a step. -/
abbrev PairEnd := Except (Halt ℚ) (StepOutcome ℚ) × Run ℚ ChaCha.State Unit

/-- A zone of one face on each of two ranks, and a set that asks for four particles. -/
def pairRegistry (faces : Fin 2 → Nat) (i : Fin 2) : Registry ℚ where
  boundary := [{
    zone := { id := 0, name := "inlet", kind := .boundary, elements := #[faces i] }
    nature := .inlet
    sets := [{ InjectionSet.standard with count := 4 }] }]

/-- The hook of rank 1, which moves all particles to one place. -/
def moveAway : Hook ℚ Unit := fun _ ps w => (.ok (ps.map fun p => { p with position := .onAxis .y 1 }), w)

/-- Each rank has one cell with one face. The tracker loses the first particle
of a rank, which it names twice, and one that there is not. -/
def pairEnv (i : Fin 2) : Surroundings ℚ Unit where
  seat := { rank := i, size := 2 }
  mesh := {
    cellCenters := #[.ofAxes fun _ => 1]
    cellVolumes := #[1]
    faceCenters := #[.onAxis .x 1]
    faceNormals := #[.onAxis .x (-1)]
    faceSurfaces := #[3 * i + 1]
    faceCells := #[0]
    box := none }
  fluid := .uniform (.onAxis .x 1) 300
  hooks := if i.val = 1 then { Hooks.none with move := moveAway } else .none
  tracker := { relocate := fun _ ps _ w => ((ps, [0, 7, 0]), w) }

def pairRuns (ceiling : Nat) (i : Fin 2) : Run ℚ ChaCha.State Unit where
  injector := {
    settings := { ceiling }
    stream := .ofSeed i.val.toUInt64
    population := .empty
    events := {}
    flow := .unset }
  census := .zero
  sink := .recording
  outside := ()

def firstStep : TimeStep ℚ := { step := 1, start := 0, dtp := 1 }

/-- The first step of a rank of the pair. -/
def pairStep (faces : Fin 2 → Nat) (ceiling : Nat) (i : Fin 2) : Program ℚ PairEnd :=
  (inject (pairEnv i) (pairRegistry faces i) firstStep 0).on (pairRuns ceiling i)

theorem pairShared (faces : Fin 2 → Nat) (ceiling : Nat) :
    Shared pairEnv (pairRegistry faces) (pairRuns ceiling) where
  ranks_pos := Nat.two_pos
  seated _ := rfl
  settings _ _ := by simp only [pairRuns]
  census _ _ := rfl
  outline _ _ := rfl

/-- Neither a fault nor a faulty setup, but an error. -/
def givenUp (out : PairEnd) : Bool :=
  match out.1 with
  | .error (.error (.setup _)) => false
  | .error (.error _) => true
  | _ => false

theorem error_of_givenUp {out : PairEnd} (h : givenUp out) : ∃ e, out.1 = .error (.error e) := by
  unfold givenUp at h
  split at h
  · cases h
  · exact ⟨_, ‹_›⟩
  · cases h

/-- A face that rank 1 does not have makes both ranks give up. -/
theorem inject_together_missingFace : ∃ es ts q ms,
    Group.run (List.ofFn (pairStep ![0, 9] 10)) = some (List.ofFn fun i => (.error (.error (es i)), ts i)) ∧
    GaveUp pairEnv q ms es ts := by
  have hall : (Group.run (List.ofFn (pairStep ![0, 9] 10))).map (·.all givenUp) = some true := by decide +kernel
  obtain ⟨outs, hrun, hgave⟩ := Group.results_of_all givenUp hall
  have hfault : ∀ i, ¬ Faulted (outs i) := by
    rintro i ⟨f, hf⟩
    obtain ⟨e, he⟩ := error_of_givenUp (hgave i)
    cases hf.symm.trans he
  cases (inject_together (pairShared ![0, 9] 10) firstStep fun _ => 0).of_run hrun hfault with
  | results h => cases hgave 0
  | errors h =>
    rename_i es ts
    obtain ⟨issues, hsetup⟩ | ⟨k, place, q, sets, ms, -, -, hq⟩ := h
    · have := hgave 0
      simp only [givenUp, hsetup, Bool.false_eq_true] at this
    · exact ⟨es, ts, q, ms, hrun, hq⟩

end Inflow.Injector
