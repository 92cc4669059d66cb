import Inflow.Proofs.Injector.Accounting
import Inflow.Proofs.Scalar.Unit
/-!
# A uniform profile changes nothing

The uniform profile has the factor one for every element. A set with this profile and the
same set without a profile go different ways to the table of weights that particles are
shared out by, and come to one table. Nothing else of a step looks at the profile, so the
whole step is the same on every rank, whatever the other ranks do.
-/

namespace Inflow

variable {α γ ω : Type} [Scalar α]

/-! ## Tables -/

theorem zipWith_mul_replicate_one [UnitalScalar α] (ws : List α) :
    List.zipWith (· * ·) ws (List.replicate ws.length 1) = ws := by
  induction ws with
  | nil => rfl
  | cons w ws ih =>
    rw [List.length_cons, List.replicate_succ, List.zipWith_cons_cons, ih]
    exact congrArg (· :: ws) (UnitalScalar.times_one w)

namespace Cumulative

theorem build_uniform [UnitalScalar α] (weights : Array α) :
    build weights (some (Array.replicate weights.size 1)) = build weights none := by
  rw [build, build, if_pos Array.size_replicate, Array.toList_replicate, ← Array.length_toList,
    zipWith_mul_replicate_one]

/-- The table of a zone's elements is that of their weights, gathered beforehand. -/
theorem build_gathered (parents : Array α) (elements : Array Nat) :
    (elements.toList.mapM (fetch parents) >>= fun weights => build weights.toArray none) =
      buildIndexed parents elements none := rfl

theorem buildIndexed_uniform [UnitalScalar α] (parents : Array α) (elements : Array Nat) :
    buildIndexed parents elements (some (Array.replicate elements.size 1)) = buildIndexed parents elements none := by
  simp only [buildIndexed, Array.size_replicate, if_true, Array.toList_replicate]
  cases h : elements.toList.mapM (fetch parents) with
  | error f => rfl
  | ok weights =>
    -- There are as many factors as elements, and as many weights are gathered.
    have hlength : elements.size = weights.length := by rw [length_of_mapM h, Array.length_toList]
    rw [hlength]
    exact congrArg (fun ws => Except.ok (ofWeights ws)) (zipWith_mul_replicate_one weights)

end Cumulative

/-! ## Sets with and without the uniform profile -/

namespace InjectionSet

/-- The set with the uniform profile. -/
def withUniform (s : InjectionSet α) : InjectionSet α := { s with profile := some Profile.uniform }

/-- The second set is the first one, or it has the uniform profile where the first has none. -/
inductive Alike : InjectionSet α → InjectionSet α → Prop
  | same (s : InjectionSet α) : Alike s s
  | uniform {s : InjectionSet α} (h : s.profile = none) : Alike s s.withUniform

variable {s s' : InjectionSet α}

theorem Alike.outline (h : s.Alike s') : s'.outline = s.outline := by
  cases h <;> rfl

theorem Alike.factors (h : s.Alike s') (zone : Zone) :
    s'.factors zone = s.factors zone ∨ s.factors zone = none ∧ s'.factors zone = some (Profile.uniform zone) := by
  cases h with
  | same => exact .inl rfl
  | uniform hnone => exact .inr ⟨by rw [InjectionSet.factors, hnone]; rfl, rfl⟩

end InjectionSet

/-- Entries with the same zone, and with sets that are alike one by one. -/
structure ZoneEntry.Alike (e e' : ZoneEntry α) : Prop where
  zone : e'.zone = e.zone
  nature : e'.nature = e.nature
  sets : List.Forall₂ InjectionSet.Alike e.sets e'.sets

/-- The second registry is the first one, with the uniform profile for any of the sets without a profile. -/
def Registry.Alike (r r' : Registry α) : Prop :=
  ∀ kind, List.Forall₂ ZoneEntry.Alike (r.zones kind) (r'.zones kind)

/-- Requests at one place of registries that are alike. -/
structure Request.Alike (q q' : Request α) : Prop where
  kind : q'.kind = q.kind
  zoneIndex : q'.zoneIndex = q.zoneIndex
  entry : q.entry.Alike q'.entry
  set : q.set.Alike q'.set

theorem map_outline_of_forall₂ {β β' : Type} {R : β → β → Prop} {outline : β → β'}
    (houtline : ∀ {b b'}, R b b' → outline b' = outline b) {bs bs' : List β} (h : List.Forall₂ R bs bs') :
    bs'.map outline = bs.map outline := by
  induction h with
  | nil => rfl
  | cons hb _ ih => rw [List.map_cons, List.map_cons, houtline hb, ih]

theorem ZoneEntry.Alike.outline {e e' : ZoneEntry α} (h : e.Alike e') : e'.outline = e.outline := by
  rw [ZoneEntry.outline, ZoneEntry.outline, h.zone, h.nature, map_outline_of_forall₂ InjectionSet.Alike.outline h.sets]

namespace Registry

variable {r r' : Registry α}

theorem Alike.outline (h : r.Alike r') : r'.outline = r.outline := by
  rw [Registry.outline, Registry.outline]
  congr 1
  · exact map_outline_of_forall₂ ZoneEntry.Alike.outline (h .boundary)
  · exact map_outline_of_forall₂ ZoneEntry.Alike.outline (h .volume)

theorem forall₂_zipIdx {β : Type} {R : β → β → Prop} {bs bs' : List β} (h : List.Forall₂ R bs bs') (n : Nat) :
    List.Forall₂ (fun b b' => R b.1 b'.1 ∧ b'.2 = b.2) (bs.zipIdx n) (bs'.zipIdx n) := by
  induction h generalizing n with
  | nil => exact .nil
  | cons hb _ ih => exact .cons ⟨hb, rfl⟩ (ih (n + 1))

/-- A step comes to sets that are alike in one order. -/
theorem Alike.requests (h : r.Alike r') : List.Forall₂ Request.Alike r.requests r'.requests := by
  refine List.rel_flatMap (List.forall₂_same.2 fun _ _ => rfl) ?_
  rintro kind _ rfl
  refine List.rel_flatMap (forall₂_zipIdx (h kind) 0) ?_
  rintro ⟨e, i⟩ ⟨e', _⟩ ⟨he, rfl⟩
  exact List.rel_map (fun s s' hs => ⟨rfl, rfl, he, hs⟩) he.sets

end Registry

namespace Request

variable {q q' : Request α}

theorem Alike.outline (h : q.Alike q') : q'.outline = q.outline := by
  rw [Request.outline, Request.outline, h.kind, h.zoneIndex, h.entry.outline, h.set.outline]

theorem Alike.zone (h : q.Alike q') : q'.zone = q.zone := h.entry.zone

theorem Alike.place (h : q.Alike q') : q'.place = q.place := place_eq_of_outline h.outline

theorem Alike.id (h : q.Alike q') : q'.set.id = q.set.id := congrArg Place.set h.place

theorem Alike.count (h : q.Alike q') : q'.set.count = q.set.count := count_eq_of_outline h.outline

end Request

/-! ## The work of one set -/

/-- A hook is told of the set, and so of its profile. This one does the same whether the
set has no profile or the uniform one. -/
def Impartial (hook : Hook α ω) : Prop :=
  ∀ {n : Nat} {s s' : InjectionSet α}, s.Alike s' → ∀ faces sublayer (ps : Vector (Particle α) n) w,
    hook { set := s', faces, sublayer } ps w = hook { set := s, faces, sublayer } ps w

structure Hooks.Impartial (hooks : Hooks α ω) : Prop where
  move : Inflow.Impartial hooks.move
  modify : Inflow.Impartial hooks.modify

namespace Injector

variable {env : Surroundings α ω} {q q' : Request α} {r r' : Registry α}

/-- One factor for each element is what the check asks for. -/
theorem checkInputs_alike (h : q.Alike q') (weights : Array α) :
    checkInputs q' weights (q'.set.factors q.zone) = checkInputs q weights (q.set.factors q.zone) := by
  unfold checkInputs
  rw [h.zone, h.place]
  obtain heq | ⟨hnone, huniform⟩ := h.set.factors q.zone
  · rw [heq]
  · -- Without factors there is nothing to check, and the uniform ones pass.
    rw [hnone, huniform]
    simp only [Profile.uniform, Array.size_replicate, if_true]

theorem runHook_alike {hook : Hook α ω} (himpartial : Impartial hook) (h : q.Alike q') (faces : Option (Array Nat))
    (sublayer : Array α) (ps : Array (Particle α)) :
    (runHook hook { set := q'.set, faces, sublayer } ps : Step α γ ω _) =
      runHook hook { set := q.set, faces, sublayer } ps := by
  simp only [runHook, himpartial h.set]

theorem relocateFresh_alike (env : Surroundings α ω) (h : q.Alike q') (start : Nat)
    (faces globalFaces : Option (Array Nat)) :
    (relocateFresh env q' start faces globalFaces : Step α γ ω _) = relocateFresh env q start faces globalFaces := by
  simp only [relocateFresh, h.kind, h.zone, h.id]

theorem closeSet_alike (h : q.Alike q') (start : Nat) : (closeSet q' start : Step α γ ω _) = closeSet q start := by
  simp only [closeSet, h.place, h.kind, h.zoneIndex]

theorem beginStep_alike (h : r.Alike r') : (beginStep r' : Step α γ ω _) = beginStep r := by
  simp only [beginStep, (h _).length_eq]

variable [Generator γ]

theorem initializeAll_alike (mesh : Mesh α) (h : q.Alike q') (dtp : α) (faces : Option (Array Nat))
    (ps : Array (Particle α)) :
    (Release.initializeAll mesh q'.set dtp faces ps : Drawing γ _) = Release.initializeAll mesh q.set dtp faces ps := by
  -- All that is read of a set is in its outline, which has no profile.
  change Release.initializeAll mesh q'.set.outline dtp faces ps = Release.initializeAll mesh q.set.outline dtp faces ps
  rw [h.set.outline]

theorem attributes_alike (x : Release.Setting α) (h : q.Alike q') (ps : Array (Particle α)) :
    (Release.attributes x q'.set ps : Drawing γ _) = Release.attributes x q.set ps := by
  change Release.attributes x q'.set.outline ps = Release.attributes x q.set.outline ps
  rw [h.set.outline]

theorem releaseFresh_alike (hhooks : env.hooks.Impartial) (h : q.Alike q') (dtp : α) (index : List Nat) (start : Nat)
    (faces : Option (Array Nat)) :
    (releaseFresh env q' dtp index start faces : Step α γ ω _) = releaseFresh env q dtp index start faces := by
  simp only [releaseFresh, h.zone, initializeAll_alike env.mesh h, runHook_alike hhooks.move h]

theorem finishFresh_alike (hhooks : env.hooks.Impartial) (h : q.Alike q') (dtp : α) (level start : Nat)
    (faces : Option (Array Nat)) :
    (finishFresh env q' dtp level start faces : Step α γ ω _) = finishFresh env q dtp level start faces := by
  simp only [finishFresh, attributes_alike _ h, runHook_alike hhooks.modify h]

/-- Once the particles are shared out, nothing looks at the profile. -/
theorem fillSet_alike (hhooks : env.hooks.Impartial) (h : q.Alike q') (dtp : α) (level : Nat) (index : List Nat)
    (start : Nat) : (fillSet env dtp level q' index start : Step α γ ω _) = fillSet env dtp level q index start := by
  simp only [fillSet, facesOf, h.kind, h.zone, h.place, releaseFresh_alike hhooks h, relocateFresh_alike env h,
    finishFresh_alike hhooks h, closeSet_alike h]

variable [UnitalScalar α]

/-- The two ways to the table of weights meet here. -/
theorem overZone_alike (h : q.Alike q') (weights : Array α) (seat : Seat) (stream : RandomStream γ) :
    Apportion.overZone q.set.count q.zone.elements weights (q'.set.factors q.zone) seat stream =
      Apportion.overZone q.set.count q.zone.elements weights (q.set.factors q.zone) seat stream := by
  obtain heq | ⟨hnone, huniform⟩ := h.set.factors q.zone
  · rw [heq]
  · rw [hnone, huniform, Apportion.overZone, Apportion.overZone, Profile.uniform, Cumulative.buildIndexed_uniform]

theorem openSet_alike (env : Surroundings α ω) (h : q.Alike q') :
    (openSet env q' : Step α γ ω _) = openSet env q := by
  simp only [openSet, h.kind, h.zone, h.place, h.id, h.count, checkInputs_alike h, overZone_alike h]

theorem injectSet_alike (hhooks : env.hooks.Impartial) (h : q.Alike q') (dtp : α) (level : Nat) :
    (injectSet env dtp level q' : Step α γ ω _) = injectSet env dtp level q := by
  simp only [injectSet_eq, openSet_alike env h, fillSet_alike hhooks h]

/-! ## Whole steps -/

theorem injectDue_alike (hhooks : env.hooks.Impartial) (time : TimeStep α) (level : Nat) {qs qs' : List (Request α)}
    (h : List.Forall₂ Request.Alike qs qs') :
    (injectDue env time level qs' : Step α γ ω _) = injectDue env time level qs := by
  induction h with
  | nil => rfl
  | cons hq _ ih =>
    simp only [injectDue, Request.isDue_eq_of_outline hq.outline, injectSet_alike hhooks hq, ih]

theorem inject_alike (hhooks : env.hooks.Impartial) (h : r.Alike r') (time : TimeStep α) (wantedLevel : Nat) :
    (inject env r' time wantedLevel : Step α γ ω _) = inject env r time wantedLevel := by
  have hissues : ∀ m, r'.issues m = r.issues m := Registry.issues_eq_of_outline h.outline
  have hrequested : r'.totalRequested = r.totalRequested := Registry.totalRequested_eq_of_outline h.outline
  simp only [inject, hissues, beginStep_alike h, hrequested, injectDue_alike hhooks time _ h.requests]

/-- The tables of weights are the same with factors of one as with none, over all of a
list of weights or over the elements of a zone, where they are also those of the weights
gathered beforehand.

So the uniform profile in any of the sets without a profile, on any of the ranks, leaves
the steps of all ranks as they are: the records that a set is given and how they fall on
the elements, and from every run what becomes of the particles, the draws, the events, the
flow rates and the census, and the outcome. Hooks are told of the set; whether it has the
uniform profile or none is all that they must not go by. -/
theorem uniform_profile_changes_nothing :
    (∀ weights : Array α, Cumulative.build weights (some (Array.replicate weights.size 1)) =
      Cumulative.build weights none) ∧
    (∀ (parents : Array α) (elements : Array Nat),
      Cumulative.buildIndexed parents elements (some (Array.replicate elements.size 1)) =
        Cumulative.buildIndexed parents elements none ∧
      (elements.toList.mapM (fetch parents) >>= fun weights => Cumulative.build weights.toArray none) =
        Cumulative.buildIndexed parents elements none) ∧
    ∀ (ranks : Nat) (env : Fin ranks → Surroundings α ω) (plain even : Fin ranks → Registry α),
      (∀ i, (env i).hooks.Impartial) → (∀ i, (plain i).Alike (even i)) →
      (∀ i, List.Forall₂ (fun q q' => (openSet (env i) q' : Step α γ ω _) = openSet (env i) q)
        (plain i).requests (even i).requests) ∧
      ∀ (time : TimeStep α) (wantedLevel : Fin ranks → Nat),
        (∀ i, (inject (env i) (even i) time (wantedLevel i) : Step α γ ω _) =
          inject (env i) (plain i) time (wantedLevel i)) ∧
        ∀ rs : Fin ranks → Run α γ ω,
          Group.run (List.ofFn fun i => (inject (env i) (even i) time (wantedLevel i)).on (rs i)) =
            Group.run (List.ofFn fun i => (inject (env i) (plain i) time (wantedLevel i)).on (rs i)) := by
  refine ⟨Cumulative.build_uniform, fun parents elements =>
    ⟨Cumulative.buildIndexed_uniform parents elements, Cumulative.build_gathered parents elements⟩, ?_⟩
  intro ranks env plain even hhooks halike
  refine ⟨fun i => (halike i).requests.imp fun _ _ hq => openSet_alike (env i) hq, fun time wantedLevel => ?_⟩
  have hinject : ∀ i, (inject (env i) (even i) time (wantedLevel i) : Step α γ ω _) =
      inject (env i) (plain i) time (wantedLevel i) := fun i => inject_alike (hhooks i) (halike i) time (wantedLevel i)
  exact ⟨hinject, fun rs => by simp only [hinject]⟩

/-- The registry of the pair, with the uniform profile. -/
def uniformRegistry (i : Fin 2) : Registry ℚ where
  boundary := (pairRegistry ![0, 0] i).boundary.map fun e => { e with sets := e.sets.map InjectionSet.withUniform }

theorem uniformRegistry_alike (i : Fin 2) : (pairRegistry ![0, 0] i).Alike (uniformRegistry i) := by
  rintro (_ | _)
  · exact .cons ⟨rfl, rfl, .cons (.uniform rfl) .nil⟩ .nil
  · exact .nil

/-- Of the four particles that a set with the uniform profile asks for, each rank loses
one and rank 1 keeps two, as without the profile. -/
theorem uniform_profile_changes_nothing_onPair : ∃ (s : Fin 2 → StepSummary ℚ) (ts : Fin 2 → Run ℚ ChaCha.State Unit),
    (∀ i, (uniformRegistry i).requests.map (fun q => q.set.profile.isSome) = [true]) ∧
    Group.run (List.ofFn (pairStep ![0, 0] 10)) = some (List.ofFn fun i => (.ok (.injected (s i)), ts i)) ∧
    Group.run (List.ofFn fun i => (inject (pairEnv i) (uniformRegistry i) firstStep 0).on (pairRuns 10 i)) =
      some (List.ofFn fun i => (.ok (.injected (s i)), ts i)) ∧
    ∀ i, (s i).released = 2 := by
  have hall : (Group.run (List.ofFn (pairStep ![0, 0] 10))).map (·.all fun out => releasedCount 2 out && true) =
      some true := by
    decide +kernel
  obtain ⟨s, ts, hrun, hreleased⟩ := released_of_all (fun _ => true) hall
  have hhooks : ∀ i, (pairEnv i).hooks.Impartial := by
    intro i
    fin_cases i <;> exact ⟨fun _ _ _ _ _ => rfl, fun _ _ _ _ _ => rfl⟩
  obtain ⟨-, -, hsteps⟩ := uniform_profile_changes_nothing (α := ℚ) (γ := ChaCha.State) (ω := Unit)
  obtain ⟨-, hgroup⟩ := (hsteps 2 pairEnv (pairRegistry ![0, 0]) uniformRegistry hhooks uniformRegistry_alike).2
    firstStep fun _ => 0
  exact ⟨s, ts, fun _ => rfl, hrun, (hgroup (pairRuns 10)).trans hrun, fun i => (hreleased i).1⟩

/-- A hook that goes by the profile: particles of a set that has one count double. -/
def favorProfiled : Hook ℚ Unit := fun call ps w =>
  (.ok (if call.set.profile.isSome then ps.map fun p => { p with weight := 2 * p.weight } else ps), w)

/-- The pair, with this hook on both ranks. -/
def favoringEnv (i : Fin 2) : Surroundings ℚ Unit :=
  { pairEnv i with hooks := { (pairEnv i).hooks with modify := favorProfiled } }

/-- A step after which the particles of both ranks have this weight. -/
def weighs (weight : ℚ) (out : PairEnd) : Bool := out.2.census.weight == weight

/-- To a hook that goes by the profile the uniform one is not the same as none: the two
particles that are kept weigh two without it and four with it. -/
theorem profile_shows_to_hook :
    (∀ i, (pairRegistry ![0, 0] i).Alike (uniformRegistry i)) ∧
    ∃ (s t : Fin 2 → StepSummary ℚ) (us vs : Fin 2 → Run ℚ ChaCha.State Unit),
      Group.run (List.ofFn fun i => (inject (favoringEnv i) (pairRegistry ![0, 0] i) firstStep 0).on (pairRuns 10 i)) =
        some (List.ofFn fun i => (.ok (.injected (s i)), us i)) ∧
      Group.run (List.ofFn fun i => (inject (favoringEnv i) (uniformRegistry i) firstStep 0).on (pairRuns 10 i)) =
        some (List.ofFn fun i => (.ok (.injected (t i)), vs i)) ∧
      ∀ i, (us i).census.weight = 2 ∧ (vs i).census.weight = 4 := by
  have hplain : (Group.run (List.ofFn fun i => (inject (favoringEnv i) (pairRegistry ![0, 0] i) firstStep 0).on
      (pairRuns 10 i))).map (·.all fun out => releasedCount 2 out && weighs 2 out) = some true := by
    decide +kernel
  have heven : (Group.run (List.ofFn fun i => (inject (favoringEnv i) (uniformRegistry i) firstStep 0).on
      (pairRuns 10 i))).map (·.all fun out => releasedCount 2 out && weighs 4 out) = some true := by
    decide +kernel
  obtain ⟨s, us, hs, htwo⟩ := released_of_all (weighs 2) hplain
  obtain ⟨t, vs, ht, hfour⟩ := released_of_all (weighs 4) heven
  exact ⟨uniformRegistry_alike, s, t, us, vs, hs, ht, fun i => ⟨eq_of_beq (htwo i).2, eq_of_beq (hfour i).2⟩⟩

end Injector
end Inflow
