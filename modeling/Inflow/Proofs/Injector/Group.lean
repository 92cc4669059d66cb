import Inflow.Proofs.Injector.Outline
import Inflow.Proofs.Injector.Set
/-!
# A group releases a set

The ranks of a group get through a set together. At three points they tell each
other whether something is wrong; a rank that gives up at one of them does not
do so alone, and says what it has found or that a peer has found something.
Where nothing is wrong, the particles of the set are shared out, and no more of
them than the set asks for.
-/

namespace Inflow.Injector

open Step

variable {α γ ω : Type} [Scalar α]

/-! ## Giving up -/

/-- The points of a set's work at which the ranks tell each other what they have found. -/
inductive Checkpoint where
  /-- Elements and profile fit the mesh. -/
  | inputs
  /-- There is room for the particles. -/
  | room
  /-- The released particles are admissible. -/
  | admission
  deriving DecidableEq, Repr

/-- The error that a check comes to, if it fails. -/
def errorOf {ε β : Type} : Except ε β → Option ε
  | .error e => some e
  | .ok _ => none

/-- What a rank finds wrong at a checkpoint of a set that it began in the run
`before` and has come to the run `now` with: with room for `k` more particles,
or with the particles from index `k` on. -/
def finding (env : Surroundings α ω) (q : Request α) (before now : Run α γ ω) (k : Nat) :
    Checkpoint → Option (InjectionError α)
  | .inputs => errorOf (checkInputs q (env.mesh.weights q.kind) (q.set.factors q.zone))
  | .room =>
    match before.injector.population.appendBlankFrom env.memory k with
    | .ok change => (errorOf change.result).map .growth
    | .error _ => none
  | .admission =>
    match Admissibility.violations now.injector.settings.model k (now.injector.population.tail k) with
    | .ok (v :: vs) => some (.inadmissible q.place (v :: vs))
    | _ => none

/-! ## Opening -/

omit [Scalar α] in
theorem lt_of_checkInputs {q : Request α} {weights : Array α} {factors : Option (Array α)}
    (h : checkInputs q weights factors = .ok ()) : ∀ e ∈ q.zone.elements.toList, e < weights.size := by
  unfold checkInputs at h
  split at h
  · cases h
  · rename_i hfind
    intro e he
    simpa using List.find?_eq_none.1 hfind e he

theorem buildIndexed_of_checkInputs {q : Request α} {weights : Array α} {factors : Option (Array α)}
    (h : checkInputs q weights factors = .ok ()) :
    ∃ table, Cumulative.buildIndexed weights q.zone.elements factors = .ok table := by
  have hlt := lt_of_checkInputs h
  unfold checkInputs at h
  split at h
  · cases h
  · unfold Cumulative.buildIndexed
    rw [mapM_fetch weights 0 hlt]
    cases factors with
    | none => exact ⟨_, rfl⟩
    | some values =>
      simp only [ite_eq_left_iff, reduceCtorEq, imp_false, not_not] at h
      simp only [if_pos h]
      exact ⟨_, rfl⟩

/-- The weight of the part that a rank has of a set's zone; zero if the inputs do not fit. -/
def partWeight (env : Surroundings α ω) (q : Request α) : α :=
  match Cumulative.buildIndexed (env.mesh.weights q.kind) q.zone.elements (q.set.factors q.zone) with
  | .ok table => table.total
  | .error _ => 0

theorem partWeight_eq {env : Surroundings α ω} {q : Request α} {table : Cumulative α}
    (h : Cumulative.buildIndexed (env.mesh.weights q.kind) q.zone.elements (q.set.factors q.zone) = .ok table) :
    partWeight env q = table.total := by
  rw [partWeight, h]

variable [Generator γ] {ranks : Nat} {env : Fin ranks → Surroundings α ω} {q : Fin ranks → Request α}
  {rs : Fin ranks → Run α γ ω}

/-- How a rank shares out the particles of a set. -/
def shareOut (env : Surroundings α ω) (q : Request α) (r : Run α γ ω) : Program α (Checked (Apportion.Layout γ)) :=
  Apportion.overZone q.set.count q.zone.elements (env.mesh.weights q.kind) (q.set.factors q.zone) env.seat
    r.injector.stream

/-- What the ranks get when they share out the particles of a set. -/
def LaidOut (env : Fin ranks → Surroundings α ω) (q : Fin ranks → Request α) (rs : Fin ranks → Run α γ ω)
    (layouts : Fin ranks → Apportion.Layout γ) : Prop :=
  Group.run (List.ofFn fun i => shareOut (env i) (q i) (rs i)) = some (List.ofFn fun i => .ok (layouts i))

/-- What `k` is in a rank's finding at a checkpoint, for ranks that began with a set in the runs `rs`. -/
def Reached (env : Fin ranks → Surroundings α ω) (q : Fin ranks → Request α) (rs : Fin ranks → Run α γ ω)
    (k : Fin ranks → Nat) : Checkpoint → Prop
  | .inputs => True
  | .room => ∃ layouts, LaidOut env q rs layouts ∧ ∀ i, k i = (layouts i).placed
  | .admission => ∀ i, k i = (rs i).injector.population.size

/-- Ranks that began with a set in the runs `rs` have given up at one checkpoint:
some rank has found something, each rank that has reports it, and every other
rank reports a failure of a peer. -/
def GaveUp (env : Fin ranks → Surroundings α ω) (q : Fin ranks → Request α) (rs : Fin ranks → Run α γ ω)
    (es : Fin ranks → InjectionError α) (ts : Fin ranks → Run α γ ω) : Prop :=
  ∃ point k, Reached env q rs k point ∧ (∃ i e, finding (env i) (q i) (rs i) (ts i) (k i) point = some e) ∧
    ∀ i, es i = (finding (env i) (q i) (rs i) (ts i) (k i) point).getD (.peerFailure (q i).place)

/-- The ranks agree on a check that is a checkpoint. -/
theorem together_checkpoint {β : Type} (point : Checkpoint) {k : Fin ranks → Nat} (hreached : Reached env q rs k point)
    {ms : Fin ranks → Run α γ ω} {own : Fin ranks → Except (InjectionError α) β}
    (hown : ∀ i, finding (env i) (q i) (rs i) (ms i) (k i) point = errorOf (own i)) :
    Together (fun i => agree (q i).place (own i)) ms (fun bs ts => ts = ms ∧ ∀ i, own i = .ok (bs i))
      (GaveUp env q rs) := by
  refine together_imp (together_agree _ _) (fun _ _ _ h => h) ?_
  rintro es _ ⟨rfl, ⟨i, e, hi⟩, hes⟩
  refine ⟨point, k, hreached, ⟨i, e, by rw [hown, hi, errorOf]⟩, fun j => ?_⟩
  rw [hown]
  rcases hes j with hj | ⟨⟨b, hj⟩, he⟩
  · rw [hj]
    rfl
  · rw [hj, he]
    rfl

/-- The ranks of a group have the seats that their numbers say. -/
def Seated (env : Fin ranks → Surroundings α ω) : Prop := ∀ i, (env i).seat = { rank := i, size := ranks }

/-- Ranks that have shared a set out have done so with the tables of their parts of the zone. -/
theorem LaidOut.exists_tables (hseat : Seated env) {count : Nat} (hcount : ∀ i, (q i).set.count = count)
    {layouts : Fin ranks → Apportion.Layout γ} (h : LaidOut env q rs layouts) : ∃ tables : Fin ranks → Cumulative α,
      (∀ i, Cumulative.buildIndexed ((env i).mesh.weights (q i).kind) (q i).zone.elements
        ((q i).set.factors (q i).zone) = .ok (tables i)) ∧
      layouts = fun i => Apportion.rankLayout count tables (fun j => (rs j).injector.stream) i := by
  have htable : ∀ i, ∃ table, Cumulative.buildIndexed ((env i).mesh.weights (q i).kind) (q i).zone.elements
      ((q i).set.factors (q i).zone) = .ok table := by
    intro i
    have hcan := Group.can_of_run h i
    unfold shareOut Apportion.overZone at hcan
    split at hcan
    · cases hcan
    · exact ⟨_, ‹_›⟩
  choose tables htables using htable
  refine ⟨tables, htables, ?_⟩
  obtain ⟨_, hrun, rfl⟩ := (Apportion.ends_overZone count (fun i => (rs i).injector.stream) htables).run_eq
  unfold LaidOut shareOut at h
  simp only [hcount, hseat _] at h
  rw [hrun, Option.some.injEq, List.ofFn_inj] at h
  exact funext fun i => (Except.ok.inj (congrFun h i)).symm

/-- Ranks whose inputs are right share the particles out in step. -/
theorem ends_shareOut (hseat : Seated env) {count : Nat} (hcount : ∀ i, (q i).set.count = count)
    (hok : ∀ i, checkInputs (q i) ((env i).mesh.weights (q i).kind) ((q i).set.factors (q i).zone) = .ok ()) :
    Group.Ends (fun _ => False) (fun out => ∃ layouts, out = (fun i => .ok (layouts i)) ∧ LaidOut env q rs layouts ∧
      ∑ i, (layouts i).placed ≤ count) fun i => shareOut (env i) (q i) (rs i) := by
  choose tables htables using fun i => buildIndexed_of_checkInputs (hok i)
  have hends := Apportion.ends_overZone count (fun i => (rs i).injector.stream) htables
  have hprograms : (fun i => shareOut (env i) (q i) (rs i)) = fun i =>
      Apportion.overZone count (q i).zone.elements ((env i).mesh.weights (q i).kind) ((q i).set.factors (q i).zone)
        { rank := i, size := ranks } (rs i).injector.stream := by
    funext i
    rw [shareOut, hcount i, hseat i]
  rw [← hprograms] at hends
  obtain ⟨_, hrun, rfl⟩ := hends.run_eq
  refine hends.imp ?_
  rintro _ - rfl
  exact ⟨_, rfl, hrun, Apportion.sum_placed_le _ _ _⟩

/-- The ranks open a set together: each appends its part of one layout, and goes on with the stream of the layout. -/
theorem together_openSet (hseat : Seated env) {count : Nat} (hcount : ∀ i, (q i).set.count = count) :
    Together (fun i => openSet (env i) (q i)) rs (fun out ts => ∃ layouts, LaidOut env q rs layouts ∧
      ∑ i, (layouts i).placed ≤ count ∧
      ∀ i, (out i).1 = (layouts i).index ∧ (ts i).injector.stream = (layouts i).stream) (GaveUp env q rs) := by
  unfold openSet
  refine together_bind (together_checkpoint .inputs (k := fun _ => 0) trivial fun _ => rfl) ?_
  rintro _ _ - ⟨rfl, hok⟩
  refine together_get (together_bind (together_meet (ends_shareOut hseat hcount hok)) ?_)
  rintro _ _ - ⟨rfl, layouts, rfl, hlaid, hsum⟩
  refine together_check fun ls hls => ?_
  obtain rfl : layouts = ls := funext fun i => Except.ok.inj (hls i)
  refine together_modify (together_modify (together_modify (together_get ?_)))
  refine together_check fun grown hgrown => together_modify ?_
  refine together_bind (together_checkpoint .room ⟨layouts, hlaid, fun _ => rfl⟩ fun i => ?_) ?_
  · rw [finding, Apportion.Layout.placed, hgrown i]
    simp only
    cases (grown i).result <;> rfl
  rintro _ _ - ⟨rfl, -⟩
  exact together_pure ⟨layouts, hlaid, hsum, fun _ => ⟨rfl, rfl⟩⟩

/-! ## Relocating and closing -/

omit [Generator γ] in
/-- Either some rank sees a particle away from its place, and all ranks look up the
cells of theirs, or none does, and all leave them as they are. -/
theorem together_relocateFresh {E : (Fin ranks → InjectionError α) → (Fin ranks → Run α γ ω) → Prop}
    (start : Fin ranks → Nat) (faces globalFaces : Fin ranks → Option (Array Nat)) :
    Together (fun i => relocateFresh (env i) (q i) (start i) (faces i) (globalFaces i)) rs
      (fun outs ts => ∃ displaced : Fin ranks → Bool,
        (∀ i, anyDisplaced (env i).mesh ((rs i).injector.population.tail (start i)) = .ok (displaced i)) ∧
        ((∃ i, displaced i = true) ∧
            (∀ i, LookedUp (env i) (start i) (faces i) (globalFaces i) (rs i) (outs i) (ts i)) ∨
          (∀ i, displaced i = false) ∧ outs = (fun i => (0, faces i, globalFaces i)) ∧ ts = rs)) E := by
  simp only [relocateFresh_eq]
  refine together_after (fun _ => quiet_fresh _) fun ps ms hps => together_check fun displaced hdisplaced => ?_
  simp only [yields_fresh] at hps
  obtain rfl : ms = rs := funext fun i => (hps i).2
  obtain rfl : ps = fun i => (ms i).injector.population.tail (start i) := funext fun i => (hps i).1
  refine together_bind (together_any displaced) ?_
  rintro _ _ - ⟨rfl, rfl⟩
  by_cases hsome : ∃ i, displaced i = true
  · simp only [hsome, decide_true, if_true]
    exact together_quiet (fun i => quiet_lookUp _ _ _ _) fun _ _ h =>
      ⟨displaced, hdisplaced, .inl ⟨hsome, fun i => yields_lookUp (h i)⟩⟩
  · simp only [hsome, decide_false, Bool.false_eq_true, if_false]
    refine together_pure ⟨displaced, hdisplaced, .inr ⟨fun i => ?_, rfl, rfl⟩⟩
    exact Bool.eq_false_iff.2 fun h => hsome ⟨i, h⟩

theorem together_closeSet {ms : Fin ranks → Run α γ ω} {start : Fin ranks → Nat}
    (hstart : ∀ i, start i = (rs i).injector.population.size) :
    Together (fun i => closeSet (q i) (start i)) ms (fun _ _ => True) (GaveUp env q rs) := by
  unfold closeSet
  refine together_after (fun _ => quiet_fresh _) fun ps ts hps => ?_
  simp only [yields_fresh] at hps
  obtain rfl : ts = ms := funext fun i => (hps i).2
  refine together_get (together_check fun violations hviolations => ?_)
  refine together_bind (together_checkpoint .admission hstart fun i => ?_) ?_
  · rw [finding, ← (hps i).1, hviolations i]
    cases violations i <;> rfl
  rintro _ _ - ⟨rfl, -⟩
  refine together_quiet (fun i => ?_) fun _ _ _ => trivial
  exact quiet_bind quiet_get fun _ => quiet_bind (quiet_check _) fun _ => quiet_bind (quiet_updateInjector _) fun _ =>
    quiet_bind quiet_get fun _ => quiet_bind (quiet_check _) fun _ => quiet_bind (quiet_setPopulation _) fun _ =>
      quiet_pure _

/-! ## The whole set -/

theorem together_fillSet (dtp : α) (level : Fin ranks → Nat) (index : Fin ranks → List Nat) {ms : Fin ranks → Run α γ ω}
    {start : Fin ranks → Nat} (hstart : ∀ i, start i = (rs i).injector.population.size) :
    Together (fun i => fillSet (env i) dtp (level i) (q i) (index i) (start i)) ms (fun _ _ => True)
      (GaveUp env q rs) := by
  unfold fillSet
  refine together_check fun faces _ => together_after (fun _ => quiet_releaseFresh _ _ _ _) fun _ _ _ => ?_
  refine together_bind (together_relocateFresh start _ _) fun left _ _ _ => ?_
  refine together_after (fun _ => quiet_finishFresh _ _ _ _) fun _ _ _ => ?_
  refine together_after (fun _ => quiet_recordFresh _ _ _) fun _ _ _ => ?_
  exact together_bind (together_closeSet hstart) fun kept _ _ _ => together_pure trivial

/-- The ranks release a set together: on each, all particles of its layout are kept or lost. -/
theorem together_injectSet (hseat : Seated env) {count : Nat} (hcount : ∀ i, (q i).set.count = count) (dtp : α)
    (level : Fin ranks → Nat) :
    Together (fun i => injectSet (env i) dtp (level i) (q i)) rs (fun s _ => ∃ layouts, LaidOut env q rs layouts ∧
      ∑ i, (layouts i).placed ≤ count ∧ ∀ i, (s i).kept + (s i).lost = (layouts i).placed) (GaveUp env q rs) := by
  simp only [injectSet_eq]
  refine together_bind (together_openSet hseat hcount) fun opened ms hopened hlaid => ?_
  obtain ⟨layouts, hlaid, hsum, hindex⟩ := hlaid
  refine together_imp (together_fillSet dtp level _ fun i => (yields_openSet (hopened i)).2.1)
    (fun s ts hfilled _ => ⟨layouts, hlaid, hsum, fun i => ?_⟩) fun _ _ h => h
  obtain ⟨-, hstart, hsize⟩ := yields_openSet (hopened i)
  obtain ⟨-, -, -, hall, -⟩ := yields_fillSet (hfilled i) (by omega)
  rw [Apportion.Layout.placed, ← (hindex i).1]
  omega

/-! ## All sets -/

/-- The number of particles that the sets which are due ask for. -/
def dueCount (time : TimeStep α) (released : Nat) (qs : List (Request α)) : Nat :=
  ((qs.filter (dueAt time released)).map (·.set.count)).sum

/-- The ranks have given up at the sets that stand in one place of their lists,
when `work` was done with all sets before. -/
def GaveUpAmong (env : Fin ranks → Surroundings α ω)
    (work : Fin ranks → List (Request α) → Step α γ ω (List SetSummary)) (qs : Fin ranks → List (Request α))
    (rs : Fin ranks → Run α γ ω) (es : Fin ranks → InjectionError α) (ts : Fin ranks → Run α γ ω) : Prop :=
  ∃ (k : Nat) (q : Fin ranks → Request α) (sets : Fin ranks → List SetSummary) (ms : Fin ranks → Run α γ ω),
    (∀ i, (qs i)[k]? = some (q i)) ∧ Results (fun i => work i ((qs i).take k)) rs sets ms ∧ GaveUp env q ms es ts

section Among

variable {time : TimeStep α} {level : Fin ranks → Nat} {rest : Fin ranks → List (Request α)}
  {es : Fin ranks → InjectionError α} {ms ts : Fin ranks → Run α γ ω}

theorem GaveUp.first (h : GaveUp env q rs es ts) :
    GaveUpAmong env (fun i => injectDue (env i) time (level i)) (fun i => q i :: rest i) rs es ts :=
  ⟨0, q, fun _ => [], rs, fun _ => rfl, results_pure _ _, h⟩

theorem GaveUpAmong.of_not_due
    (hdue : ∀ i, (q i).set.isDue time.step time.start (rs i).census.cumulativeTotal = .ok false)
    (h : GaveUpAmong env (fun i => injectDue (env i) time (level i)) rest rs es ts) :
    GaveUpAmong env (fun i => injectDue (env i) time (level i)) (fun i => q i :: rest i) rs es ts := by
  obtain ⟨k, p, sets, ms, hk, hresults, hgave⟩ := h
  have hon : ∀ i, (injectDue (env i) time (level i) (q i :: (rest i).take k)).on (rs i) =
      (injectDue (env i) time (level i) ((rest i).take k)).on (rs i) := fun i => on_injectDue_cons (hdue i)
  refine ⟨k + 1, p, sets, ms, hk, ?_, hgave⟩
  rw [Results] at hresults ⊢
  simpa only [List.take_succ_cons, hon] using hresults

theorem GaveUpAmong.of_due
    (hdue : ∀ i, (q i).set.isDue time.step time.start (rs i).census.cumulativeTotal = .ok true)
    {s : Fin ranks → SetSummary} (hset : Results (fun i => injectSet (env i) time.dtp (level i) (q i)) rs s ms)
    (h : GaveUpAmong env (fun i => injectDue (env i) time (level i)) rest ms es ts) :
    GaveUpAmong env (fun i => injectDue (env i) time (level i)) (fun i => q i :: rest i) rs es ts := by
  obtain ⟨k, p, sets, us, hk, hresults, hgave⟩ := h
  have hon : ∀ i, (injectDue (env i) time (level i) (q i :: (rest i).take k)).on (rs i) =
      (injectSet (env i) time.dtp (level i) (q i) >>= fun s => do
        let after ← injectDue (env i) time (level i) ((rest i).take k)
        return s :: after).on (rs i) := fun i => on_injectDue_cons (hdue i)
  refine ⟨k + 1, p, fun i => s i :: sets i, us, hk, ?_, hgave⟩
  have hboth : Results (fun i => injectSet (env i) time.dtp (level i) (q i) >>= fun s => do
      let after ← injectDue (env i) time (level i) ((rest i).take k)
      return s :: after) rs (fun i => s i :: sets i) us := by
    refine (results_bind hset).2 ?_
    exact (results_bind hresults).2 (results_pure _ _)
  rw [Results] at hboth ⊢
  simpa only [List.take_succ_cons, hon] using hboth

end Among

/-- The ranks get through lists of sets with one outline together. No more
particles are kept or lost than the sets that are due ask for; ranks that give
up do so at the same set. -/
theorem together_injectDue (hseat : Seated env) (time : TimeStep α) (level : Fin ranks → Nat) {released : Nat}
    {os : List (Request α)} {qs : Fin ranks → List (Request α)} (hqs : ∀ i, (qs i).map Request.outline = os)
    (hreleased : ∀ i, (rs i).census.cumulativeTotal = released) :
    Together (fun i => injectDue (env i) time (level i) (qs i)) rs
      (fun sets _ => ∑ i, (keptIn (sets i) + lostIn (sets i)) ≤ dueCount time released os)
      (GaveUpAmong env (fun i => injectDue (env i) time (level i)) qs rs) := by
  -- The ranks have lists of their own; the induction is on the outlines, which they share.
  induction os generalizing qs rs with
  | nil =>
    obtain rfl : qs = fun _ => [] := funext fun i => List.map_eq_nil_iff.1 (hqs i)
    exact together_pure (by simp [keptIn, lostIn])
  | cons o os ih =>
    have hcons : ∀ i, ∃ q rest, qs i = q :: rest ∧ q.outline = o ∧ rest.map Request.outline = os := by
      intro i
      obtain ⟨q, rest, hqr, hq, hrest⟩ := List.map_eq_cons_iff.1 (hqs i)
      exact ⟨q, rest, hqr, hq, hrest⟩
    choose q rest hqr hq hrest using hcons
    obtain rfl : qs = fun i => q i :: rest i := funext hqr
    have hcount : ∀ i, (q i).set.count = o.set.count := fun i => congrArg (fun q => q.set.count) (hq i)
    refine together_get (together_check fun due hdue => ?_)
    have hsame : ∀ i, due i = dueAt time released o := by
      intro i
      have hoi : o.set.isDue time.step time.start released = .ok (due i) := by
        rw [← hq i, ← hreleased i]
        exact hdue i
      rw [dueAt, hoi]
    cases ho : dueAt time released o with
    | false =>
      simp only [hsame, ho, Bool.false_eq_true, if_false] at hdue ⊢
      refine together_imp (ih hrest hreleased) (fun sets _ _ hsum => ?_) fun _ _ h => h.of_not_due hdue
      rwa [dueCount, List.filter_cons_of_neg (by simp [ho])]
    | true =>
      simp only [hsame, ho, if_true] at hdue ⊢
      refine together_bind (together_imp (together_results (together_injectSet hseat hcount time.dtp level))
        (fun _ _ _ h => h) fun _ _ h => h.first) fun s ms hset hlaid => ?_
      obtain ⟨⟨layouts, -, hplaced, hall⟩, hresults⟩ := hlaid
      have hcensus : ∀ i, (ms i).census.cumulativeTotal = released := by
        intro i
        rw [(yields_injectSet (hset i)).1.census, hreleased i]
      refine together_bind (together_imp (ih hrest hcensus) (fun _ _ _ h => h) fun _ _ h => h.of_due hdue hresults)
        fun sets ts _ hsum => together_pure ?_
      rw [dueCount, List.filter_cons_of_pos ho]
      calc ∑ i, (keptIn (s i :: sets i) + lostIn (s i :: sets i))
          = ∑ i, (layouts i).placed + ∑ i, (keptIn (sets i) + lostIn (sets i)) := by
            rw [← Finset.sum_add_distrib]
            refine Finset.sum_congr rfl fun i _ => ?_
            simp only [keptIn, lostIn, List.map_cons, List.sum_cons, ← hall i]
            omega
        _ ≤ o.set.count + dueCount time released os := Nat.add_le_add hplaced hsum

end Inflow.Injector
