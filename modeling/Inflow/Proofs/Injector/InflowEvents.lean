import Inflow.Proofs.Injector.Accounting
import Inflow.Proofs.Injector.Life
/-!
# Inflow events and their particles

Where events are wanted, every particle that a boundary set keeps has one inflow
event: with the record that the population has of it, and with the face that it
was laid out on, whichever particles before it were lost. Over a run the sink and
the buffer together have these events in their order, and no others.
-/

namespace Inflow.Injector

open Step

open Apportion (offsets)

variable {α γ ω : Type}

/-! ## One event -/

/-- What an event says that tells of a particle coming in through a face: the record of
the particle, both numbers of the face, and, of all marks, that of an inflow. -/
structure TellsInflow (e : TrackingEvent α) (p : Particle α) (face globalFace : Nat) : Prop where
  marked : e.flags.contains .inflow = true
  others : ∀ name mark, (name, mark) ∈ EventFlags.names → e.flags.contains mark = true → name = "INFLOW"
  particle : e.particle = p
  face : e.face = face
  globalFace : e.globalFace = globalFace

/-- No mark has another one in it, nor is any so empty that it is in all of them. -/
theorem contains_mark : ∀ x ∈ EventFlags.names, ∀ y ∈ EventFlags.names, x.2.contains y.2 = (x.1 == y.1) := by decide

theorem tellsInflow_inflow (p : Particle α) (face globalFace : Nat) :
    TellsInflow (.inflow p face globalFace) p face globalFace where
  marked := contains_mark ("INFLOW", .inflow) List.mem_cons_self ("INFLOW", .inflow) List.mem_cons_self
  others name mark hmem hmarked := by
    have hname := contains_mark ("INFLOW", .inflow) List.mem_cons_self (name, mark) hmem
    exact (eq_of_beq (hname.symm.trans hmarked)).symm
  particle := rfl
  face := rfl
  globalFace := rfl

/-! ## One set -/

variable [Scalar α] [Generator γ]

/-- The events stand beside the particles that a set has kept: the event of a
particle tells that its record, as it is kept, came in through the face of the
element that it was laid out on. Particles of cells have no events. -/
structure Announces (env : Surroundings α ω) (dtp : α) (q : Request α) (w : Passage α) (es : List (TrackingEvent α)) :
    Prop where
  count : q.kind = .boundary → es.length = (w.kept dtp).size
  face : q.kind = .boundary → ∀ (j : Nat) (p : Particle α), (w.kept dtp)[j]? = some p →
    ∃ l face globalFace, Traces env q w j l ∧ p = l.last dtp ∧ q.zone.elements[l.element]? = some face ∧
      q.zone.globalId l.element = some globalFace ∧ ∃ e, es[j]? = some e ∧ TellsInflow e p face globalFace
  none : q.kind = .volume → es = []

variable {env : Surroundings α ω} {x : Release.Setting α} {q : Request α} {w : Passage α}

/-- The particles of a boundary set have tables of faces that name, for each, the element that it was laid out on. -/
theorem inflow_of_boundary (h : w.Follows γ env x q) (hkind : q.kind = .boundary) : ∃ faces globalFaces : Array Nat,
    w.inflow x.dtp = inflowThrough (w.kept x.dtp).toList (dropPositions faces w.lost).toList
      (dropPositions globalFaces w.lost).toList ∧
    faces.size = w.located.size ∧ globalFaces.size = w.located.size ∧
    ∀ i k, Release.Owns w.index i k → ∃ face globalFace, q.zone.elements[i]? = some face ∧
      q.zone.globalId i = some globalFace ∧ faces[k]? = some face ∧ globalFaces[k]? = some globalFace := by
  obtain ⟨cs, hindex, hcs⟩ := h.begins.index_eq
  have htables := h.faces
  rw [hindex] at htables
  obtain ⟨faces, globalFaces, hout, hsize, hglobalSize, howned⟩ := facesOf_of_boundary hcs hkind htables
  obtain ⟨hfaces, hglobalFaces⟩ := Prod.mk.inj hout
  have hall : w.located.size = cs.sum := by rw [h.settles.size_located, hindex, Apportion.getLastD_offsets, Nat.zero_add]
  refine ⟨faces, globalFaces, ?_, hsize.trans hall.symm, hglobalSize.trans hall.symm, hindex ▸ howned⟩
  rw [Passage.inflow, hfaces, hglobalFaces]
  rfl

theorem inflow_of_volume (h : w.Follows γ env x q) (hkind : q.kind = .volume) : w.inflow x.dtp = [] := by
  have htables := h.faces
  rw [facesOf, hkind, if_neg (by decide), pure_eq_ok, Prod.mk.injEq] at htables
  rw [Passage.inflow, htables.1]
  rfl

/-- The lost particles leave the tables of faces as they leave the particles, so the others stay beside their faces. -/
theorem announces_inflow (h : w.Follows γ env x q) : Announces env x.dtp q w (w.inflow x.dtp) where
  count hkind := by
    obtain ⟨faces, globalFaces, hinflow, hsize, hglobalSize, -⟩ := inflow_of_boundary h hkind
    simp only [hinflow, inflowThrough, List.length_zipWith, List.length_zip, Array.length_toList, size_dropPositions, hsize,
      hglobalSize, h.size_kept, Passage.origins, Nat.min_self]
  face hkind j p hp := by
    obtain ⟨faces, globalFaces, hinflow, hsize, hglobalSize, howned⟩ := inflow_of_boundary h hkind
    obtain ⟨l, hl, rfl⟩ := h.exists_life hp
    obtain ⟨face, globalFace, hface, hglobalFace, hinFaces, hinGlobalFaces⟩ := howned _ _ hl.owns
    have hleft : ∀ {table : Array Nat} {id : Nat}, table.size = w.located.size → table[l.origin]? = some id →
        (dropPositions table w.lost).toList[j]? = some id := by
      intro table id htable hid
      have horigin : (staying w.located.size w.lost)[j]? = some l.origin := hl.origin
      rw [Array.getElem?_toList, getElem?_dropPositions, htable, horigin, Option.bind_some, hid]
    have hids := List.getElem?_zip_eq_some (z := (face, globalFace)).2
      ⟨hleft hsize hinFaces, hleft hglobalSize hinGlobalFaces⟩
    refine ⟨l, face, globalFace, hl, rfl, hface, hglobalFace, _, ?_, tellsInflow_inflow _ _ _⟩
    rw [hinflow]
    exact List.getElem?_zipWith_eq_some.2 ⟨_, (face, globalFace), by rw [Array.getElem?_toList, hp], hids, rfl⟩
  none hkind := inflow_of_volume h hkind

/-! ## One step -/

/-- A step of a rank that came out as injected. -/
structure Chapter (α γ ω : Type) where
  env : Surroundings α ω
  registry : Registry α
  time : TimeStep α
  wantedLevel : Nat
  before : Run α γ ω
  summary : StepSummary α
  after : Run α γ ω

/-- The step gives out these events: those of the sets that were due, in their
order, where the events of each set stand beside the particles that it kept. -/
def Chapter.Gives (c : Chapter α γ ω) (es : List (TrackingEvent α)) : Prop :=
  ∃ ws, Gained c.env c.registry c.time c.wantedLevel c.before c.after c.summary ws ∧
    List.Forall₂ (fun q w => Announces c.env c.time.dtp q w (w.inflow c.time.dtp))
      (dueSets c.registry c.time c.before) ws ∧
    es = inflowBy c.time.dtp ws

/-- Where events are wanted, a step gives out the events of its particles and no others. -/
theorem exists_gives (c : Chapter α γ ω) (hrecords : records c.before)
    (h : (inject c.env c.registry c.time c.wantedLevel).Yields c.before (.injected c.summary) c.after) :
    ∃ es, c.Gives es ∧ c.after.emitted = c.before.emitted ++ es ∧ records c.after := by
  obtain ⟨ws, hgained⟩ := gained_of_injected h
  have hemitted := hgained.emitted
  rw [if_pos hrecords] at hemitted
  refine ⟨_, ⟨ws, hgained, hgained.passages.imp fun q w hw => announces_inflow hw.1, rfl⟩, hemitted, ?_⟩
  rwa [records_eq hgained.settings hgained.active]

/-! ## Many steps -/

/-- What a rank may go through from the run `r` on, with the steps that came out
as injected. In between, steps may be skipped, the buffer may be emptied, and the
particles, the census and the state of the surroundings may change in any way. -/
inductive Course (r : Run α γ ω) : List (Chapter α γ ω) → Run α γ ω → Prop
  | start : Course r [] r
  | injected {cs : List (Chapter α γ ω)} (c : Chapter α γ ω) (past : Course r cs c.before)
      (step : (inject c.env c.registry c.time c.wantedLevel).Yields c.before (.injected c.summary) c.after) :
      Course r (cs ++ [c]) c.after
  | skipped {m r' : Run α γ ω} {cs : List (Chapter α γ ω)} {env : Surroundings α ω} {registry : Registry α}
      {time : TimeStep α} {wantedLevel current projected ceiling : Nat} (past : Course r cs m)
      (step : (inject env registry time wantedLevel).Yields m (.skipped current projected ceiling) r') : Course r cs r'
  | flush {m : Run α γ ω} {cs : List (Chapter α γ ω)} (past : Course r cs m) : Course r cs m.flushEvents
  | outside {m : Run α γ ω} {cs : List (Chapter α γ ω)} (past : Course r cs m) (population : Population α)
      (census : Census α) (outside : ω) :
      Course r cs { m with injector := { m.injector with population }, census, outside }

/-- Where events are wanted from the beginning, what the sink has and then what
is still in the buffer are the events of all steps, in their order: one for each
particle that a boundary set has kept, with its record and the face of the
element that it was laid out on. -/
theorem inflow_events_paired {r r' : Run α γ ω} {cs : List (Chapter α γ ω)} (h : Course r cs r')
    (hrecords : records r) :
    ∃ ess, List.Forall₂ Chapter.Gives cs ess ∧ r'.emitted = r.emitted ++ ess.flatten ∧ records r' := by
  -- Carried along: events are still wanted, as no step changes the settings and no delivery turns the sink off.
  induction h with
  | start => exact ⟨[], .nil, by rw [List.flatten_nil, List.append_nil], hrecords⟩
  | injected c past step ih =>
    obtain ⟨ess, hess, hemitted, hstill⟩ := ih
    obtain ⟨es, hes, hafter, hrecords⟩ := exists_gives c hstill step
    refine ⟨ess ++ [es], List.rel_append hess (.cons hes .nil), ?_, hrecords⟩
    rw [hafter, hemitted, List.flatten_concat, List.append_assoc]
  | skipped past step ih =>
    obtain ⟨ess, hess, hemitted, hstill⟩ := ih
    obtain ⟨-, -, flow, log, -, rfl⟩ := yields_inject_skipped step
    exact ⟨ess, hess, hemitted, hstill⟩
  | flush past ih =>
    obtain ⟨ess, hess, hemitted, hstill⟩ := ih
    have hactive := (Bool.and_eq_true_iff.1 hstill).2
    refine ⟨ess, hess, (Run.emitted_flushEvents hactive).trans hemitted, ?_⟩
    rw [← hstill]
    exact records_eq rfl (Sink.active_deliver _ _)
  | outside past population census outside ih => exact ih

/-- A step that a group comes out of as injected is a course of each of its ranks. -/
theorem Course.of_run {ranks : Nat} {env : Fin ranks → Surroundings α ω} {registry : Fin ranks → Registry α}
    {rs ts : Fin ranks → Run α γ ω} {time : TimeStep α} {wantedLevel : Fin ranks → Nat} {s : Fin ranks → StepSummary α}
    (h : Results (fun i => inject (env i) (registry i) time (wantedLevel i)) rs (fun i => .injected (s i)) ts)
    (i : Fin ranks) : Course (rs i) [⟨env i, registry i, time, wantedLevel i, rs i, s i, ts i⟩] (ts i) :=
  .injected ⟨env i, registry i, time, wantedLevel i, rs i, s i, ts i⟩ .start (h.yields i)

/-! ## A pair that wants events -/

/-- The runs of the pair, with events wanted. -/
def recordingRuns (i : Fin 2) : Run ℚ ChaCha.State Unit :=
  { pairRuns 10 i with injector := { (pairRuns 10 i).injector with settings := { ceiling := 10, collectEvents := true } } }

/-- The registry of the pair, with a number over all ranks for the face of each. -/
def numberedRegistry (i : Fin 2) : Registry ℚ where
  boundary := [{
    zone := { id := 0, name := "inlet", kind := .boundary, elements := #[0], globalIds := some #[40 + i] }
    nature := .inlet
    sets := [{ InjectionSet.standard with count := 4 }] }]

/-- The first step of a rank of the pair that wants events. -/
def recordingStep (i : Fin 2) : Program ℚ PairEnd :=
  (inject (pairEnv i) (numberedRegistry i) firstStep 0).on (recordingRuns i)

/-- An event that tells of a particle coming in through the face of its rank. -/
def cameIn (e : TrackingEvent ℚ) : Bool :=
  e.flags.contains .inflow && e.face == 0 && e.globalFace == 40 + e.particle.previousRank

/-- Once the buffer is emptied, the sink has such an event for each particle of the rank. -/
def sinksAll (out : PairEnd) : Bool :=
  out.2.flushEvents.sink.events.size == out.2.injector.population.size && out.2.flushEvents.sink.events.all cameIn

/-- Of four particles two are lost; the sink gets the events of the others. -/
theorem inflow_events_paired_onPair : ∃ (s : Fin 2 → StepSummary ℚ) (ts : Fin 2 → Run ℚ ChaCha.State Unit),
    Group.run (List.ofFn recordingStep) = some (List.ofFn fun i => (.ok (.injected (s i)), ts i)) ∧
    ∀ i, (s i).released = 2 ∧ (ts i).flushEvents.sink.events.size = (ts i).injector.population.size ∧
      (ts i).flushEvents.sink.events.all cameIn = true ∧
      ∃ ess, List.Forall₂ Chapter.Gives
          [⟨pairEnv i, numberedRegistry i, firstStep, 0, recordingRuns i, s i, ts i⟩] ess ∧
        (ts i).flushEvents.emitted = (recordingRuns i).emitted ++ ess.flatten ∧ records (ts i).flushEvents := by
  have hall : (Group.run (List.ofFn recordingStep)).map (·.all fun out => releasedCount 2 out && sinksAll out) =
      some true := by decide +kernel
  obtain ⟨s, ts, hrun, htest⟩ := released_of_all sinksAll hall
  refine ⟨s, ts, hrun, fun i => ?_⟩
  obtain ⟨hsize, hcame⟩ := Bool.and_eq_true_iff.1 (htest i).2
  exact ⟨(htest i).1, beq_iff_eq.1 hsize, hcame, inflow_events_paired (.flush (.of_run hrun i)) rfl⟩

end Inflow.Injector
