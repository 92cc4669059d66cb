import Inflow.Proofs.Events.Buffer
import Inflow.Proofs.Injector.Set
/-!
# What a rank gains

A rank's run gains particles, at the end of its population, and events. Events
are first buffered and later handed on, batch by batch; `Run.emitted` is all of
them in their order, wherever they are. `Grew` says that a run has gained these
particles and these events and that its settings and its census are the same.
-/

namespace Inflow

variable {α γ ω : Type}

/-! ## Events -/

/-- The events that a run has given out: those that the sink has, then those in the buffer. -/
def Run.emitted (r : Run α γ ω) : List (TrackingEvent α) := r.sink.events.toList ++ r.injector.events.events.toList

/-- Handing on what is in the buffer gives nothing out and loses nothing. -/
theorem Run.emitted_flushEvents {r : Run α γ ω} (h : r.sink.active) : r.flushEvents.emitted = r.emitted := by
  simp only [emitted, flushEvents, Sink.events_deliver h, List.append_assoc, EventBuffer.handedOn_flush]

/-! ## Particles -/

namespace Population

variable {pop : Population α} {old : Array (Particle α)} {ps : List (Particle α)}

theorem tail_of_append (h : pop.particles.toList = old.toList ++ ps) : pop.tail old.size = ps.toArray := by
  rw [tail, ← Array.toList_inj, Array.toList_extract, List.extract_eq_take_drop, List.take_of_length_le (by simp), h,
    ← Array.length_toList, List.drop_left]

theorem withTail_of_append (h : pop.particles.toList = old.toList ++ ps) (qs : Array (Particle α)) :
    (pop.withTail old.size qs).particles.toList = old.toList ++ qs.toList := by
  rw [withTail, Array.toList_append, Array.toList_shrink, h, ← Array.length_toList, List.take_left]

theorem removeFrom_of_append (h : pop.particles.toList = old.toList ++ ps) (lost : List Nat) :
    (pop.removeFrom old.size lost).2.particles.toList = old.toList ++ (dropPositions ps.toArray lost).toList := by
  rw [removeFrom_eq, tail_of_append h, withTail_of_append h]

end Population

namespace Injector

/-- The particles that a run has gained since an earlier one. -/
def gainedSince (r r' : Run α γ ω) : List (Particle α) :=
  (r'.injector.population.tail r.injector.population.size).toList

/-- The run `r'` is `r` with these particles and events more. -/
structure Grew (r r' : Run α γ ω) (ps : List (Particle α)) (es : List (TrackingEvent α)) : Prop where
  particles : r'.injector.population.particles.toList = r.injector.population.particles.toList ++ ps
  emitted : r'.emitted = r.emitted ++ es
  settings : r'.injector.settings = r.injector.settings
  census : r'.census = r.census
  active : r'.sink.active = r.sink.active

namespace Grew

variable {r s t : Run α γ ω} {ps qs : List (Particle α)} {es fs : List (TrackingEvent α)}

theorem refl (r : Run α γ ω) : Grew r r [] [] := ⟨by simp, by simp, rfl, rfl, rfl⟩

theorem trans (h : Grew r s ps es) (h' : Grew s t qs fs) : Grew r t (ps ++ qs) (es ++ fs) where
  particles := by rw [h'.particles, h.particles, List.append_assoc]
  emitted := by rw [h'.emitted, h.emitted, List.append_assoc]
  settings := h'.settings.trans h.settings
  census := h'.census.trans h.census
  active := h'.active.trans h.active

/-- The particles that a run has gained are those from its old size on. -/
theorem tail (h : Grew r s ps es) : s.injector.population.tail r.injector.population.size = ps.toArray :=
  Population.tail_of_append h.particles

theorem gainedSince_eq (h : Grew r s ps es) : gainedSince r s = ps := by rw [gainedSince, h.tail]

/-- Other particles in the place of those gained. -/
theorem edit (h : Grew r s ps es) {population : Population α}
    (hqs : population.particles.toList = r.injector.population.particles.toList ++ qs) (stream : RandomStream γ)
    (outside : ω) (log : Array Message) :
    Grew r { s with injector := { s.injector with stream, population }, outside, log } qs es :=
  ⟨hqs, h.emitted, h.settings, h.census, h.active⟩

end Grew
/-! ## Parts of a set's work -/

open Step

variable {r r' : Run α γ ω}

/-- Inflow events are wanted. -/
def records (r : Run α γ ω) : Bool := r.injector.settings.collectEvents && r.sink.active

/-- The inflow events of particles with their faces beside them. -/
def inflowThrough (ps : List (Particle α)) (faces globalFaces : List Nat) : List (TrackingEvent α) :=
  ps.zipWith (fun p ids => TrackingEvent.inflow p ids.1 ids.2) (faces.zip globalFaces)

/-- The inflow events of particles, if they came through faces. -/
def announce (ps : Array (Particle α)) : Option (Array Nat) → Option (Array Nat) → List (TrackingEvent α)
  | some faces, some globalFaces => inflowThrough ps.toList faces.toList globalFaces.toList
  | _, _ => []

theorem grew_recordEvent {e : TrackingEvent α} {u : Unit} (h : (recordEvent e).Yields r u r') (hactive : r.sink.active) :
    Grew r r' [] [e] := by
  obtain rfl := yields_modify.1 h
  refine ⟨(List.append_nil _).symm, ?_, rfl, rfl, Sink.active_deliver _ _⟩
  simp only [Run.emitted, Sink.events_deliver hactive, List.append_assoc, EventBuffer.handedOn_push]

theorem grew_recordInflow {ps : List (Particle α)} {faces globalFaces : List Nat} {u : Unit}
    (h : (recordInflow ps faces globalFaces).Yields r u r') (hactive : r.sink.active) :
    Grew r r' [] (inflowThrough ps faces globalFaces) := by
  induction ps generalizing faces globalFaces r with
  | nil => exact (yields_pure.1 h).2 ▸ .refl _
  | cons p ps ih =>
    cases faces with
    | nil => exact (yields_pure.1 h).2 ▸ .refl _
    | cons face faces =>
      cases globalFaces with
      | nil => exact (yields_pure.1 h).2 ▸ .refl _
      | cons globalFace globalFaces =>
        obtain ⟨_, m, hfirst, hrest⟩ := yields_bind.1 h
        have hgrew := grew_recordEvent hfirst hactive
        exact hgrew.trans (ih hrest (hgrew.active.trans hactive))

/-- The fresh particles of a zone of faces give out one event each, if events are wanted. -/
theorem grew_recordFresh {env : Surroundings α ω} {start : Nat} {faces globalFaces : Option (Array Nat)} {u : Unit}
    (h : (recordFresh env start faces globalFaces).Yields r u r') :
    Grew r r' [] (if records r then announce (r.injector.population.tail start) faces globalFaces else []) := by
  unfold recordFresh at h
  split at h
  · simp only [yields_bind, yields_get] at h
    obtain ⟨_, r, ⟨rfl, rfl⟩, h⟩ := h
    split at h
    · rename_i hrecords
      simp only [yields_bind, yields_updateInjector] at h
      obtain ⟨_, m, hm, h⟩ := h
      have hgrew : Grew r m [] [] := by
        subst hm
        refine ⟨(List.append_nil _).symm, ?_, rfl, rfl, rfl⟩
        rw [List.append_nil, Run.emitted, EventBuffer.events_ensureCapacity]
        rfl
      have hactive := (Bool.and_eq_true_iff.1 hrecords).2
      split at h
      · simp at h
      · simp only [yields_bind, yields_fresh] at h
        obtain ⟨_, _, ⟨rfl, rfl⟩, h⟩ := h
        have hrecorded := grew_recordInflow h (hgrew.active.trans hactive)
        rw [records, if_pos hrecords]
        subst hm
        exact hgrew.trans hrecorded
    · rename_i hrecords
      obtain ⟨-, rfl⟩ := yields_pure.1 h
      rw [records, if_neg hrecords]
      exact .refl _
  · rename_i hfaces
    obtain ⟨-, rfl⟩ := yields_pure.1 h
    have hnone : announce (r'.injector.population.tail start) faces globalFaces = [] := by
      unfold announce
      split
      · exact absurd rfl (hfaces _ _ rfl)
      · rfl
    rw [hnone, ite_self]
    exact .refl _

variable [Scalar α] {env : Surroundings α ω} {q : Request α}

theorem grew_closeSet {start kept : Nat} (h : (closeSet q start).Yields r kept r') : Grew r r' [] [] := by
  obtain ⟨flow, population, -, -, hpopulation, rfl⟩ := closeSet_cases h
  have hparticles := (Population.recordReleased_ok _ hpopulation).2
  exact ⟨by rw [List.append_nil, ← hparticles], (List.append_nil _).symm, rfl, rfl, rfl⟩

theorem grew_appendBlank {memory : Memory} {n : Nat} {population : Population α}
    (h : ∃ range, r.injector.population.appendBlankFrom memory n = .ok ⟨.ok range, population⟩)
    (stream : RandomStream γ) (log : Array Message) :
    Grew r { r with injector := { r.injector with stream, population }, log } (List.replicate n .blank) [] := by
  obtain ⟨range, hgrown⟩ := h
  have hparticles := (Population.appendBlankFrom_ok hgrown).2.1
  refine ⟨?_, (List.append_nil _).symm, rfl, rfl, rfl⟩
  simp only [hparticles, Array.toList_append, Array.toList_replicate]

end Injector
end Inflow
