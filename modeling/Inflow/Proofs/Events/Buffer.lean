import Inflow.Events.Buffer
import Inflow.Events.Sink
import Inflow.Proofs.Fault
/-!
# Buffers hand on every event once

An event goes into the buffer, and from there, in some batch, to the sink. Whatever is
done with a buffer and in whatever order, what the sink has and what is still in the
buffer are together the events that went in, in their order.
-/

namespace Inflow

variable {α : Type}

/-! ## Taking batches -/

theorem Sink.active_deliver (s : Sink α) (batch : Option (Array (TrackingEvent α))) :
    (s.deliver batch).active = s.active := by
  unfold deliver
  split
  · split <;> rfl
  · rfl

theorem Sink.events_deliver {s : Sink α} (h : s.active) (batch : Option (Array (TrackingEvent α))) :
    (s.deliver batch).events.toList = s.events.toList ++ (batch.getD #[]).toList := by
  cases batch with
  | none => simp [deliver]
  | some events => simp [deliver, h]

theorem Sink.batches_deliver {s : Sink α} (h : s.active) (batch : Option (Array (TrackingEvent α))) :
    (s.deliver batch).batches = s.batches + batch.toList.length := by
  cases batch with
  | none => rfl
  | some events => simp [deliver, h]

namespace EventBuffer

/-! ## Handing on and taking in -/

variable (b : EventBuffer α)

theorem handedOn_flush : (b.flush.1.getD #[]).toList ++ b.flush.2.events.toList = b.events.toList := by
  unfold flush
  split <;> simp

theorem handedOn_push (e : TrackingEvent α) :
    ((b.push e).1.getD #[]).toList ++ (b.push e).2.events.toList = b.events.toList ++ [e] := by
  unfold push
  split
  · simp only [Array.toList_push]
    rw [← List.append_assoc, handedOn_flush]
  · simp

theorem events_ensureCapacity (n : Nat) : (b.ensureCapacity n).state.events = b.events := by
  unfold ensureCapacity
  split <;> rfl

@[simp] theorem capacity_flush : b.flush.2.capacity = b.capacity := by
  unfold flush
  split <;> rfl

@[simp] theorem capacity_push (e : TrackingEvent α) : (b.push e).2.capacity = b.capacity := by
  unfold push
  split <;> simp

theorem capacity_ensureCapacity (n : Nat) : (b.ensureCapacity n).state.capacity = max b.capacity n := by
  unfold ensureCapacity
  split <;> simp only <;> omega

/-- Nothing is left in a buffer that has been flushed. -/
theorem events_flush : b.flush.2.events = #[] := by
  unfold flush
  split
  · rename_i hempty
    exact Array.isEmpty_iff.1 hempty
  · rfl

variable {b}

theorem ne_empty_of_flush {batch : Array (TrackingEvent α)} (h : b.flush.1 = some batch) : batch ≠ #[] := by
  unfold flush at h
  split at h
  · cases h
  · rename_i hfull
    cases h
    exact fun hempty => hfull (Array.isEmpty_iff.2 hempty)

theorem ne_empty_of_push {e : TrackingEvent α} {batch : Array (TrackingEvent α)} (h : (b.push e).1 = some batch) :
    batch ≠ #[] := by
  unfold push at h
  split at h
  · exact ne_empty_of_flush h
  · cases h

/-- The buffer holds no more than its capacity, or a single event where it has none. -/
def Fits (b : EventBuffer α) : Prop := b.size ≤ max b.capacity 1

theorem fits_of_events_eq_empty (h : b.events = #[]) : b.Fits := by
  rw [Fits, size, h]
  exact Nat.zero_le _

/-- A full buffer is empty when the event comes in, and any other one has room for it. -/
theorem fits_push (e : TrackingEvent α) : (b.push e).2.Fits := by
  rw [Fits, capacity_push]
  unfold push
  split
  · simp only [size, events_flush, Array.size_push, Array.size_empty]
    omega
  · rename_i hroom
    simp only [size, Array.size_push] at hroom ⊢
    omega

theorem Fits.ensureCapacity (h : b.Fits) (n : Nat) : (b.ensureCapacity n).state.Fits := by
  rw [Fits, size, events_ensureCapacity, capacity_ensureCapacity]
  rw [Fits, size] at h
  omega

/-! ## One operation -/

/-- What can be done with a buffer. -/
inductive Operation (α : Type) where
  | push (e : TrackingEvent α)
  | ensureCapacity (n : Nat)
  | flush

namespace Operation

/-- The event that goes into the buffer, if it is one that takes an event in. -/
def entered : Operation α → List (TrackingEvent α)
  | push e => [e]
  | ensureCapacity _ | flush => []

/-- Carries the operation out. A buffer whose storage for a higher capacity cannot
exist stays in use as it is left. -/
def on : Operation α → EventBuffer α → Option (Array (TrackingEvent α)) × EventBuffer α
  | push e, b => b.push e
  | ensureCapacity n, b => (none, (b.ensureCapacity n).state)
  | flush, b => b.flush

variable (o : Operation α) (b : EventBuffer α)

theorem handedOn_on : ((o.on b).1.getD #[]).toList ++ (o.on b).2.events.toList = b.events.toList ++ o.entered := by
  cases o with
  | push e => exact b.handedOn_push e
  | ensureCapacity n => simp [on, entered, events_ensureCapacity]
  | flush => simpa [on, entered] using b.handedOn_flush

theorem capacity_le_on : b.capacity ≤ (o.on b).2.capacity := by
  cases o with
  | push e => simp [on]
  | ensureCapacity n => simp [on, capacity_ensureCapacity]
  | flush => simp [on]

variable {o b}

theorem ne_empty_of_on {batch : Array (TrackingEvent α)} (h : (o.on b).1 = some batch) : batch ≠ #[] := by
  cases o with
  | push e => exact ne_empty_of_push h
  | ensureCapacity n => cases h
  | flush => exact ne_empty_of_flush h

theorem fits_on (h : b.Fits) : (o.on b).2.Fits := by
  cases o with
  | push e => exact fits_push e
  | ensureCapacity n => exact h.ensureCapacity n
  | flush => exact fits_of_events_eq_empty b.events_flush

end Operation

/-! ## Many operations -/

/-- A buffer in use, with the sink that takes its batches. -/
structure Session (α : Type) where
  buffer : EventBuffer α
  sink : Sink α := .recording
  /-- The batches that the sink has been given. -/
  batches : List (Array (TrackingEvent α)) := []

namespace Session

def perform (x : Session α) (o : Operation α) : Session α :=
  let (batch, buffer) := o.on x.buffer
  { buffer, sink := x.sink.deliver batch, batches := x.batches ++ batch.toList }

/-- Performs operations one after the other. -/
def run (x : Session α) (os : List (Operation α)) : Session α := os.foldl perform x

variable {x : Session α} {es : List (TrackingEvent α)}

/-- What holds of a session into which these events have gone. -/
structure Sound (x : Session α) (es : List (TrackingEvent α)) : Prop where
  active : x.sink.active = true
  /-- The sink has the first of them, and the buffer the others. -/
  inOrder : x.sink.events.toList ++ x.buffer.events.toList = es
  fits : x.buffer.size ≤ max x.buffer.capacity 1
  /-- The sink has what it was given. -/
  received : x.sink.events.toList = (x.batches.map Array.toList).flatten
  counted : x.sink.batches = x.batches.length
  nonempty : ∀ batch ∈ x.batches, batch ≠ #[]

theorem Sound.perform (h : x.Sound es) (o : Operation α) : (x.perform o).Sound (es ++ o.entered) where
  active := (Sink.active_deliver _ _).trans h.active
  inOrder := by
    rw [Session.perform, Sink.events_deliver h.active, List.append_assoc, o.handedOn_on, ← List.append_assoc, h.inOrder]
  fits := Operation.fits_on h.fits
  received := by
    simp only [Session.perform, Sink.events_deliver h.active, h.received, List.map_append, List.flatten_append]
    cases (o.on x.buffer).1 <;> simp
  counted := by
    rw [Session.perform, Sink.batches_deliver h.active, h.counted, List.length_append]
  nonempty batch hbatch := by
    rcases List.mem_append.1 hbatch with hbefore | hnow
    · exact h.nonempty batch hbefore
    · exact Operation.ne_empty_of_on (Option.mem_toList.1 hnow)

theorem Sound.run (h : x.Sound es) (os : List (Operation α)) :
    (x.run os).Sound (es ++ os.flatMap Operation.entered) := by
  induction os generalizing x es with
  | nil => simpa [Session.run] using h
  | cons o os ih =>
    rw [List.flatMap_cons, ← List.append_assoc]
    exact ih (h.perform o)

theorem capacity_le_run (x : Session α) (os : List (Operation α)) : x.buffer.capacity ≤ (x.run os).buffer.capacity := by
  induction os generalizing x with
  | nil => exact Nat.le_refl _
  | cons o os ih => exact (o.capacity_le_on x.buffer).trans (ih (x.perform o))

end Session

/-- A buffer that is new: the standard one, or one made for a number of events. -/
def IsNew (b : EventBuffer α) : Prop := b = {} ∨ ∃ n, withCapacity n = .ok b

theorem IsNew.events_eq (h : b.IsNew) : b.events = #[] := by
  rcases h with rfl | ⟨n, hn⟩
  · rfl
  · obtain ⟨-, -, hb⟩ := bind_eq_ok.1 hn
    rw [pure_eq_ok.1 hb]

theorem IsNew.sound (h : b.IsNew) : ({ buffer := b } : Session α).Sound [] where
  active := rfl
  inOrder := by rw [h.events_eq]; rfl
  fits := fits_of_events_eq_empty h.events_eq
  received := rfl
  counted := rfl
  nonempty _ hbatch := absurd hbatch List.not_mem_nil

/-- A new buffer may be used in any way. At every moment the sink and the buffer
have the events that went in, in their order; the buffer is within its capacity,
which is never lowered, and no batch was empty. -/
theorem handed_on_once (h : b.IsNew) (os more : List (Operation α)) :
    let x := Session.run { buffer := b } os
    x.Sound (os.flatMap Operation.entered) ∧ x.buffer.capacity ≤ (x.run more).buffer.capacity :=
  ⟨h.sound.run os, Session.capacity_le_run _ more⟩

/-- The event of a blank particle at a face. -/
def blankInflow (face : Nat) : TrackingEvent Float := .inflow .blank face face

/-- Of three events the first has to make room for the second in a buffer without
capacity, and the third finds room once that is raised. -/
theorem handed_on_once_crowded :
    let x := Session.run { buffer := {} } [.push (blankInflow 0), .push (blankInflow 1), .ensureCapacity 2,
      .push (blankInflow 2)]
    (x.sink.batches = 1 ∧ x.buffer.size = 2 ∧ x.buffer.capacity = 2) ∧
      x.Sound [blankInflow 0, blankInflow 1, blankInflow 2] ∧
      x.buffer.capacity ≤ (x.run [.flush]).buffer.capacity :=
  ⟨⟨rfl, rfl, rfl⟩, handed_on_once (.inl rfl) [.push (blankInflow 0), .push (blankInflow 1), .ensureCapacity 2,
    .push (blankInflow 2)] [.flush]⟩

end EventBuffer
end Inflow
