import Inflow.Proofs.Fault
import Inflow.Proofs.Particle.Removal
/-!
# Storage that particles grow into

A population has storage set aside for its particles and for more to come. Whatever is
done with it, and whether or not memory is given out, the particles are never more than
the storage holds. New particles stand blank behind the old ones, and storage that grows
at least doubles. A population that cannot grow stays as it is.
-/

namespace Inflow.Population

variable {α : Type} {pop next : Population α} {memory : Memory}

/-! ## Setting storage aside -/

/-- A table of so many particles can exist, and memory is given out for it. -/
def Granted (memory : Memory) (capacity : Nat) : Prop :=
  capacity * recordBytes ≤ Count.byteLimit ∧ memory (capacity * recordBytes) = true

/-- Storage is set aside exactly where it is granted, and else nothing changes. -/
theorem reserve_cases (pop : Population α) (memory : Memory) (extra : Nat) :
    Granted memory (pop.size + extra) ∧
        pop.reserve memory extra = ⟨.ok (), { pop with capacity := pop.size + extra }⟩ ∨
      ¬ Granted memory (pop.size + extra) ∧ ∃ limit, pop.reserve memory extra = ⟨.error limit, pop⟩ := by
  unfold reserve Granted
  simp only
  split
  · rename_i hlarge
    exact .inr ⟨fun hgranted => Nat.not_le.2 hlarge hgranted.1, _, rfl⟩
  · rename_i hstorable
    split
    · rename_i hgiven
      exact .inl ⟨⟨Nat.le_of_not_lt hstorable, hgiven⟩, rfl⟩
    · rename_i hgiven
      exact .inr ⟨fun hgranted => hgiven hgranted.2, _, rfl⟩

/-- Where room is asked for there is enough already, or storage is set aside anew, or
nothing changes. -/
theorem ensureCapacityFrom_cases (pop : Population α) (memory : Memory) (n : Nat) :
    n ≤ pop.capacity ∧ pop.ensureCapacityFrom memory n = ⟨.ok (), pop⟩ ∨
      pop.capacity < n ∧ (Granted memory (pop.size + pop.reservation n) ∧
          pop.ensureCapacityFrom memory n = ⟨.ok (), { pop with capacity := pop.size + pop.reservation n }⟩ ∨
        ¬ Granted memory (pop.size + pop.reservation n) ∧
          ∃ limit, pop.ensureCapacityFrom memory n = ⟨.error { requested := n, limit }, pop⟩) := by
  unfold ensureCapacityFrom
  split
  · rename_i henough
    exact .inl ⟨henough, rfl⟩
  · rename_i hmore
    refine .inr ⟨Nat.lt_of_not_le hmore, ?_⟩
    obtain ⟨hgranted, hreserve⟩ | ⟨hrefused, limit, hreserve⟩ := pop.reserve_cases memory (pop.reservation n)
    · exact .inl ⟨hgranted, by rw [hreserve]; rfl⟩
    · exact .inr ⟨hrefused, limit, by rw [hreserve]; rfl⟩

/-- Room for more particles changes none of those that there are, and where there can be
none, it changes nothing. -/
theorem ensureCapacityFrom_eq (pop : Population α) (memory : Memory) (n : Nat) :
    (∃ capacity, pop.ensureCapacityFrom memory n = ⟨.ok (), { pop with capacity }⟩) ∨
      ∃ e, pop.ensureCapacityFrom memory n = ⟨.error e, pop⟩ := by
  obtain ⟨-, henough⟩ | ⟨-, ⟨-, hgrown⟩ | ⟨-, limit, hrefused⟩⟩ := pop.ensureCapacityFrom_cases memory n
  · exact .inl ⟨_, henough⟩
  · exact .inl ⟨_, hgrown⟩
  · exact .inr ⟨_, hrefused⟩

/-! ## Appending -/

section Appending

variable [Zero α] {n : Nat} {range : Span}

/-- Appending asks for room, and fails where there can be none. -/
theorem appendBlankFrom_of_le (hcount : pop.size + n ≤ Count.limit) :
    (∃ capacity, pop.ensureCapacityFrom memory (pop.size + n) = ⟨.ok (), { pop with capacity }⟩ ∧
        pop.appendBlankFrom memory n = .ok ⟨.ok { start := pop.size, stop := pop.size + n },
          { pop with capacity, particles := pop.particles ++ Array.replicate n .blank }⟩) ∨
      ∃ e, pop.ensureCapacityFrom memory (pop.size + n) = ⟨.error e, pop⟩ ∧
        pop.appendBlankFrom memory n = .ok ⟨.error e, pop⟩ := by
  have hstop : Count.add pop.size n = .ok (pop.size + n) := Count.add_eq_ok.2 ⟨rfl, hcount⟩
  obtain ⟨capacity, hroom⟩ | ⟨e, hnone⟩ := pop.ensureCapacityFrom_eq memory (pop.size + n)
  · refine .inl ⟨capacity, hroom, ?_⟩
    simp only [appendBlankFrom, hstop, bind, Except.bind, hroom]
    rfl
  · refine .inr ⟨e, hnone, ?_⟩
    simp only [appendBlankFrom, hstop, bind, Except.bind, hnone]
    rfl

theorem appendBlankFrom_eq_error {f : Fault} (h : pop.appendBlankFrom memory n = .error f) :
    f = .overflow ∧ Count.limit < pop.size + n := by
  by_cases hcount : pop.size + n ≤ Count.limit
  · obtain ⟨_, -, hok⟩ | ⟨_, -, hok⟩ := appendBlankFrom_of_le hcount <;> cases hok.symm.trans h
  · unfold appendBlankFrom at h
    rcases bind_eq_error.1 h with h | ⟨stop, hstop, -⟩
    · exact ⟨Count.checked_eq_error h, Nat.lt_of_not_le hcount⟩
    · exact absurd (Count.add_eq_ok.1 hstop).2 hcount

theorem le_of_appendBlankFrom {change : Change α GrowthError Span} (h : pop.appendBlankFrom memory n = .ok change) :
    pop.size + n ≤ Count.limit := by
  obtain ⟨stop, hstop, -⟩ := bind_eq_ok.1 h
  exact (Count.add_eq_ok.1 hstop).2

/-- What is appended stands behind what there was. -/
theorem appendBlankFrom_ok (h : pop.appendBlankFrom memory n = .ok ⟨.ok range, next⟩) :
    range = { start := pop.size, stop := pop.size + n } ∧
      next.particles = pop.particles ++ Array.replicate n .blank ∧ next.released = pop.released := by
  obtain ⟨_, -, hok⟩ | ⟨_, -, hok⟩ := appendBlankFrom_of_le (le_of_appendBlankFrom h)
  · cases hok.symm.trans h
    exact ⟨rfl, rfl, rfl⟩
  · cases hok.symm.trans h

/-- Where nothing can be appended, nothing changes. -/
theorem appendBlankFrom_failed {e : GrowthError} (h : pop.appendBlankFrom memory n = .ok ⟨.error e, next⟩) :
    next = pop := by
  obtain ⟨_, -, hok⟩ | ⟨_, -, hok⟩ := appendBlankFrom_of_le (le_of_appendBlankFrom h)
  · cases hok.symm.trans h
  · cases hok.symm.trans h
    rfl

end Appending

/-! ## Counting what is released -/

variable (pop) in
theorem recordReleased_ok [Add α] {n : Nat} {weight : α} (h : pop.recordReleased n weight = .ok next) :
    next.released = pop.released + n ∧ next.particles = pop.particles := by
  obtain ⟨k, hk, h⟩ := bind_eq_ok.1 h
  rw [pure_eq_ok.1 h]
  exact ⟨(Count.add_eq_ok.1 hk).1, rfl⟩

variable (pop) in
theorem recordReleased_eq_error [Add α] {n : Nat} {weight : α} {f : Fault}
    (h : pop.recordReleased n weight = .error f) : f = .overflow := by
  unfold recordReleased at h
  exact Count.checked_eq_error (bind_pure_eq_error.1 h)

/-! ## Populations that fit into their storage -/

/-- The particles fit into the storage, and the storage is a table that can exist. -/
structure Sound (pop : Population α) : Prop where
  size_le : pop.size ≤ pop.capacity
  storable : pop.capacity * recordBytes ≤ Count.byteLimit

/-- The storage after room for `n` particles was asked for: enough, and twice what there
was or more, unless it has not grown. -/
structure Grown (pop next : Population α) (n : Nat) : Prop where
  enough : n ≤ next.capacity
  doubled : next.capacity = pop.capacity ∨ pop.capacity < n ∧ next.capacity = max n (2 * pop.capacity)

namespace Sound

/-- No table is so large that doubling its storage leaves the range of counts. -/
theorem target_eq (h : pop.Sound) (n : Nat) : pop.target n = max n (2 * pop.capacity) := by
  have hstorable := h.storable
  have hlimits : 2 * Count.byteLimit < Count.limit * recordBytes := by decide
  rw [recordBytes] at hstorable hlimits
  rw [target, Nat.min_eq_left (by omega)]

/-- What growth aims at is never less than there is. -/
theorem size_le_target (h : pop.Sound) (n : Nat) : pop.size ≤ pop.target n := by
  have hsize := h.size_le
  rw [h.target_eq]
  omega

theorem size_add_reservation (h : pop.Sound) (n : Nat) : pop.size + pop.reservation n = pop.target n :=
  Nat.add_sub_cancel' (h.size_le_target n)

theorem of_ensureCapacityFrom (h : pop.Sound) {n : Nat} (hok : pop.ensureCapacityFrom memory n = ⟨.ok (), next⟩) :
    next.Sound ∧ Grown pop next n := by
  obtain ⟨henough, hroom⟩ | ⟨hmore, ⟨hgranted, hroom⟩ | ⟨-, limit, hnone⟩⟩ := pop.ensureCapacityFrom_cases memory n
  · cases hroom.symm.trans hok
    exact ⟨h, henough, .inl rfl⟩
  · cases hroom.symm.trans hok
    rw [h.size_add_reservation] at hgranted ⊢
    have htarget := h.target_eq n
    exact ⟨⟨h.size_le_target n, hgranted.1⟩, Nat.le_max_left _ _, .inr ⟨hmore, htarget⟩⟩
  · cases hnone.symm.trans hok

/-- Other particles may stand in the storage, as long as they are not more. -/
theorem exchange (h : pop.Sound) {particles : Array (Particle α)} (hsize : particles.size ≤ pop.capacity) :
    ({ pop with particles } : Population α).Sound ∧ Grown pop { pop with particles } 0 :=
  ⟨⟨hsize, h.storable⟩, Nat.zero_le _, .inl rfl⟩

theorem of_appendBlankFrom [Zero α] (h : pop.Sound) {n : Nat} {range : Span}
    (hok : pop.appendBlankFrom memory n = .ok ⟨.ok range, next⟩) : next.Sound ∧ Grown pop next (pop.size + n) := by
  obtain ⟨capacity, hroom, happend⟩ | ⟨_, -, hnone⟩ := appendBlankFrom_of_le (le_of_appendBlankFrom hok)
  · cases happend.symm.trans hok
    obtain ⟨hsound, hgrown⟩ := h.of_ensureCapacityFrom hroom
    refine ⟨(hsound.exchange ?_).1, hgrown.enough, hgrown.doubled⟩
    rw [Array.size_append, Array.size_replicate]
    exact hgrown.enough
  · cases hnone.symm.trans hok

end Sound

/-! ## Operations -/

/-- What can be done with a population. Growth says what memory there is then, and an
edit what becomes of the record at each index. -/
inductive Operation (α : Type) where
  | append (memory : Memory) (n : Nat)
  | ensureCapacity (memory : Memory) (n : Nat)
  | blankAt (i : Nat)
  | edit (f : Nat → Particle α → Particle α)
  | removeFrom (start : Nat) (lost : List Nat)
  | retain (keep : Particle α → Bool)

/-- A change that cannot fail. -/
def Change.made (pop : Population α) : Change α GrowthError Unit := ⟨.ok (), pop⟩

namespace Operation

variable [Zero α]

/-- What comes of an operation, unless it stops at a fault. -/
def on : Operation α → Population α → Checked (Change α GrowthError Unit)
  | append memory n, pop => do
    let change ← pop.appendBlankFrom memory n
    return { change with result := change.result.map fun _ => () }
  | ensureCapacity memory n, pop => .ok (pop.ensureCapacityFrom memory n)
  | blankAt i, pop => (pop.blankAt i).map .made
  | edit f, pop => .ok (.made { pop with particles := pop.particles.mapIdx f })
  | removeFrom start lost, pop => .ok (.made (pop.removeFrom start lost).2)
  | retain keep, pop => .ok (.made (pop.retain keep))

/-- The number of particles that an operation asks room for. -/
def room (pop : Population α) : Operation α → Nat
  | append _ n => pop.size + n
  | ensureCapacity _ n => n
  | _ => 0

theorem on_append {n : Nat} {change : Change α GrowthError Unit} (h : (append memory n).on pop = .ok change) :
    ∃ appended, pop.appendBlankFrom memory n = .ok appended ∧ change.population = appended.population ∧
      change.result = appended.result.map fun _ => () := by
  obtain ⟨appended, happended, h⟩ := bind_eq_ok.1 h
  rw [pure_eq_ok.1 h]
  exact ⟨appended, happended, rfl, rfl⟩

variable {o : Operation α}

/-- An operation that is carried out leaves the particles in their storage, and if that
has grown, it is large enough and at least twice what it was. -/
theorem sound_on (h : pop.Sound) (hok : o.on pop = .ok ⟨.ok (), next⟩) : next.Sound ∧ Grown pop next (o.room pop) := by
  -- Only the first two can make the storage grow; the others have to fit into it.
  cases o with
  | append memory n =>
    obtain ⟨⟨result, population⟩, happended, rfl, hresult⟩ := on_append hok
    cases result with
    | error e => cases hresult
    | ok range => exact h.of_appendBlankFrom happended
  | ensureCapacity memory n => exact h.of_ensureCapacityFrom (Except.ok.inj hok)
  | blankAt i =>
    simp only [on, Population.blankAt] at hok
    split at hok
    · cases hok
      exact h.exchange (by rw [Array.size_setIfInBounds]; exact h.size_le)
    · cases hok
  | edit f =>
    cases hok
    exact h.exchange (by rw [Array.size_mapIdx]; exact h.size_le)
  | removeFrom start lost =>
    cases hok
    have hsum := (pop.removeFrom_spec start lost).1
    have hleft : (pop.removeFrom start lost).2.size ≤ pop.capacity := le_trans (by omega) h.size_le
    rw [removeFrom_eq] at hleft ⊢
    exact h.exchange hleft
  | retain keep =>
    cases hok
    exact h.exchange (Array.size_filter_le.trans h.size_le)

/-- An operation that fails has changed nothing. -/
theorem unchanged_on {e : GrowthError} (hfailed : o.on pop = .ok ⟨.error e, next⟩) : next = pop := by
  cases o with
  | append memory n =>
    obtain ⟨⟨result, population⟩, happended, rfl, hresult⟩ := on_append hfailed
    cases result with
    | error e => exact appendBlankFrom_failed happended
    | ok range => cases hresult
  | ensureCapacity memory n =>
    have hfailed : pop.ensureCapacityFrom memory n = _ := Except.ok.inj hfailed
    obtain ⟨_, hroom⟩ | ⟨_, hnone⟩ := pop.ensureCapacityFrom_eq memory n
    · cases hroom.symm.trans hfailed
    · cases hnone.symm.trans hfailed
      rfl
  | blankAt i =>
    simp only [on, Population.blankAt] at hfailed
    split at hfailed <;> cases hfailed
  | edit f => cases hfailed
  | removeFrom start lost => cases hfailed
  | retain keep => cases hfailed

end Operation

variable [Zero α]

/-- The population after an operation, whatever comes of it. A fault comes before any change. -/
def perform (pop : Population α) (o : Operation α) : Population α :=
  match o.on pop with
  | .ok change => change.population
  | .error _ => pop

/-- The population after operations that are carried out one after the other. -/
def run (pop : Population α) (os : List (Operation α)) : Population α := os.foldl perform pop

theorem Sound.perform (h : pop.Sound) (o : Operation α) : (pop.perform o).Sound := by
  unfold Population.perform
  split
  · rename_i change hok
    obtain ⟨⟨e⟩ | ⟨⟩, next⟩ := change
    · rw [Operation.unchanged_on hok]
      exact h
    · exact (o.sound_on h hok).1
  · exact h

theorem Sound.run (h : pop.Sound) (os : List (Operation α)) : (pop.run os).Sound := by
  induction os generalizing pop with
  | nil => exact h
  | cons o os ih => exact ih (h.perform o)

/-- A population that is new: without storage, or with storage for a number of particles. -/
def IsNew (pop : Population α) : Prop := pop = .empty ∨ ∃ n, withCapacity n = .ok pop

theorem IsNew.sound (h : pop.IsNew) : pop.Sound := by
  rcases h with rfl | ⟨n, hn⟩
  · exact ⟨Nat.le_refl 0, by simp [empty]⟩
  · obtain ⟨_, hstore, hpop⟩ := bind_eq_ok.1 hn
    rw [pure_eq_ok.1 hpop]
    refine ⟨Nat.zero_le _, Nat.le_of_not_lt fun hlarge => ?_⟩
    rw [Count.store_eq_error.2 ⟨rfl, hlarge⟩] at hstore
    cases hstore

/-! ## Room -/

/-- There is storage for `n` particles, or that which growth aims at can be had. -/
def HasRoom (pop : Population α) (memory : Memory) (n : Nat) : Prop :=
  n ≤ pop.capacity ∨ Granted memory (pop.target n)

omit [Zero α] in
/-- Room can be made exactly where there is any, and else the failure says what was asked for. -/
theorem Sound.makesRoom (h : pop.Sound) (memory : Memory) (n : Nat) :
    (pop.HasRoom memory n → ∃ capacity, pop.ensureCapacityFrom memory n = ⟨.ok (), { pop with capacity }⟩) ∧
      (¬ pop.HasRoom memory n →
        ∃ limit, pop.ensureCapacityFrom memory n = ⟨.error { requested := n, limit }, pop⟩) := by
  -- What is set aside is what growth aims at, since it is counted from the particles there are.
  rw [HasRoom, ← h.size_add_reservation]
  obtain ⟨henough, hroom⟩ | ⟨hmore, ⟨hgranted, hroom⟩ | ⟨hrefused, limit, hnone⟩⟩ := pop.ensureCapacityFrom_cases memory n
  · exact ⟨fun _ => ⟨_, hroom⟩, fun hhas => absurd (.inl henough) hhas⟩
  · exact ⟨fun _ => ⟨_, hroom⟩, fun hhas => absurd (.inr hgranted) hhas⟩
  · exact ⟨fun hhas => (hhas.elim (Nat.not_le.2 hmore) hrefused).elim, fun _ => ⟨limit, hnone⟩⟩

/-- Behind the old particles, which stand where they stood, there are `n` blank ones. -/
structure Appended (pop next : Population α) (n : Nat) : Prop where
  size_eq : next.size = pop.size + n
  older : ∀ k < pop.size, next.particles[k]? = pop.particles[k]?
  blank : ∀ k, pop.size ≤ k → k < pop.size + n → next.particles[k]? = some .blank

theorem appended_of_particles {n : Nat} (h : next.particles = pop.particles ++ Array.replicate n .blank) :
    Appended pop next n where
  size_eq := by simp [size, h]
  older k hk := by rw [h, Array.getElem?_append_left hk]
  blank k hk hlt := by
    have hin : k - pop.particles.size < n := by rw [size] at hk hlt; omega
    rw [h, Array.getElem?_append_right hk, Array.getElem?_replicate, if_pos hin]

/-- Appending succeeds exactly where there is room, and gives the indices of what is
appended; else it changes nothing. -/
theorem Sound.appends (h : pop.Sound) {n : Nat} (hcount : pop.size + n ≤ Count.limit) :
    (pop.HasRoom memory (pop.size + n) → ∃ next,
      pop.appendBlankFrom memory n = .ok ⟨.ok { start := pop.size, stop := pop.size + n }, next⟩ ∧
        Appended pop next n) ∧
      (¬ pop.HasRoom memory (pop.size + n) → ∃ limit,
        pop.appendBlankFrom memory n = .ok ⟨.error { requested := pop.size + n, limit }, pop⟩) := by
  obtain ⟨hhas, hlacks⟩ := h.makesRoom memory (pop.size + n)
  obtain ⟨capacity, hroom, happend⟩ | ⟨e, hnone, hfailed⟩ := appendBlankFrom_of_le hcount
  · refine ⟨fun _ => ⟨_, happend, appended_of_particles rfl⟩, fun hno => ?_⟩
    obtain ⟨limit, hlimit⟩ := hlacks hno
    cases hlimit.symm.trans hroom
  · constructor
    · intro hroom
      obtain ⟨capacity, hmade⟩ := hhas hroom
      cases hmade.symm.trans hnone
    · intro hno
      obtain ⟨limit, hlimit⟩ := hlacks hno
      cases hlimit.symm.trans hnone
      exact ⟨limit, hfailed⟩

/-! ## Any use of a population -/

/-- A new population may be used in any way, with any memory. At every moment its
particles fit into its storage, and what growth sets aside is counted from no more
particles than it aims at. Particles that are appended stand blank behind the old ones,
which keep their places, and the range that is given goes from the old size to the new
one; this fails exactly where there is no room and memory for it is not given out, and
then the particles and their storage are what they were. An operation that makes the
storage grow makes it large enough and at least doubles it, and any that fails leaves
everything as it is. -/
theorem grows_in_place (h : pop.IsNew) (os : List (Operation α)) :
    let p := pop.run os
    p.size ≤ p.capacity ∧
    (∀ n, Count.sub (p.target n) p.size = .ok (p.reservation n)) ∧
    (∀ memory n, p.size + n ≤ Count.limit →
      (p.HasRoom memory (p.size + n) → ∃ next,
        p.appendBlankFrom memory n = .ok ⟨.ok { start := p.size, stop := p.size + n }, next⟩ ∧ Appended p next n) ∧
      (¬ p.HasRoom memory (p.size + n) → ∃ limit,
        p.appendBlankFrom memory n = .ok ⟨.error { requested := p.size + n, limit }, p⟩)) ∧
    ∀ o change, Operation.on o p = .ok change →
      (change.result = .ok () → p.Grown change.population (o.room p)) ∧
      ∀ e, change.result = .error e → change.population = p := by
  have hsound := h.sound.run os
  refine ⟨hsound.size_le, fun n => if_pos (hsound.size_le_target n), fun memory n => hsound.appends, ?_⟩
  rintro o ⟨result, next⟩ hon
  refine ⟨fun hok => ?_, fun e hfailed => ?_⟩
  · obtain rfl : result = .ok () := hok
    exact (o.sound_on hsound hon).2
  · obtain rfl : result = .error e := hfailed
    exact o.unchanged_on hon

/-- Storage for two particles. -/
def roomForTwo : Population ℕ := { particles := #[], capacity := 2, releasedWeight := 0 }

/-- Of five particles two are lost, and memory for three more is refused. -/
def thinnedOut : List (Operation ℕ) :=
  [.append (fun _ => true) 2, .edit fun k p => { p with mass := k + 1 }, .append (fun _ => true) 3, .removeFrom 1 [0, 2],
    .append (fun _ => false) 3]

/-- What is left of them keeps its storage. Four more make that grow to the double and
have the indices from three to six; without memory they are refused and nothing changes. -/
theorem grows_in_place_thinnedOut :
    let p := roomForTwo.run thinnedOut
    (roomForTwo.IsNew ∧ p.particles.toList.map (·.mass) = [1, 0, 0] ∧ p.capacity = 5) ∧
      (∃ next, p.appendBlankFrom (fun _ => true) 4 = .ok ⟨.ok { start := 3, stop := 7 }, next⟩ ∧ Appended p next 4 ∧
        p.Grown next 7) ∧
      ∃ limit, p.appendBlankFrom (fun _ => false) 4 = .ok ⟨.error { requested := 7, limit }, p⟩ := by
  have hnew : roomForTwo.IsNew := .inr ⟨2, rfl⟩
  obtain ⟨-, -, happends, hgrows⟩ := grows_in_place hnew thinnedOut
  have hsize : (roomForTwo.run thinnedOut).size = 3 := by decide +kernel
  have hcapacity : (roomForTwo.run thinnedOut).capacity = 5 := by decide +kernel
  have hcount : (roomForTwo.run thinnedOut).size + 4 ≤ Count.limit := by
    rw [hsize]
    decide
  refine ⟨⟨hnew, by decide +kernel, hcapacity⟩, ?_, ?_⟩
  · obtain ⟨next, hnext, happended⟩ := (happends (fun _ => true) 4 hcount).1 (.inr ⟨by decide +kernel, rfl⟩)
    have hon : (Operation.append (fun _ => true) 4).on (roomForTwo.run thinnedOut) = .ok ⟨.ok (), next⟩ := by
      rw [Operation.on, hnext]
      rfl
    have hgrown := (hgrows _ _ hon).1 rfl
    rw [Operation.room, hsize] at hgrown
    rw [hsize] at hnext
    exact ⟨next, hnext, happended, hgrown⟩
  · have hlacks : ¬ (roomForTwo.run thinnedOut).HasRoom (fun _ => false) 7 := by
      rintro (henough | hgranted)
      · omega
      · cases hgranted.2
    have hrefused := (happends (fun _ => false) 4 hcount).2
    rw [hsize] at hrefused
    exact hrefused hlacks

end Inflow.Population
