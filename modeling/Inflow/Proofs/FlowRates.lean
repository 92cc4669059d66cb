import Inflow.FlowRates
import Inflow.Proofs.Fault
/-!
# Flow rates

A step begins with one empty slot for each class of each zone. Reading any of
them is in range and gives zero. Adding to them keeps the slots that there are,
and whatever class is named, only slots of the zone are touched.
-/

namespace Inflow.FlowRates

variable {α : Type} [Scalar α]

theorem slotsFor_eq_ok {zones stride : Nat} {slots : Array α} :
    slotsFor zones stride = .ok slots ↔
      slots = Array.replicate (zones * stride) 0 ∧ zones * stride * scalarBytes ≤ Count.byteLimit := by
  simp only [slotsFor, Count.mul, Count.store, bind_eq_ok, Count.checked_eq_ok, pure_eq_ok]
  constructor
  · rintro ⟨n, ⟨rfl, -⟩, u, hstore, rfl⟩
    split at hstore
    · rename_i hbytes
      exact ⟨rfl, hbytes⟩
    · cases hstore
  · rintro ⟨rfl, hbytes⟩
    have hlimit : Count.byteLimit ≤ Count.limit := by decide
    exact ⟨_, ⟨rfl, by simp only [scalarBytes] at hbytes; omega⟩, (), by rw [if_pos hbytes], rfl⟩

theorem slotsFor_eq_error {zones stride : Nat} {e : Fault} (h : slotsFor (α := α) zones stride = .error e) :
    e = .overflow ∨ e = .tooLarge := by
  unfold slotsFor at h
  rcases bind_eq_error.1 h with h | ⟨_, -, h⟩
  · exact .inl (Count.checked_eq_error h)
  · exact .inr (Count.store_eq_error.1 (bind_pure_eq_error.1 h)).1

theorem zeros_eq_error {boundaryZones volumeZones slots : Nat} {e : Fault}
    (h : zeros (α := α) boundaryZones volumeZones slots = .error e) : e = .overflow ∨ e = .tooLarge := by
  unfold zeros at h
  rcases bind_eq_error.1 h with h | ⟨_, -, h⟩
  · exact slotsFor_eq_error h
  · exact slotsFor_eq_error (bind_pure_eq_error.1 h)

/-- Accumulators at zero are there if the slots of all zones can be stored. -/
theorem zeros_eq_ok {zones : ZoneKind → Nat} {classes : Nat} {f : FlowRates α} :
    zeros (zones .boundary) (zones .volume) classes = .ok f ↔
      f.stride = max classes 1 ∧ (∀ kind, f.slots kind = Array.replicate (zones kind * max classes 1) 0) ∧
        ∀ kind, zones kind * max classes 1 * scalarBytes ≤ Count.byteLimit := by
  simp only [zeros, bind_eq_ok, slotsFor_eq_ok, pure_eq_ok]
  constructor
  · rintro ⟨_, ⟨rfl, hboundary⟩, _, ⟨rfl, hvolume⟩, rfl⟩
    exact ⟨rfl, fun kind => by cases kind <;> rfl, fun kind => by cases kind <;> assumption⟩
  · rintro ⟨hstride, hslots, hfits⟩
    refine ⟨_, ⟨rfl, hfits .boundary⟩, _, ⟨rfl, hfits .volume⟩, ?_⟩
    obtain ⟨stride, boundary, volume⟩ := f
    obtain rfl : stride = max classes 1 := hstride
    obtain rfl : boundary = _ := hslots .boundary
    obtain rfl : volume = _ := hslots .volume
    rfl

/-- Accumulators without anything in them: one slot for each of `classes` and
one more, for a number of zones of each kind. -/
structure Empty (f : FlowRates α) (zones : ZoneKind → Nat) (classes : Nat) : Prop where
  stride : f.stride = classes + 1
  slots : ∀ kind, f.slots kind = Array.replicate (zones kind * (classes + 1)) 0
  fits : ∀ kind, zones kind * (classes + 1) ≤ Count.limit

theorem empty_of_zeros {zones : ZoneKind → Nat} {classes : Nat} {f : FlowRates α}
    (h : zeros (zones .boundary) (zones .volume) (classes + 1) = .ok f) : f.Empty zones classes := by
  have hlimit : Count.byteLimit ≤ Count.limit := by decide
  have hmax : max (classes + 1) 1 = classes + 1 := by omega
  obtain ⟨hstride, hslots, hfits⟩ := zeros_eq_ok.1 h
  rw [hmax] at hstride
  simp only [hmax, scalarBytes] at hslots hfits
  refine ⟨hstride, hslots, fun kind => ?_⟩
  have hkind := hfits kind
  omega

/-- What is read for a zone and a class that there are is zero. -/
theorem Empty.get {f : FlowRates α} {zones : ZoneKind → Nat} {classes : Nat} (h : f.Empty zones classes)
    {kind : ZoneKind} {zone statClass : Nat} (hzone : zone < zones kind) (hclass : statClass ≤ classes) :
    f.get kind zone statClass = .ok 0 := by
  have hslot : zone * (classes + 1) + statClass < zones kind * (classes + 1) := by
    have := Nat.mul_le_mul_right (classes + 1) (Nat.succ_le_of_lt hzone)
    rw [Nat.succ_mul] at this
    omega
  have hfits := h.fits kind
  have hmul : Count.mul zone f.stride = .ok (zone * (classes + 1)) := by
    rw [h.stride]
    exact Count.checked_eq_ok.2 ⟨rfl, by omega⟩
  have hadd : Count.add (zone * (classes + 1)) statClass = .ok (zone * (classes + 1) + statClass) :=
    Count.add_eq_ok.2 ⟨rfl, by omega⟩
  refine bind_eq_ok.2 ⟨_, hmul, bind_eq_ok.2 ⟨_, hadd, ?_⟩⟩
  rw [h.slots, Array.getElem?_replicate, if_pos hslot]
  rfl

/-! ## Adding -/

/-- Accumulators with the same number of slots, at least one, for each of a number of zones of each kind. -/
structure Shaped (f : FlowRates α) (zones : ZoneKind → Nat) : Prop where
  stride_pos : 0 < f.stride
  size : ∀ kind, (f.slots kind).size = zones kind * f.stride

variable {f f' : FlowRates α} {zones : ZoneKind → Nat} {kind : ZoneKind} {zone : Nat}

theorem Empty.shaped {classes : Nat} (h : f.Empty zones classes) : f.Shaped zones := by
  refine ⟨by rw [h.stride]; omega, fun kind => ?_⟩
  rw [h.slots, h.stride, Array.size_replicate]

omit [Scalar α] in
theorem Shaped.withSlots (h : f.Shaped zones) {slots : Array α} (hsize : slots.size = (f.slots kind).size) :
    (f.withSlots kind slots).Shaped zones := by
  have hkind := h.size kind
  cases kind with
  | boundary =>
    refine ⟨h.stride_pos, fun kind => ?_⟩
    cases kind with
    | boundary => exact hsize.trans hkind
    | volume => exact h.size .volume
  | volume =>
    refine ⟨h.stride_pos, fun kind => ?_⟩
    cases kind with
    | boundary => exact h.size .boundary
    | volume => exact hsize.trans hkind

omit [Scalar α] in
/-- The slots of a zone end where those of the next begin. -/
theorem Shaped.slot_lt (h : f.Shaped zones) (hzone : zone < zones kind) {own : Nat} (hown : own < f.stride) :
    zone * f.stride + own < (f.slots kind).size := by
  rw [h.size]
  calc zone * f.stride + own < (zone + 1) * f.stride := by rw [Nat.succ_mul]; omega
    _ ≤ zones kind * f.stride := Nat.mul_le_mul_right _ hzone

/-- Adding for a zone that there is stops only where a slot has no number, whatever the class. -/
theorem add_eq_error (h : f.Shaped zones) (hzone : zone < zones kind) {statClass : Nat} {value : α} {e : Fault}
    (he : f.add kind zone statClass value = .error e) : e = .overflow := by
  unfold add at he
  rcases bind_eq_error.1 he with he | ⟨base, hbase, he⟩
  · exact Count.checked_eq_error he
  · obtain ⟨rfl, -⟩ := Count.checked_eq_ok.1 hbase
    rcases bind_eq_error.1 he with he | ⟨_, -, he⟩
    · have hsize := (fetch_eq_error.1 he).2
      have hslot := h.slot_lt hzone h.stride_pos
      omega
    · split at he
      · rename_i hclass
        have hlt : statClass < f.stride := by simpa using (Bool.and_eq_true_iff.1 hclass).2
        rcases bind_eq_error.1 he with he | ⟨own, hown, he⟩
        · exact Count.checked_eq_error he
        · obtain ⟨rfl, -⟩ := Count.add_eq_ok.1 hown
          have hsize := (fetch_eq_error.1 (bind_pure_eq_error.1 he)).2
          have hslot := h.slot_lt hzone hlt
          rw [Array.size_modify] at hsize
          omega
      · exact absurd he pure_ne_error

theorem Shaped.add (h : f.Shaped zones) {statClass : Nat} {value : α} (hok : f.add kind zone statClass value = .ok f') :
    f'.Shaped zones := by
  unfold FlowRates.add at hok
  obtain ⟨base, -, hok⟩ := bind_eq_ok.1 hok
  obtain ⟨_, -, hok⟩ := bind_eq_ok.1 hok
  split at hok
  · obtain ⟨own, -, hok⟩ := bind_eq_ok.1 hok
    obtain ⟨_, -, hok⟩ := bind_eq_ok.1 hok
    rw [pure_eq_ok.1 hok]
    exact h.withSlots (by rw [Array.size_modify, Array.size_modify])
  · rw [pure_eq_ok.1 hok]
    exact h.withSlots Array.size_modify

/-! ## What a zone has received -/

/-- The first slot of a zone, which takes in all classes. -/
def received (f : FlowRates α) (kind : ZoneKind) (zone : Nat) : α := (f.slots kind)[zone * f.stride]?.getD 0

theorem get_eq_received (h : zone * f.stride ≤ Count.limit) : f.get kind zone 0 = .ok (f.received kind zone) :=
  bind_eq_ok.2 ⟨_, Count.checked_eq_ok.2 ⟨rfl, h⟩, bind_eq_ok.2 ⟨_, Count.add_eq_ok.2 ⟨rfl, h⟩, rfl⟩⟩

theorem Empty.received {classes : Nat} (h : f.Empty zones classes) (kind : ZoneKind) (zone : Nat) :
    f.received kind zone = 0 := by
  rw [FlowRates.received, h.slots, Array.getElem?_replicate]
  split <;> rfl

omit [Scalar α] in
@[simp] theorem stride_withSlots (slots : Array α) : (f.withSlots kind slots).stride = f.stride := by
  cases kind <;> rfl

omit [Scalar α] in
theorem slots_withSlots (slots : Array α) (kind' : ZoneKind) :
    (f.withSlots kind slots).slots kind' = if kind' = kind then slots else f.slots kind' := by
  cases kind <;> cases kind' <;> rfl

/-- Slots of different zones or classes are different. -/
theorem slot_eq_iff {stride c c' : Nat} (hc : c < stride) (hc' : c' < stride) (zone zone' : Nat) :
    zone * stride + c = zone' * stride + c' ↔ zone = zone' ∧ c = c' := by
  refine ⟨fun h => ?_, fun ⟨hzone, hclass⟩ => by rw [hzone, hclass]⟩
  have hclass : c = c' := by
    simpa [Nat.mul_add_mod_self_right, Nat.mod_eq_of_lt hc, Nat.mod_eq_of_lt hc'] using congrArg (· % stride) h
  subst hclass
  exact ⟨Nat.eq_of_mul_eq_mul_right (Nat.zero_lt_of_lt hc) (Nat.add_right_cancel h), rfl⟩

omit [Scalar α] in
/-- What changes one slot leaves all others alone. -/
theorem getElem?_modify_slot {stride c c' : Nat} (hc : c < stride) (hc' : c' < stride) (slots : Array α) (g : α → α)
    (zone zone' : Nat) : (slots.modify (zone * stride + c) g)[zone' * stride + c']? =
      slots[zone' * stride + c']?.map fun x => if zone' = zone ∧ c' = c then g x else x := by
  rw [Array.getElem?_modify]
  by_cases h : zone' = zone ∧ c' = c
  · rw [if_pos ((slot_eq_iff hc hc' _ _).2 ⟨h.1.symm, h.2.symm⟩)]
    simp only [if_pos h]
  · rw [if_neg fun heq => h (((slot_eq_iff hc hc' _ _).1 heq).imp Eq.symm Eq.symm)]
    simp only [if_neg h, Option.map_id_fun', id]

/-- The slots after a value is added: the first slot of the zone has it more, and so
has that of the class, if there is one. -/
theorem add_cases (hstride : 0 < f.stride) {statClass : Nat} {value : α} (h : f.add kind zone statClass value = .ok f') :
    ∃ slots x, f' = f.withSlots kind slots ∧ (f.slots kind)[zone * f.stride]? = some x ∧
      ∀ zone' c, c < f.stride → slots[zone' * f.stride + c]? = (f.slots kind)[zone' * f.stride + c]?.map fun x =>
        if zone' = zone ∧ (c = 0 ∨ c = statClass) then x + value else x := by
  unfold add at h
  obtain ⟨base, hbase, h⟩ := bind_eq_ok.1 h
  obtain ⟨rfl, -⟩ := Count.checked_eq_ok.1 hbase
  obtain ⟨x, hx, h⟩ := bind_eq_ok.1 h
  rw [fetch_eq_ok] at hx
  have hfirst := fun (zone' c : Nat) (hc : c < f.stride) =>
    getElem?_modify_slot hstride hc (f.slots kind) (· + value) zone zone'
  simp only [Nat.add_zero] at hfirst
  split at h
  · rename_i hclass
    obtain ⟨own, hown, h⟩ := bind_eq_ok.1 h
    obtain ⟨rfl, -⟩ := Count.add_eq_ok.1 hown
    obtain ⟨_, -, h⟩ := bind_eq_ok.1 h
    rw [Bool.and_eq_true, decide_eq_true_eq, decide_eq_true_eq] at hclass
    refine ⟨_, x, pure_eq_ok.1 h, hx, fun zone' c hc => ?_⟩
    rw [getElem?_modify_slot hclass.2 hc, hfirst zone' c hc, Option.map_map]
    congr 1
    funext x
    -- A slot takes the value once, for the class is not that of the first slot.
    grind
  · rename_i hclass
    refine ⟨_, x, pure_eq_ok.1 h, hx, fun zone' c hc => ?_⟩
    rw [hfirst zone' c hc]
    congr 1
    funext x
    grind

theorem stride_add (hstride : 0 < f.stride) {statClass : Nat} {value : α} (h : f.add kind zone statClass value = .ok f') :
    f'.stride = f.stride := by
  obtain ⟨slots, -, rfl, -⟩ := add_cases hstride h
  exact stride_withSlots slots

/-- A value that is added for a zone goes to its first slot and to that of the class, and to no other. -/
theorem getElem?_add (hstride : 0 < f.stride) {statClass : Nat} {value : α}
    (h : f.add kind zone statClass value = .ok f') (kind' : ZoneKind) (zone' : Nat) {c : Nat} (hc : c < f.stride) :
    (f'.slots kind')[zone' * f.stride + c]? = (f.slots kind')[zone' * f.stride + c]?.map fun x =>
      if kind' = kind ∧ zone' = zone ∧ (c = 0 ∨ c = statClass) then x + value else x := by
  obtain ⟨slots, -, rfl, -, hslots⟩ := add_cases hstride h
  rw [slots_withSlots]
  by_cases hkind : kind' = kind
  · subst hkind
    simp only [if_true, true_and, hslots zone' c hc]
  · simp only [hkind, if_false, false_and, Option.map_id_fun', id]

/-- What is added for a zone is received by this zone, and by no other. -/
theorem received_add (hstride : 0 < f.stride) {statClass : Nat} {value : α}
    (h : f.add kind zone statClass value = .ok f') (kind' : ZoneKind) (zone' : Nat) :
    f'.received kind' zone' =
      if kind' = kind ∧ zone' = zone then f.received kind' zone' + value else f.received kind' zone' := by
  obtain ⟨-, x, -, hx, -⟩ := add_cases hstride h
  have hslot := getElem?_add hstride h kind' zone' hstride
  simp only [Nat.add_zero, true_or, and_true] at hslot
  rw [received, stride_add hstride h, hslot]
  by_cases hown : kind' = kind ∧ zone' = zone
  · obtain ⟨rfl, rfl⟩ := hown
    rw [if_pos ⟨rfl, rfl⟩, received, hx]
    simp
  · simp only [hown, if_false, Option.map_id_fun', id]
    rfl

end Inflow.FlowRates
