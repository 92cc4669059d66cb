import Inflow.Proofs.FlowRates
import Inflow.Proofs.Scalar.Double
/-!
# What a slot of the flow rates holds

Values are added for zones and classes. The first slot of a zone holds the sum of
all that was added for the zone, and each other slot the sum of what was added for
its class, in the order in which it was added.

What is read for a class that a zone has no slot for is what the slots of the zones
after it hold, counted on from the end of the zone. So it is zero only behind the last
zone, or where nothing has been added there.
-/

namespace Inflow.FlowRates

variable {α : Type} [Scalar α]

/-- A value that is added for a zone and a class. -/
structure Deposit (α : Type) where
  kind : ZoneKind
  zone : Nat
  statClass : Nat
  value : α

/-- Adds values, one after the other. -/
def addAll (f : FlowRates α) : List (Deposit α) → Checked (FlowRates α)
  | [] => .ok f
  | d :: ds => do addAll (← f.add d.kind d.zone d.statClass d.value) ds

/-- Whether a value is for a class of a zone; class zero stands for all. -/
def Deposit.isFor (d : Deposit α) (kind : ZoneKind) (zone statClass : Nat) : Bool :=
  d.kind = kind ∧ d.zone = zone ∧ (statClass = 0 ∨ d.statClass = statClass)

/-- The sum of the values for a class of a zone, in their order. -/
def amount (ds : List (Deposit α)) (kind : ZoneKind) (zone statClass : Nat) : α :=
  ((ds.filter (·.isFor kind zone statClass)).map (·.value)).foldl (· + ·) 0

/-- What there is for a class of a zone: nothing, if there is no such zone or class. -/
def holding (zones : ZoneKind → Nat) (stride : Nat) (ds : List (Deposit α)) (kind : ZoneKind)
    (zone statClass : Nat) : α :=
  if zone < zones kind ∧ statClass < stride then amount ds kind zone statClass else 0

/-! ## One value -/

theorem amount_append (ds : List (Deposit α)) (d : Deposit α) (kind : ZoneKind) (zone statClass : Nat) :
    amount (ds ++ [d]) kind zone statClass =
      if d.isFor kind zone statClass then amount ds kind zone statClass + d.value else amount ds kind zone statClass := by
  unfold amount
  cases h : d.isFor kind zone statClass <;> simp [h]

/-- The slots of accumulators after values have been added: each holds what was added for its zone and class. -/
structure Holds (f : FlowRates α) (zones : ZoneKind → Nat) (ds : List (Deposit α)) : Prop extends f.Shaped zones where
  fits : ∀ kind, zones kind * f.stride ≤ Count.limit
  slot : ∀ kind zone statClass, zone < zones kind → statClass < f.stride →
    (f.slots kind)[zone * f.stride + statClass]? = some (amount ds kind zone statClass)

variable {f f' : FlowRates α} {zones : ZoneKind → Nat} {ds : List (Deposit α)} {d : Deposit α}

/-- A slot of a zone that there is has a number, and is in the table. -/
theorem Holds.exists_fetch (h : f.Holds zones ds) (slots : Array α) {kind : ZoneKind}
    (hsize : slots.size = (f.slots kind).size) {zone statClass : Nat} (hzone : zone < zones kind)
    (hclass : statClass < f.stride) :
    zone * f.stride + statClass ≤ Count.limit ∧ ∃ x, fetch slots (zone * f.stride + statClass) = .ok x := by
  have hlt := h.slot_lt hzone hclass
  refine ⟨hlt.le.trans ((h.size kind).trans_le (h.fits kind)), slots[zone * f.stride + statClass], ?_⟩
  exact fetch_eq_ok.2 (Array.getElem?_eq_getElem (hsize ▸ hlt))

/-- A value can be added for every zone that there is, whatever the class. -/
theorem Holds.exists_add (h : f.Holds zones ds) (hd : d.zone < zones d.kind) :
    ∃ f', f.add d.kind d.zone d.statClass d.value = .ok f' := by
  obtain ⟨hbase, x, hx⟩ := h.exists_fetch (f.slots d.kind) rfl hd h.stride_pos
  rw [Nat.add_zero] at hbase hx
  have hmul : Count.mul d.zone f.stride = .ok (d.zone * f.stride) := Count.checked_eq_ok.2 ⟨rfl, hbase⟩
  by_cases hclass : (decide (0 < d.statClass) && decide (d.statClass < f.stride)) = true
  · have hlt : d.statClass < f.stride := of_decide_eq_true (Bool.and_eq_true_iff.1 hclass).2
    obtain ⟨hown, y, hy⟩ :=
      h.exists_fetch ((f.slots d.kind).modify (d.zone * f.stride) (· + d.value)) Array.size_modify hd hlt
    have hadd : Count.add (d.zone * f.stride) d.statClass = .ok _ := Count.add_eq_ok.2 ⟨rfl, hown⟩
    exact ⟨_, bind_eq_ok.2 ⟨_, hmul, bind_eq_ok.2 ⟨x, hx, (if_pos hclass).trans
      (bind_eq_ok.2 ⟨_, hadd, bind_eq_ok.2 ⟨y, hy, rfl⟩⟩)⟩⟩⟩
  · exact ⟨_, bind_eq_ok.2 ⟨_, hmul, bind_eq_ok.2 ⟨x, hx, if_neg hclass⟩⟩⟩

/-- What is added goes to the slots that it is for, and to no others. -/
theorem Holds.add (h : f.Holds zones ds) (hok : f.add d.kind d.zone d.statClass d.value = .ok f') :
    f'.Holds zones (ds ++ [d]) := by
  have hstride := stride_add h.stride_pos hok
  refine ⟨h.toShaped.add hok, fun kind => by rw [hstride]; exact h.fits kind, fun kind zone c hzone hc => ?_⟩
  rw [hstride] at hc ⊢
  rw [getElem?_add h.stride_pos hok kind zone hc, h.slot kind zone c hzone hc, amount_append, Option.map_some]
  simp only [Deposit.isFor, decide_eq_true_eq, eq_comm (a := kind), eq_comm (a := zone), eq_comm (a := c)]

/-! ## All values -/

/-- Values for zones that there are can all be added, and each slot then holds those for its zone and class. -/
theorem Holds.exists_addAll (h : f.Holds zones ds) {ds' : List (Deposit α)}
    (hzones : ∀ d ∈ ds', d.zone < zones d.kind) :
    ∃ f', f.addAll ds' = .ok f' ∧ f'.stride = f.stride ∧ f'.Holds zones (ds ++ ds') := by
  induction ds' generalizing f ds with
  | nil => exact ⟨f, rfl, rfl, by rwa [List.append_nil]⟩
  | cons d ds' ih =>
    obtain ⟨f₁, hok⟩ := h.exists_add (hzones d List.mem_cons_self)
    obtain ⟨f', hall, hstride, hholds⟩ := ih (h.add hok) fun d' hd' => hzones d' (List.mem_cons_of_mem d hd')
    refine ⟨f', bind_eq_ok.2 ⟨f₁, hok, hall⟩, by rw [hstride, stride_add h.stride_pos hok], ?_⟩
    rwa [List.append_assoc] at hholds

/-! ## Reading -/

/-- A class counts on from zone to zone. -/
theorem slot_div_mod (zone statClass stride : Nat) :
    (zone + statClass / stride) * stride + statClass % stride = zone * stride + statClass := by
  rw [Nat.add_mul, Nat.add_assoc, Nat.div_add_mod']

/-- What is read is what there is for the zone and class that the class comes to when it is counted on. -/
theorem Holds.get_eq (h : f.Holds zones ds) (kind : ZoneKind) {zone statClass : Nat}
    (hlimit : zone * f.stride + statClass ≤ Count.limit) : f.get kind zone statClass =
      .ok (holding zones f.stride ds kind (zone + statClass / f.stride) (statClass % f.stride)) := by
  have hmod := Nat.mod_lt statClass h.stride_pos
  have hmul : Count.mul zone f.stride = .ok (zone * f.stride) := Count.checked_eq_ok.2 ⟨rfl, by omega⟩
  refine bind_eq_ok.2 ⟨_, hmul, bind_eq_ok.2 ⟨_, Count.add_eq_ok.2 ⟨rfl, hlimit⟩, pure_eq_ok.2 ?_⟩⟩
  rw [← slot_div_mod, holding]
  by_cases hzone : zone + statClass / f.stride < zones kind
  · rw [if_pos ⟨hzone, hmod⟩, h.slot kind _ _ hzone hmod, Option.getD_some]
  · have hsize : (f.slots kind).size ≤ (zone + statClass / f.stride) * f.stride + statClass % f.stride := by
      rw [h.size]
      exact Nat.le_add_right_of_le (Nat.mul_le_mul_right _ (not_lt.1 hzone))
    rw [if_neg fun hboth => hzone hboth.1, Array.getElem?_eq_none hsize, Option.getD_none]

/-- What has no number cannot be read. -/
theorem get_eq_overflow {kind : ZoneKind} {zone statClass : Nat} (hlimit : Count.limit < zone * f.stride + statClass) :
    f.get kind zone statClass = .error .overflow := by
  by_cases hbase : zone * f.stride ≤ Count.limit
  · have hmul : Count.mul zone f.stride = .ok (zone * f.stride) := Count.checked_eq_ok.2 ⟨rfl, hbase⟩
    have hadd : Count.add (zone * f.stride) statClass = .error .overflow := if_neg hlimit.not_ge
    exact bind_eq_error.2 (.inr ⟨_, hmul, bind_eq_error.2 (.inl hadd)⟩)
  · exact bind_eq_error.2 (.inl (if_neg hbase))

/-! ## From empty slots -/

/-- Before anything is added each slot of a zone holds nothing. -/
theorem holds_of_zeros {classes : Nat} (h : zeros (zones .boundary) (zones .volume) classes = .ok f) :
    f.stride = max classes 1 ∧ f.Holds zones [] := by
  obtain ⟨hstride, hslots, hfits⟩ := zeros_eq_ok.1 h
  rw [← hstride] at hslots hfits
  have hshaped : f.Shaped zones :=
    ⟨hstride ▸ Nat.le_max_right classes 1, fun kind => by rw [hslots, Array.size_replicate]⟩
  refine ⟨hstride, hshaped, fun kind => ?_, fun kind zone c hzone hc => ?_⟩
  · have hlimit : Count.byteLimit ≤ Count.limit := by decide
    have hkind := hfits kind
    simp only [scalarBytes] at hkind
    omega
  · have hlt := hshaped.slot_lt hzone hc
    rw [hslots, Array.size_replicate] at hlt
    rw [hslots, Array.getElem?_replicate, if_pos hlt]
    rfl

/-- A single value is what there is for its own zone and class. -/
theorem holding_single {stride zone statClass : Nat} {kind : ZoneKind} (hzone : zone < zones kind)
    (hclass : statClass < stride) (value : α) :
    holding zones stride [⟨kind, zone, statClass, value⟩] kind zone statClass = 0 + value := by
  simp [holding, hzone, hclass, amount, Deposit.isFor]

/-- Values for zones that there are can all be added to empty slots, and what is read then is
what there is for the zone and class that the class comes to when it is counted on. -/
theorem exists_addAll_of_zeros {classes : Nat} (h : zeros (zones .boundary) (zones .volume) classes = .ok f)
    {ds : List (Deposit α)} (hds : ∀ d ∈ ds, d.zone < zones d.kind) : ∃ f', f.addAll ds = .ok f' ∧
      ∀ kind zone statClass, f'.get kind zone statClass = if zone * max classes 1 + statClass ≤ Count.limit then
        .ok (holding zones (max classes 1) ds kind (zone + statClass / max classes 1) (statClass % max classes 1))
      else .error .overflow := by
  obtain ⟨hstride, hempty⟩ := holds_of_zeros h
  obtain ⟨f', hall, hsame, hholds⟩ := hempty.exists_addAll hds
  rw [List.nil_append] at hholds
  refine ⟨f', hall, fun kind zone statClass => ?_⟩
  rw [← hstride, ← hsame]
  split
  · rename_i hlimit
    exact hholds.get_eq kind hlimit
  · rename_i hlimit
    exact get_eq_overflow (not_le.1 hlimit)

/-- For a class that the zone has, and for one that is counted on beyond the last zone, the
zone and class that it comes to hold what there is for the zone and class themselves. -/
theorem holding_countedOn {stride zone statClass : Nat} {kind : ZoneKind} (ds : List (Deposit α))
    (h : statClass < stride ∨ zones kind ≤ zone + statClass / stride) :
    holding zones stride ds kind (zone + statClass / stride) (statClass % stride) =
      holding zones stride ds kind zone statClass := by
  by_cases hclass : statClass < stride
  · rw [Nat.div_eq_of_lt hclass, Nat.mod_eq_of_lt hclass, Nat.add_zero]
  · have hzone := h.resolve_left hclass
    rw [holding, holding, if_neg fun hboth => hzone.not_gt hboth.1, if_neg fun hboth => hclass hboth.2]

/-- For every other class it is not so: one value over there is enough to see it. -/
theorem holding_single_countedOn {stride zone statClass : Nat} {kind : ZoneKind} (hstride : 0 < stride)
    (hclass : ¬ statClass < stride) (hzone : zone + statClass / stride < zones kind) (value : α) :
    let ds : List (Deposit α) := [⟨kind, zone + statClass / stride, statClass % stride, value⟩]
    holding zones stride ds kind (zone + statClass / stride) (statClass % stride) = 0 + value ∧
      holding zones stride ds kind zone statClass = 0 :=
  ⟨holding_single hzone (Nat.mod_lt _ hstride) value, if_neg fun hboth => hclass hboth.2⟩

/-- There are slots wherever they can be stored, and every list of values for zones that there
are can be added to them. What is read then for a zone and class is what there is for the
zone and class that the class comes to when it is counted on, and where the slot has no
number nothing can be read. For a class that the zone has, and for one that is counted on
beyond the last zone, that is what there is for the zone and class themselves; for every
other it is not, as soon as something has been added over there. -/
theorem slots_apart (zones : ZoneKind → Nat) (classes : Nat) :
    ((∃ f : FlowRates Float, zeros (zones .boundary) (zones .volume) classes = .ok f) ↔
      ∀ kind, zones kind * max classes 1 * scalarBytes ≤ Count.byteLimit) ∧
    ∀ f : FlowRates Float, zeros (zones .boundary) (zones .volume) classes = .ok f →
      (∀ ds : List (Deposit Float), (∀ d ∈ ds, d.zone < zones d.kind) → ∃ f', f.addAll ds = .ok f' ∧
        ∀ kind zone statClass, f'.get kind zone statClass =
          if zone * max classes 1 + statClass ≤ Count.limit then
            .ok (holding zones (max classes 1) ds kind (zone + statClass / max classes 1) (statClass % max classes 1))
          else .error .overflow) ∧
      ∀ kind zone statClass, zone * max classes 1 + statClass ≤ Count.limit →
        ((∀ (ds : List (Deposit Float)) f', (∀ d ∈ ds, d.zone < zones d.kind) → f.addAll ds = .ok f' →
            f'.get kind zone statClass = .ok (holding zones (max classes 1) ds kind zone statClass)) ↔
          statClass < max classes 1 ∨ zones kind ≤ zone + statClass / max classes 1) := by
  refine ⟨⟨fun ⟨f, hf⟩ => (zeros_eq_ok.1 hf).2.2, fun hfits => ?_⟩, fun f hzeros => ?_⟩
  · exact ⟨{ stride := _, boundary := _, volume := _ },
      zeros_eq_ok.2 ⟨rfl, fun kind => by cases kind <;> rfl, hfits⟩⟩
  refine ⟨fun ds hds => exists_addAll_of_zeros hzeros hds, fun kind zone statClass hlimit => ⟨fun h => ?_, ?_⟩⟩
  · -- Otherwise a value added where the class counts on to is read, though the zone has nothing.
    by_contra! hbeyond
    obtain ⟨hover, hown⟩ := holding_single_countedOn (Nat.le_max_right classes 1) hbeyond.1.not_gt hbeyond.2 (1 : Float)
    have hds : ∀ d ∈ [(⟨kind, _, statClass % max classes 1, 1⟩ : Deposit Float)], d.zone < zones d.kind :=
      List.forall_mem_singleton.2 hbeyond.2
    obtain ⟨f', hall, hread⟩ := exists_addAll_of_zeros hzeros hds
    have hone := hread kind zone statClass
    rw [if_pos hlimit, hover, h _ f' hds hall, hown] at hone
    have hne : (0 : Float) ≠ 0 + 1 := ne_of_apply_ne (0 < ·) (by decide +kernel)
    exact hne (Except.ok.inj hone)
  · intro h ds f' hds hall
    obtain ⟨f'', hall'', hread⟩ := exists_addAll_of_zeros hzeros hds
    obtain rfl := Except.ok.inj (hall.symm.trans hall'')
    rw [hread, if_pos hlimit, holding_countedOn ds h]

/-- With two inlets and two classes, what the second inlet receives is read for it, and also for the first. -/
theorem slots_apart_twoInlets :
    ∃ f f' : FlowRates Float, zeros 2 1 3 = .ok f ∧ f.addAll [⟨.boundary, 1, 2, 0.5⟩] = .ok f' ∧
      f'.get .boundary 1 2 = .ok (0 + 0.5) ∧ f'.get .boundary 0 5 = .ok (0 + 0.5) ∧ f'.get .boundary 0 2 = .ok 0 := by
  let zones : ZoneKind → Nat := fun kind => if kind = .boundary then 2 else 1
  have hfits : ∀ kind, zones kind * max 3 1 * scalarBytes ≤ Count.byteLimit := fun kind => by cases kind <;> decide
  obtain ⟨hexists, hslots⟩ := slots_apart zones 3
  obtain ⟨f, hzeros⟩ := hexists.2 hfits
  obtain ⟨f', hall, hget⟩ := (hslots f hzeros).1 [⟨.boundary, 1, 2, 0.5⟩] (by simp [zones])
  refine ⟨f, f', hzeros, hall, ?_, ?_, ?_⟩
  · exact (hget .boundary 1 2).trans (by decide +kernel)
  · exact (hget .boundary 0 5).trans (by decide +kernel)
  · exact (hget .boundary 0 2).trans (by decide +kernel)

/-- With one slot per inlet, what the second of two inlets receives is read for a class of the first, which has none. -/
theorem neighbour_read :
    ∃ f f' : FlowRates Float, zeros 2 0 1 = .ok f ∧ f.addAll [⟨.boundary, 1, 0, 1⟩] = .ok f' ∧
      f'.get .boundary 0 1 = .ok 1 ∧
      holding (fun kind => if kind = .boundary then 2 else 0) 1 [⟨.boundary, 1, 0, 1⟩] .boundary 0 1 = (0 : Float) ∧
      (1 : Float) ≠ 0 :=
  ⟨{ stride := 1, boundary := #[0, 0], volume := #[] }, { stride := 1, boundary := #[0, 1], volume := #[] },
    by decide +kernel, by decide +kernel, by decide +kernel, by decide +kernel,
    ne_of_apply_ne (0 < ·) (by decide +kernel)⟩

end Inflow.FlowRates
