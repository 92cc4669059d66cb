import Inflow.Injector.State
import Inflow.Proofs.Fault
/-!
# What an accepted registry is known for

A registry is accepted if the check has nothing to report about any of its zones and
sets. Every set of it can then rely on what the check looks for: its zone is of the
kind it stands under, its diameters do not spread to below zero, and a flow rate has
particles to carry it.
-/

namespace Inflow

variable {α : Type}

/-- The sets of a registry are those of its zones, each with the index of its zone. -/
theorem Registry.mem_requests {registry : Registry α} {q : Request α} : q ∈ registry.requests ↔
    (registry.zones q.kind)[q.zoneIndex]? = some q.entry ∧ q.set ∈ q.entry.sets := by
  unfold requests
  simp only [List.mem_flatMap, List.mem_map, Prod.exists, List.mk_mem_zipIdx_iff_getElem?]
  constructor
  · rintro ⟨kind, -, entry, i, hentry, set, hset, rfl⟩
    exact ⟨hentry, hset⟩
  · rintro ⟨hentry, hset⟩
    have hkind : q.kind ∈ ZoneKind.all := by cases q.kind <;> simp [ZoneKind.all]
    exact ⟨q.kind, hkind, q.entry, q.zoneIndex, hentry, q.set, hset, rfl⟩

variable [Scalar α]

omit [Scalar α] in
/-- Where nothing is complained about, there was no reason to. -/
theorem complain_eq_nil {condition : Bool} {value : α} {complaint : Complaint}
    (h : complain condition value complaint = []) : condition = false := by
  unfold complain at h
  split at h
  · cases h
  · exact Bool.eq_false_iff.2 ‹_›

namespace InjectionSet

variable {s : InjectionSet α} {m : Model α}

/-- Nothing at all is complained about in an accepted set. -/
theorem complaints_eq_nil (h : s.issues m = []) : s.classComplaints m = [] ∧ s.amountComplaints = [] ∧
    s.sizeComplaints m = [] ∧ s.heatComplaints m = [] ∧ s.coalComplaints m = [] := by
  unfold issues at h
  simpa only [List.map_eq_nil_iff, List.append_eq_nil_iff, and_assoc] using h

/-- The diameters of an accepted set are at least three deviations above zero. -/
theorem spread_of_accepted (h : s.issues m = []) : ¬ s.diameter < Scalar.ofNat 3 * s.diameterDeviation := by
  have hsize := (complaints_eq_nil h).2.2.1
  unfold sizeComplaints at hsize
  simp only [List.append_eq_nil_iff] at hsize
  simpa using complain_eq_nil hsize.1.2

/-- The coal of an accepted set is in the table, and its fractions are fractions that do not sum to more than one. -/
theorem coal_of_accepted (h : s.issues m = []) (hm : m.burnsCoal = true) :
    ∃ c, m.coal? s.coalNumber = some c ∧ (0 ≤ c.waterFraction ∧ c.waterFraction ≤ 1) ∧
      (0 ≤ c.ashFraction ∧ c.ashFraction ≤ 1) ∧ ¬ 1 < c.waterFraction + c.ashFraction := by
  have hcoal := (complaints_eq_nil h).2.2.2.2
  unfold coalComplaints at hcoal
  rw [if_pos hm] at hcoal
  obtain ⟨hnumber, hcomposition⟩ := List.append_eq_nil_iff.1 hcoal
  have hnumber := complain_eq_nil (List.append_eq_nil_iff.1 hnumber).1
  simp only [Bool.or_eq_false_iff, decide_eq_false_iff_not, not_lt] at hnumber
  obtain ⟨k, hk⟩ : ∃ k, s.coalNumber = k + 1 := ⟨s.coalNumber - 1, by omega⟩
  have hlt : k < m.coals.length := by omega
  have hcoal : m.coal? s.coalNumber = some m.coals[k] := by
    rw [hk]
    exact List.getElem?_eq_getElem hlt
  rw [hcoal] at hcomposition
  simp only [compositionComplaints, List.append_eq_nil_iff, and_assoc] at hcomposition
  obtain ⟨-, -, hwater, hash, hsum⟩ := hcomposition
  have hwater := complain_eq_nil hwater
  have hash := complain_eq_nil hash
  have hsum := complain_eq_nil hsum
  simp only [Bool.not_eq_false', Scalar.between, Bool.and_eq_true, decide_eq_true_eq] at hwater hash
  exact ⟨_, hcoal, hwater, hash, of_decide_eq_false hsum⟩

end InjectionSet

namespace Registry

variable {registry : Registry α} {m : Model α} {q : Request α}

theorem issues_entry_eq_nil (h : registry.issues m = []) (hq : q ∈ registry.requests) : q.entry.issues q.kind m = [] := by
  unfold issues at h
  have hkind : q.kind ∈ ZoneKind.all := by cases q.kind <;> simp [ZoneKind.all]
  have hentry := List.mem_of_getElem? (mem_requests.1 hq).1
  exact List.flatMap_eq_nil_iff.1 (List.flatMap_eq_nil_iff.1 h _ hkind) _ hentry

/-- The zones of an accepted registry are of the kind that they stand under. -/
theorem kind_of_accepted (h : registry.issues m = []) (hq : q ∈ registry.requests) : q.zone.kind = q.kind := by
  have hentry := issues_entry_eq_nil h hq
  unfold ZoneEntry.issues at hentry
  have hzone := List.map_eq_nil_iff.1 (List.append_eq_nil_iff.1 hentry).1
  unfold ZoneEntry.zoneComplaints at hzone
  have hkind := (List.append_eq_nil_iff.1 hzone).2
  split at hkind
  · cases hkind
  · rename_i hsame
    simp only [bne_iff_ne, ne_eq, not_not] at hsame
    exact hsame

theorem issues_set_eq_nil (h : registry.issues m = []) (hq : q ∈ registry.requests) : q.set.issues m = [] := by
  have hentry := issues_entry_eq_nil h hq
  unfold ZoneEntry.issues at hentry
  have hset := List.flatMap_eq_nil_iff.1 (List.append_eq_nil_iff.1 hentry).2 _ (mem_requests.1 hq).2
  exact (List.append_eq_nil_iff.1 hset).2

theorem amountComplaints_eq_nil (h : registry.issues m = []) (hq : q ∈ registry.requests) :
    q.set.amountComplaints = [] := (InjectionSet.complaints_eq_nil (issues_set_eq_nil h hq)).2.1

/-- An accepted set that imposes a flow rate asks for particles to carry it. -/
theorem count_pos_of_accepted (h : registry.issues m = []) (hq : q ∈ registry.requests) (hrate : 0 < q.set.flowRate) :
    0 < q.set.count := by
  have hamount := amountComplaints_eq_nil h hq
  unfold InjectionSet.amountComplaints at hamount
  have hcount := complain_eq_nil (List.append_eq_nil_iff.1 hamount).2
  rw [decide_eq_true hrate, Bool.true_and, beq_eq_false_iff_ne] at hcount
  exact Nat.pos_of_ne_zero hcount

/-- The sets of an accepted registry stand under the kind of zone that they name. -/
theorem location_of_accepted (h : registry.issues m = []) (hq : q ∈ registry.requests) : q.set.location = q.kind := by
  have hentry := issues_entry_eq_nil h hq
  unfold ZoneEntry.issues at hentry
  have hset := List.flatMap_eq_nil_iff.1 (List.append_eq_nil_iff.1 hentry).2 _ (mem_requests.1 hq).2
  have hlocation := (List.append_eq_nil_iff.1 hset).1
  split at hlocation
  · cases hlocation
  · rename_i hsame
    simpa using hsame

/-- An accepted set whose particles enter along the normals of faces has faces. -/
theorem boundary_of_normal (h : registry.issues m = []) (hq : q ∈ registry.requests) {magnitude : α}
    (hvelocity : q.set.velocity = .normal magnitude) : q.kind = .boundary := by
  have hamount := amountComplaints_eq_nil h hq
  unfold InjectionSet.amountComplaints at hamount
  rw [hvelocity] at hamount
  have hcomplaint := complain_eq_nil (List.append_eq_nil_iff.1 (List.append_eq_nil_iff.1 hamount).1).1
  rw [← location_of_accepted h hq]
  simpa using hcomplaint

end Registry
end Inflow
