import Mathlib
import Inflow.Fault
/-!
# Checked computations

What it says that a checked computation succeeds: so do all its parts, and a
count that comes out is in range. And what it says that it fails: so does one of
its parts, and each part has but one fault to fail with.
-/

namespace Inflow

variable {ε β δ : Type}

theorem bind_eq_ok {x : Except ε β} {f : β → Except ε δ} {d : δ} :
    (x >>= f) = .ok d ↔ ∃ b, x = .ok b ∧ f b = .ok d := by
  cases x with
  | error e => simp [bind, Except.bind]
  | ok b => simp [bind, Except.bind]

/-- A sequence fails in its first part, or after it in its second. -/
theorem bind_eq_error {x : Except ε β} {f : β → Except ε δ} {e : ε} :
    (x >>= f) = .error e ↔ x = .error e ∨ ∃ b, x = .ok b ∧ f b = .error e := by
  cases x with
  | error e => simp [bind, Except.bind]
  | ok b => simp [bind, Except.bind]

theorem pure_eq_ok {b c : β} : (pure b : Except ε β) = .ok c ↔ c = b :=
  ⟨fun h => by cases h; rfl, fun h => by rw [h]; rfl⟩

theorem mapError_eq_ok {x : Except ε β} {f : ε → δ} {b : β} : x.mapError f = .ok b ↔ x = .ok b := by
  cases x <;> simp [Except.mapError]

theorem fetch_eq_ok {xs : Array β} {i : Nat} {x : β} : fetch xs i = .ok x ↔ xs[i]? = some x := by
  unfold fetch
  split <;> simp [*]

theorem exists_eq_ok {x : Except ε β} (h : ∀ e, x ≠ .error e) : ∃ b, x = .ok b := by
  cases x with
  | error e => exact absurd rfl (h e)
  | ok b => exact ⟨b, rfl⟩

theorem pure_ne_error {b : β} {e : ε} : (pure b : Except ε β) ≠ .error e := nofun

/-- A sequence whose second part cannot fail fails in its first. -/
theorem bind_pure_eq_error {x : Except ε β} {f : β → δ} {e : ε} :
    (x >>= fun b => pure (f b)) = .error e ↔ x = .error e := by
  rw [bind_eq_error]
  exact or_iff_left fun ⟨_, _, h⟩ => pure_ne_error h

theorem fetch_eq_error {xs : Array β} {i : Nat} {f : Fault} :
    fetch xs i = .error f ↔ f = .outOfRange ∧ xs.size ≤ i := by
  unfold fetch
  split
  · rename_i x hx
    have hlt := (Array.getElem?_eq_some_iff.1 hx).1
    simp [hlt]
  · rename_i hnone
    simp [Array.getElem?_eq_none_iff.1 hnone, eq_comm]

/-- Where all entries of a list have a result, the results are those of the entries, in their order. -/
theorem mapM_eq_ok {f : β → Except ε δ} {xs : List β} {ys : List δ} :
    xs.mapM f = .ok ys ↔ List.Forall₂ (fun x y => f x = .ok y) xs ys := by
  induction xs generalizing ys with
  | nil => rw [List.mapM_nil, pure_eq_ok, List.forall₂_nil_left_iff]
  | cons x xs ih =>
    simp only [List.mapM_cons, bind_eq_ok, pure_eq_ok, ih, List.forall₂_cons_left_iff]
    constructor
    · rintro ⟨y, hy, zs, hzs, rfl⟩
      exact ⟨y, zs, hy, hzs, rfl⟩
    · rintro ⟨y, zs, hy, hzs, rfl⟩
      exact ⟨y, hy, zs, hzs, rfl⟩

/-- Where all entries of a list have a result, each has one. -/
theorem exists_mem_of_mapM_eq_ok {f : β → Except ε δ} {xs : List β} {ys : List δ} (h : xs.mapM f = .ok ys) {x : β}
    (hx : x ∈ xs) : ∃ y ∈ ys, f x = .ok y := by
  induction mapM_eq_ok.1 h with
  | nil => cases hx
  | cons hy _ ih =>
    rcases List.mem_cons.1 hx with rfl | hx
    · exact ⟨_, List.mem_cons_self, hy⟩
    · obtain ⟨y, hmem, hy⟩ := ih (mapM_eq_ok.2 ‹_›) hx
      exact ⟨y, List.mem_cons_of_mem _ hmem, hy⟩

/-- Each of the results of a list is that of one of its entries. -/
theorem exists_of_mem_of_mapM_eq_ok {f : β → Except ε δ} {xs : List β} {ys : List δ} (h : xs.mapM f = .ok ys) {y : δ}
    (hy : y ∈ ys) : ∃ x ∈ xs, f x = .ok y := by
  induction mapM_eq_ok.1 h with
  | nil => cases hy
  | cons hx _ ih =>
    rcases List.mem_cons.1 hy with rfl | hy
    · exact ⟨_, List.mem_cons_self, hx⟩
    · obtain ⟨x, hmem, hx⟩ := ih (mapM_eq_ok.2 ‹_›) hy
      exact ⟨x, List.mem_cons_of_mem _ hmem, hx⟩

/-- A list fails in one of its entries. -/
theorem exists_mem_of_mapM_eq_error {f : β → Except ε δ} {xs : List β} {e : ε} (h : xs.mapM f = .error e) :
    ∃ x ∈ xs, f x = .error e := by
  induction xs with
  | nil => cases h
  | cons x xs ih =>
    rw [List.mapM_cons, bind_eq_error] at h
    rcases h with hx | ⟨y, -, h⟩
    · exact ⟨x, List.mem_cons_self, hx⟩
    · obtain ⟨z, hz, he⟩ := ih (bind_pure_eq_error.1 h)
      exact ⟨z, List.mem_cons_of_mem x hz, he⟩

theorem mapM_fetch (xs : Array β) (d : β) {is : List Nat} (h : ∀ i ∈ is, i < xs.size) :
    is.mapM (fetch xs) = .ok (is.map fun i => xs[i]?.getD d) := by
  induction is with
  | nil => rfl
  | cons i is ih =>
    have hi : fetch xs i = .ok (xs[i]?.getD d) := by
      simp [fetch, h i (by simp)]
    rw [List.mapM_cons, hi, ih fun j hj => h j (by simp [hj])]
    rfl

namespace Count

theorem total_eq_sum (ns : List Nat) : total ns = ns.sum := List.sum_eq_foldl_nat.symm

theorem checked_eq_ok {n k : Nat} : checked n = .ok k ↔ k = n ∧ n ≤ limit := by
  unfold checked
  split
  · rename_i h
    simp [h, eq_comm]
  · rename_i h
    simp [h]

theorem checked_eq_error {n : Nat} {f : Fault} (h : checked n = .error f) : f = .overflow := by
  unfold checked at h
  split at h
  · cases h
  · exact (Except.error.inj h).symm

theorem store_eq_error {n bytes : Nat} {f : Fault} :
    store n bytes = .error f ↔ f = .tooLarge ∧ byteLimit < n * bytes := by
  unfold store
  split <;> simp [eq_comm] <;> omega

theorem add_eq_ok {m n k : Nat} : add m n = .ok k ↔ k = m + n ∧ m + n ≤ limit := checked_eq_ok

theorem sum_eq_ok {ns : List Nat} {k : Nat} : sum ns = .ok k ↔ k = ns.sum ∧ ns.sum ≤ limit := by
  rw [sum, checked_eq_ok, total_eq_sum]

end Count
end Inflow
