import Mathlib
import Inflow.Apportion
import Inflow.Release.Placement
import Inflow.Proofs.Fault
/-!
# The element that a particle belongs to

Offsets share positions out over the elements of a zone, each position to one
element. Placing particles and reading off their faces walk through the same
stretches of positions, so at every position both come to the element that owns
it.
-/

namespace Inflow.Release

open Apportion (offsets)

/-! ## Owners -/

/-- Position `k` belongs to the element in place `i` of the zone. -/
def Owns (index : List Nat) (i k : Nat) : Prop :=
  ∃ a b, index[i]? = some a ∧ index[i + 1]? = some b ∧ a ≤ k ∧ k < b

theorem getElem?_offsets_zero (a : Nat) (cs : List Nat) : (offsets a cs)[0]? = some a := by
  cases cs <;> rfl

theorem not_owns_nil {a i k : Nat} : ¬ Owns (offsets a []) i k := by
  rintro ⟨_, _, -, hnext, -⟩
  simp [offsets] at hnext

theorem owns_cons_zero {a c k : Nat} {cs : List Nat} : Owns (offsets a (c :: cs)) 0 k ↔ a ≤ k ∧ k < a + c := by
  simp only [Owns, offsets, Nat.zero_add, List.getElem?_cons_zero, List.getElem?_cons_succ, getElem?_offsets_zero,
    Option.some.injEq, exists_and_left, exists_eq_left']

theorem owns_cons_succ {a c i k : Nat} {cs : List Nat} :
    Owns (offsets a (c :: cs)) (i + 1) k ↔ Owns (offsets (a + c) cs) i k := by
  simp only [Owns, offsets, List.getElem?_cons_succ]

theorem Owns.bounds {a i k : Nat} {cs : List Nat} (h : Owns (offsets a cs) i k) :
    i < cs.length ∧ a ≤ k ∧ k < a + cs.sum := by
  induction cs generalizing a i with
  | nil => exact absurd h not_owns_nil
  | cons c cs ih =>
    rw [List.length_cons, List.sum_cons]
    cases i with
    | zero =>
      have := owns_cons_zero.1 h
      omega
    | succ i =>
      have := ih (owns_cons_succ.1 h)
      omega

/-- Every position up to the last offset belongs to an element. -/
theorem exists_owns {a k : Nat} {cs : List Nat} (ha : a ≤ k) (hk : k < a + cs.sum) : ∃ i, Owns (offsets a cs) i k := by
  induction cs generalizing a with
  | nil =>
    rw [List.sum_nil] at hk
    omega
  | cons c cs ih =>
    rw [List.sum_cons] at hk
    by_cases hc : k < a + c
    · exact ⟨0, owns_cons_zero.2 ⟨ha, hc⟩⟩
    · obtain ⟨i, hi⟩ := ih (a := a + c) (by omega) (by omega)
      exact ⟨i + 1, owns_cons_succ.2 hi⟩

/-- Each position belongs to one element only. -/
theorem Owns.unique {a i j k : Nat} {cs : List Nat} (hi : Owns (offsets a cs) i k) (hj : Owns (offsets a cs) j k) :
    i = j := by
  induction cs generalizing a i j with
  | nil => exact absurd hi not_owns_nil
  | cons c cs ih =>
    cases i with
    | zero =>
      cases j with
      | zero => rfl
      | succ j =>
        have hfirst := owns_cons_zero.1 hi
        have hlater := (owns_cons_succ.1 hj).bounds
        omega
    | succ i =>
      cases j with
      | zero =>
        have hfirst := owns_cons_zero.1 hj
        have hlater := (owns_cons_succ.1 hi).bounds
        omega
      | succ j => rw [ih (owns_cons_succ.1 hi) (owns_cons_succ.1 hj)]

/-! ## Stretches -/

/-- The first of the offsets opens the stretch of one element, and the others those of the elements after it. -/
theorem stretchesFrom_cons (i a c : Nat) (cs : List Nat) :
    stretchesFrom i (offsets a (c :: cs)) =
      { element := some i, count := c } :: stretchesFrom (i + 1) (offsets (a + c) cs) := by
  have hfrom : ∀ rest, stretchesFrom i (a :: (a + c) :: rest) =
      { element := some i, count := c } :: stretchesFrom (i + 1) ((a + c) :: rest) := by
    intro rest
    rw [stretchesFrom, if_pos (Nat.le_add_right a c), Nat.add_sub_cancel_left]
  cases cs with
  | nil => exact hfrom []
  | cons d cs => exact hfrom (offsets (a + c + d) cs)

/-- A table made stretch by stretch, with one entry for each particle, has at
each position the entry of the element that owns it. -/
theorem getElem?_flatten {β : Type} {f : Nat → Option β} {F : Stretch → Checked (List β)} {n : Nat}
    (hF : ∀ i c xs, i < n → F { element := some i, count := c } = .ok xs → xs.length = c ∧ ∀ x ∈ xs, f i = some x)
    {i a : Nat} {cs : List Nat} (hn : i + cs.length ≤ n) {xss : List (List β)}
    (h : (stretchesFrom i (offsets a cs)).mapM F = .ok xss) :
    xss.flatten.length = cs.sum ∧ ∀ j k, Owns (offsets a cs) j (a + k) → xss.flatten[k]? = f (i + j) := by
  induction cs generalizing i a xss with
  | nil =>
    rw [show stretchesFrom i (offsets a []) = [] from rfl, List.mapM_nil, pure_eq_ok] at h
    subst h
    exact ⟨rfl, fun _ _ howns => absurd howns not_owns_nil⟩
  | cons c cs ih =>
    rw [List.length_cons] at hn
    rw [stretchesFrom_cons, mapM_eq_ok, List.forall₂_cons_left_iff] at h
    obtain ⟨xs, rest, hxs, hrest, rfl⟩ := h
    obtain ⟨hlength, hmem⟩ := hF i c xs (by omega) hxs
    obtain ⟨hsum, hget⟩ := ih (by omega) (mapM_eq_ok.2 hrest)
    rw [List.flatten_cons]
    refine ⟨by rw [List.length_append, hlength, hsum, List.sum_cons], fun j k howns => ?_⟩
    cases j with
    | zero =>
      have hk := owns_cons_zero.1 howns
      have hlt : k < xs.length := by omega
      rw [List.getElem?_append_left hlt, List.getElem?_eq_getElem hlt, Nat.add_zero, hmem _ (List.getElem_mem hlt)]
    | succ j =>
      have howns := owns_cons_succ.1 howns
      have hk := howns.bounds.2.1
      rw [List.getElem?_append_right (by omega), hget j (k - xs.length) (by rwa [show a + c + (k - xs.length) = a + k by omega])]
      congr 1
      omega

variable {zone : Zone} {cs : List Nat}

/-- Each particle has the face that owns its position. -/
theorem getElem?_faces {faces : Array Nat} (hcs : cs.length ≤ zone.elements.size)
    (h : Release.faces zone (offsets 0 cs) = .ok faces) : faces.size = cs.sum ∧
      ∀ i k, Owns (offsets 0 cs) i k → ∃ face, zone.elements[i]? = some face ∧ faces[k]? = some face := by
  obtain ⟨xss, hxss, h⟩ := bind_eq_ok.1 h
  rw [pure_eq_ok] at h
  subst h
  have hF : ∀ i c xs, i < zone.elements.size → Stretch.faces zone { element := some i, count := c } = .ok xs →
      xs.length = c ∧ ∀ x ∈ xs, zone.elements[i]? = some x := by
    intro i c xs _ hxs
    unfold Stretch.faces at hxs
    split at hxs
    · rename_i hc
      cases hxs
      exact ⟨hc.symm, by simp⟩
    · simp only [Stretch.owner, bind_eq_ok, pure_eq_ok, Except.ok.injEq, exists_eq_left', fetch_eq_ok] at hxs
      obtain ⟨face, hface, -, -, rfl⟩ := hxs
      exact ⟨List.length_replicate, fun x hx => by rw [hface, List.eq_of_mem_replicate hx]⟩
  obtain ⟨hsum, hget⟩ := getElem?_flatten hF (i := 0) (by omega) hxss
  refine ⟨by rw [List.size_toArray, hsum], fun i k howns => ?_⟩
  have hi : i < zone.elements.size := howns.bounds.1.trans_le hcs
  refine ⟨_, Array.getElem?_eq_getElem hi, ?_⟩
  rw [List.getElem?_toArray, hget i k (by rwa [Nat.zero_add]), Nat.zero_add, Array.getElem?_eq_getElem hi]

/-- Each particle has the number over all ranks of the face that owns its position. -/
theorem getElem?_globalFaces {globalFaces : Array Nat} (hcs : cs.length ≤ zone.elements.size)
    (h : Release.globalFaces zone (offsets 0 cs) = .ok globalFaces) : globalFaces.size = cs.sum ∧
      ∀ i k, Owns (offsets 0 cs) i k → ∃ face, zone.globalId i = some face ∧ globalFaces[k]? = some face := by
  obtain ⟨xss, hxss, h⟩ := bind_eq_ok.1 h
  rw [pure_eq_ok] at h
  subst h
  -- A place that the zone has an element in is numbered.
  have hnumbered (i : Nat) (hi : i < zone.elements.size) : ∃ face, zone.globalId i = some face := by
    rw [Zone.globalId, Array.getElem?_eq_getElem hi]
    exact ⟨_, rfl⟩
  have hF : ∀ i c xs, i < zone.elements.size → Stretch.globalFaces zone { element := some i, count := c } = .ok xs →
      xs.length = c ∧ ∀ x ∈ xs, zone.globalId i = some x := by
    intro i c xs hi hxs
    obtain ⟨face, hface⟩ := hnumbered i hi
    simp only [Stretch.globalFaces, Stretch.owner, bind_eq_ok, Except.ok.injEq, exists_eq_left', hface, pure_eq_ok] at hxs
    subst hxs
    exact ⟨List.length_replicate, fun x hx => by rw [hface, List.eq_of_mem_replicate hx]⟩
  obtain ⟨hsum, hget⟩ := getElem?_flatten hF (i := 0) (by omega) hxss
  refine ⟨by rw [List.size_toArray, hsum], fun i k howns => ?_⟩
  obtain ⟨face, hface⟩ := hnumbered i (howns.bounds.1.trans_le hcs)
  refine ⟨face, hface, ?_⟩
  rw [List.getElem?_toArray, hget i k (by rwa [Nat.zero_add]), Nat.zero_add, hface]

/-! ## Placing -/

variable {α : Type} [Scalar α] {mesh : Mesh α} {rank : Nat}

/-- Where the particles of the element in place `i` of a zone begin: the centre
of the element, and the cell that it is or that lies behind it. -/
def home (zone : Zone) (mesh : Mesh α) (i : Nat) : Option (Vec3 α × Nat) :=
  zone.elements[i]?.bind fun element =>
    match zone.kind with
    | .boundary => mesh.faceCenters[element]?.bind fun center => mesh.faceCells[element]?.map fun cell => (center, cell)
    | .volume => mesh.cellCenters[element]?.map fun center => (center, element)

omit [Scalar α] in
theorem home_of_boundary {i face : Nat} {center : Vec3 α} {cell : Nat} (hkind : zone.kind = .boundary)
    (hface : zone.elements[i]? = some face) (h : home zone mesh i = some (center, cell)) :
    mesh.faceCenters[face]? = some center ∧ mesh.faceCells[face]? = some cell := by
  simp only [home, hface, hkind, Option.bind_some, Option.bind_eq_some_iff, Option.map_eq_some_iff, Prod.mk.injEq] at h
  obtain ⟨_, hcenter, _, hcell, rfl, rfl⟩ := h
  exact ⟨hcenter, hcell⟩

omit [Scalar α] in
/-- A particle that is placed is put where its element begins, and is as before in all else. -/
theorem placeAt_eq_ok {i : Nat} {p placed : Particle α} : placeAt zone mesh rank i p = .ok placed ↔
    ∃ center cell, home zone mesh i = some (center, cell) ∧ placed = { p with position := center, cell, rank } := by
  unfold placeAt home
  cases hkind : zone.kind with
  | boundary =>
    simp only [bind_eq_ok, fetch_eq_ok, pure_eq_ok, Option.bind_eq_some_iff, Option.map_eq_some_iff, Prod.mk.injEq]
    constructor
    · rintro ⟨element, helement, center, hcenter, cell, hcell, rfl⟩
      exact ⟨center, cell, ⟨element, helement, center, hcenter, cell, hcell, rfl, rfl⟩, rfl⟩
    · rintro ⟨_, _, ⟨element, helement, center, hcenter, cell, hcell, rfl, rfl⟩, rfl⟩
      exact ⟨element, helement, center, hcenter, cell, hcell, rfl⟩
  | volume =>
    simp only [bind_eq_ok, fetch_eq_ok, pure_eq_ok, Option.bind_eq_some_iff, Option.map_eq_some_iff, Prod.mk.injEq]
    constructor
    · rintro ⟨element, helement, center, hcenter, rfl⟩
      exact ⟨center, element, ⟨element, helement, center, hcenter, rfl, rfl⟩, rfl⟩
    · rintro ⟨_, _, ⟨element, helement, center, hcenter, rfl, rfl⟩, rfl⟩
      exact ⟨element, helement, center, hcenter, rfl⟩

omit [Scalar α] in
theorem getElem?_placeAll {i a : Nat} {ps placed : List (Particle α)}
    (h : placeAll zone mesh rank (stretchesFrom i (offsets a cs)) ps = .ok placed) (hps : ps.length = cs.sum) {j k : Nat}
    (howns : Owns (offsets a cs) j (a + k)) :
    ∃ p p', ps[k]? = some p ∧ placed[k]? = some p' ∧ placeAt zone mesh rank (i + j) p = .ok p' := by
  induction cs generalizing i a j k ps placed with
  | nil => exact absurd howns not_owns_nil
  | cons c cs ih =>
    have hbounds := howns.bounds
    rw [List.sum_cons] at hps hbounds
    rw [stretchesFrom_cons] at h
    cases ps with
    | nil =>
      rw [List.length_nil] at hps
      omega
    | cons p ps =>
      simp only [placeAll, bind_eq_ok, pure_eq_ok] at h
      obtain ⟨here, hhere, rest, hrest, rfl⟩ := h
      have hhere := mapM_eq_ok.1 hhere
      have hlength : here.length = c := by
        rw [← hhere.length_eq, List.length_take]
        omega
      cases j with
      | zero =>
        have hk : k < here.length := by
          have := owns_cons_zero.1 howns
          omega
        have hplaced := hhere.get (by rw [hhere.length_eq]; exact hk) hk
        obtain ⟨_, howner, hplaced⟩ := bind_eq_ok.1 hplaced
        cases howner
        refine ⟨_, _, ?_, ?_, hplaced⟩
        · rw [List.get_eq_getElem, List.getElem_take, List.getElem?_eq_getElem]
        · rw [List.getElem?_append_left hk, List.getElem?_eq_getElem hk, List.get_eq_getElem]
      | succ j =>
        have howns := owns_cons_succ.1 howns
        have hk := howns.bounds.2.1
        obtain ⟨p₁, p₂, hp₁, hp₂, hplaced⟩ := ih (j := j) (k := k - c) hrest (by rw [List.length_drop]; omega)
          (by rwa [show a + c + (k - c) = a + k by omega])
        rw [List.getElem?_drop, show c + (k - c) = k by omega] at hp₁
        refine ⟨p₁, p₂, hp₁, ?_, by rwa [show i + (j + 1) = i + 1 + j by omega]⟩
        rw [List.getElem?_append_right (by omega), hlength, hp₂]

omit [Scalar α] in
/-- Each particle is placed at the element that owns its position. -/
theorem getElem?_place {ps placed : Array (Particle α)} (h : place zone (offsets 0 cs) mesh rank ps = .ok placed)
    (hps : ps.size = cs.sum) {i k : Nat} (howns : Owns (offsets 0 cs) i k) :
    ∃ p center cell, ps[k]? = some p ∧ home zone mesh i = some (center, cell) ∧
      placed[k]? = some { p with position := center, cell, rank } := by
  obtain ⟨out, hout, h⟩ := bind_eq_ok.1 h
  obtain ⟨p, p', hp, hp', hplaced⟩ := getElem?_placeAll hout (by rw [Array.length_toList, hps]) (k := k) (by rwa [Nat.zero_add])
  rw [Nat.zero_add] at hplaced
  obtain ⟨center, cell, hhome, rfl⟩ := placeAt_eq_ok.1 hplaced
  refine ⟨p, center, cell, by rwa [Array.getElem?_toList] at hp, hhome, ?_⟩
  rw [pure_eq_ok.1 h, List.getElem?_toArray, hp']

end Inflow.Release
