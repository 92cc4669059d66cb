import Inflow.Proofs.Sampling.Cumulative
import Inflow.Proofs.Scalar.Double
import Inflow.Proofs.Fault
/-!
# Looking up draws

A table of partial sums is in order whatever its weights are: weights below
zero, infinite ones and ones that compare with nothing only leave an entry where
it is, or push it up. So the search by halves finds what a search entry by entry
finds, for every draw there is.

The order of the scalars is all that this takes. How they are added and
multiplied makes no difference to it.
-/

namespace Inflow

variable {α : Type} [Scalar α]

/-! ## Tables in order -/

/-- A table that starts at zero at the least and never steps back. -/
structure Climbs (entries : Array α) : Prop where
  zero_le : ∀ v ∈ entries, 0 ≤ v
  le : ∀ {i j : Nat} {u v : α}, i ≤ j → entries[i]? = some u → entries[j]? = some v → u ≤ v

/-- The first entry that is at least `x` has index `i`. -/
structure FirstReaching (entries : Array α) (x : α) (i : Nat) : Prop where
  reached : ∃ v, entries[i]? = some v ∧ x ≤ v
  before : ∀ j < i, ∀ u, entries[j]? = some u → ¬ x ≤ u

/-- The search for an entry that is at least `x`, one after the other. -/
def scan (entries : Array α) (x : α) : Nat := entries.toList.findIdx fun v => decide (x ≤ v)

theorem FirstReaching.le {entries : Array α} {x v : α} {i j : Nat} (h : FirstReaching entries x i)
    (hj : entries[j]? = some v) (hx : x ≤ v) : i ≤ j :=
  Nat.le_of_not_lt fun hlt => h.before j hlt v hj hx

theorem FirstReaching.eq_scan {entries : Array α} {x : α} {i : Nat} (h : FirstReaching entries x i) :
    i = scan entries x := by
  obtain ⟨v, hv, hx⟩ := h.reached
  obtain ⟨hlt, rfl⟩ := Array.getElem?_eq_some_iff.1 hv
  refine ((List.findIdx_eq (by simpa using hlt)).2 ⟨by simpa using hx, fun j hj => ?_⟩).symm
  have hnot := h.before j hj _ (Array.getElem?_eq_getElem (Nat.lt_trans hj hlt))
  simpa using hnot

theorem getElem?_lastEntry {entries : Array α} (h : 0 < entries.size) :
    entries[entries.size - 1]? = some (lastEntry entries) := by
  rw [lastEntry, Array.back?, Array.getElem?_eq_getElem (by omega)]
  rfl

/-! ## The search by halves -/

variable [OrderedScalar α]

namespace Climbs

variable {entries : Array α}

omit [OrderedScalar α] in
theorem le_lastEntry (hc : Climbs entries) {i : Nat} {v : α} (hv : entries[i]? = some v) : v ≤ lastEntry entries := by
  obtain ⟨hlt, -⟩ := Array.getElem?_eq_some_iff.1 hv
  exact hc.le (Nat.le_sub_one_of_lt hlt) hv (getElem?_lastEntry (by omega))

/-- In a table in order, the search comes to the first entry that reaches the draw. -/
theorem firstReaching (hc : Climbs entries) (h : 0 < entries.size) (x : α) :
    FirstReaching entries (Scalar.smaller x (lastEntry entries)) (position entries x) := by
  obtain ⟨hlt, hlow, hup⟩ := position_boundary entries x h
  have hlast := getElem?_lastEntry h
  have hx := OrderedScalar.smaller_le (x := x) (hc.le le_rfl hlast hlast)
  generalize position entries x = p at hlt hlow hup ⊢
  generalize Scalar.smaller x (lastEntry entries) = y at hlow hup hx ⊢
  have hv := Array.getElem?_eq_getElem hlt
  constructor
  · refine ⟨entries[p], hv, ?_⟩
    rcases hup with rfl | hnot
    · rw [hlast, Option.some.injEq] at hv
      exact hv ▸ hx
    · rw [isBelow, hv] at hnot
      exact OrderedScalar.le_of_not_lt (hc.le le_rfl hv hv) (OrderedScalar.ordered_of_le hx).1
        (of_decide_eq_false hnot)
  · -- The entry just before is below the draw, and those before it are at most that entry.
    intro j hj u hu hyu
    have hbelow := hlow.resolve_left (by omega)
    have hw : entries[p - 1]? = some entries[p - 1] := Array.getElem?_eq_getElem (by omega)
    rw [isBelow, hw] at hbelow
    exact OrderedScalar.not_lt_of_le (OrderedScalar.trans hyu (hc.le (by omega) hu hw)) (of_decide_eq_true hbelow)

end Climbs

/-- What looking up draws in a table comes to: always the first entry that
reaches the draw, where the last entry stands for draws beyond it and for those
that compare with nothing. -/
structure Searched (entries : Array α) : Prop where
  first : ∀ x, ∃ i, locate entries x = .ok i ∧ i < entries.size ∧
    FirstReaching entries (Scalar.smaller x (lastEntry entries)) i ∧
    i = scan entries (Scalar.smaller x (lastEntry entries))
  at_entry : ∀ j x, entries[j]? = some x → ∃ i, locate entries x = .ok i ∧ i ≤ j
  mono : ∀ x y, x ≤ y → ∃ i j, locate entries x = .ok i ∧ locate entries y = .ok j ∧ i ≤ j
  unordered : ∀ x, ¬ x ≤ x → locate entries x = locate entries (lastEntry entries)

theorem Climbs.searched {entries : Array α} (hc : Climbs entries) (h : 0 < entries.size) : Searched entries := by
  have hlocate : ∀ x, locate entries x = .ok (position entries x) := fun x => by
    rw [locate, if_neg (by simpa using Array.ne_empty_of_size_pos h)]
  have hlast := getElem?_lastEntry h
  have hself := hc.le le_rfl hlast hlast
  constructor
  · intro x
    exact ⟨_, hlocate x, (position_boundary entries x h).1, hc.firstReaching h x, (hc.firstReaching h x).eq_scan⟩
  · intro j x hx
    have hfirst := hc.firstReaching h x
    rw [OrderedScalar.smaller_eq_left (hc.le_lastEntry hx)] at hfirst
    exact ⟨_, hlocate x, hfirst.le hx (hc.le le_rfl hx hx)⟩
  · intro x y hxy
    obtain ⟨v, hv, hyv⟩ := (hc.firstReaching h y).reached
    refine ⟨_, _, hlocate x, hlocate y, (hc.firstReaching h x).le hv ?_⟩
    exact OrderedScalar.trans (OrderedScalar.smaller_le_smaller hxy hself) hyv
  · intro x hx
    rw [hlocate, hlocate, position, position, OrderedScalar.smaller_eq_right hx, OrderedScalar.smaller_eq_left hself]

/-! ## Partial sums -/

namespace Cumulative

open RunningSum

/-- The weights that a table sums up: each times its profile value if there is a profile. -/
def summands (weights : List α) (profile : Option (Array α)) : List α :=
  match profile with
  | none => weights
  | some values => List.zipWith (· * ·) weights values.toList

/-- What a table has to do with the weights that it sums up. -/
structure SumsUp (weights : List α) (c : Cumulative α) : Prop where
  ordered : ∀ v ∈ c.entries, v ≤ v
  climbs : Climbs c.entries
  /-- At a weight of zero stands the entry before, or zero if there is none before. -/
  keeps : ∀ (i : Nat) (w : α), weights[i]? = some w → Scalar.isZero w = true →
    c.entries[i]? = (0 :: c.entries.toList)[i]?
  total_eq : c.total = lastEntry c.entries

omit [OrderedScalar α] in
theorem entry_of_lt {ws : List α} {i : Nat} {v : α} (h : (ofWeights ws).entries[i]? = some v) :
    i < ws.length ∧ (after (ws.take (i + 1))).top = v := by
  obtain ⟨hlt, -⟩ := Array.getElem?_eq_some_iff.1 h
  rw [size_entries] at hlt
  rw [entry_eq ws hlt, Option.some.injEq] at h
  exact ⟨hlt, h⟩

theorem climbs_ofWeights (ws : List α) : Climbs (ofWeights ws).entries := by
  constructor
  · intro v hv
    obtain ⟨i, hi⟩ := Array.mem_iff_getElem?.1 hv
    obtain ⟨-, rfl⟩ := entry_of_lt hi
    exact zero_le_top _
  · intro i j u v hij hu hv
    obtain ⟨-, rfl⟩ := entry_of_lt hu
    obtain ⟨-, rfl⟩ := entry_of_lt hv
    obtain ⟨vs, hvs⟩ := List.take_prefix_take_left (l := ws) (show i + 1 ≤ j + 1 by omega)
    rw [← hvs]
    exact top_after_le _ vs

omit [OrderedScalar α] in
theorem keeps_ofWeights {ws : List α} {i : Nat} {w : α} (hw : ws[i]? = some w) (hz : Scalar.isZero w = true) :
    (ofWeights ws).entries[i]? = (0 :: (ofWeights ws).entries.toList)[i]? := by
  obtain ⟨hlt, -⟩ := List.getElem?_eq_some_iff.1 hw
  have htake : ws.take (i + 1) = ws.take i ++ [w] := by rw [List.take_add_one, hw, Option.toList_some]
  rw [entry_eq ws hlt, htake, after_concat, add_of_isZero _ hz]
  cases i with
  | zero => rfl
  | succ i => rw [List.getElem?_cons_succ, Array.getElem?_toList, entry_eq ws (by omega)]

theorem sumsUp_ofWeights (ws : List α) : SumsUp ws (ofWeights ws) where
  ordered v hv := (OrderedScalar.ordered_of_le ((climbs_ofWeights ws).zero_le v hv)).2
  climbs := climbs_ofWeights ws
  keeps _ _ := keeps_ofWeights
  total_eq := rfl

theorem searched_ofWeights {ws : List α} (h : 0 < (ofWeights ws).entries.size) : Searched (ofWeights ws).entries :=
  (climbs_ofWeights ws).searched h

/-! ## Tables that are built -/

omit [OrderedScalar α] in
theorem build_eq {weights : Array α} {profile : Option (Array α)}
    (h : ∀ values ∈ profile, values.size = weights.size) :
    build weights profile = .ok (ofWeights (summands weights.toList profile)) := by
  cases profile with
  | none => rfl
  | some values => simp [build, summands, h values rfl]

omit [OrderedScalar α] in
theorem buildIndexed_eq {parents : Array α} {elements : Array Nat} {profile : Option (Array α)}
    (hrange : ∀ e ∈ elements, e < parents.size) (h : ∀ values ∈ profile, values.size = elements.size) :
    buildIndexed parents elements profile =
      .ok (ofWeights (summands (elements.toList.map fun e => parents[e]?.getD 0) profile)) := by
  have hlt : ∀ e ∈ elements.toList, e < parents.size := fun e he => hrange e (by simpa using he)
  have hfetch := mapM_fetch parents 0 hlt
  cases profile with
  | none => rw [buildIndexed, hfetch]; rfl
  | some values => rw [buildIndexed, if_pos (h values rfl), hfetch]; rfl

omit [OrderedScalar α] in
theorem length_summands {weights : List α} {profile : Option (Array α)}
    (h : ∀ values ∈ profile, values.size = weights.length) : (summands weights profile).length = weights.length := by
  cases profile with
  | none => rfl
  | some values => simp [summands, h values rfl]

/-- Whatever the weights are, with or without a profile: their partial sums are
built, one for each of them, are numbers in order, and stay where they are at a
weight of zero; and each draw finds the first of them that reaches it. The same
goes for weights that are taken from a larger table. -/
theorem partialSums_searched (profile : Option (Array α)) :
    (∀ weights : Array α, (∀ values ∈ profile, values.size = weights.size) →
      ∃ c, build weights profile = .ok c ∧ c.entries.size = weights.size ∧
        SumsUp (summands weights.toList profile) c ∧ (0 < c.entries.size → Searched c.entries)) ∧
    ∀ (parents : Array α) (elements : Array Nat), (∀ e ∈ elements, e < parents.size) →
      (∀ values ∈ profile, values.size = elements.size) →
      ∃ c, buildIndexed parents elements profile = .ok c ∧ c.entries.size = elements.size ∧
        SumsUp (summands (elements.toList.map fun e => parents[e]?.getD 0) profile) c ∧
        (0 < c.entries.size → Searched c.entries) := by
  constructor
  · intro weights hsize
    refine ⟨_, build_eq hsize, ?_, sumsUp_ofWeights _, searched_ofWeights⟩
    rw [size_entries, length_summands (by simpa using hsize), Array.length_toList]
  · intro parents elements hrange hsize
    refine ⟨_, buildIndexed_eq hrange hsize, ?_, sumsUp_ofWeights _, searched_ofWeights⟩
    rw [size_entries, length_summands (by simpa using hsize), List.length_map, Array.length_toList]

/-- Weights of all sorts: zero, negative, infinite, and no number at all. -/
def oddWeights : Array Float := #[0, 3, 0, -5, 1 / 0, 0 / 0, 2]

theorem partialSums_searched_oddWeights :
    (∃ c, build oddWeights none = .ok c ∧ c.entries.size = 7 ∧ SumsUp oddWeights.toList c ∧
      c.entries[2]? = c.entries[1]? ∧ locate c.entries 2 = .ok 1 ∧
      locate c.entries (0 / 0) = locate c.entries (lastEntry c.entries)) ∧
    ∃ c, buildIndexed oddWeights #[6, 5, 1] (some #[1, 0, -1]) = .ok c ∧ c.entries.size = 3 ∧ Climbs c.entries := by
  obtain ⟨c, hc, hsize, hsums, hsearch⟩ := (partialSums_searched (α := Float) none).1 oddWeights nofun
  obtain ⟨d, hd, hsize', hsums', -⟩ := (partialSums_searched (some #[(1 : Float), 0, -1])).2 oddWeights #[6, 5, 1]
    (by decide) (by rintro values ⟨⟩; rfl)
  have hsearch := hsearch (by rw [hsize]; decide)
  refine ⟨⟨c, hc, hsize, hsums, ?_, ?_, hsearch.unordered _ (by decide +kernel)⟩, d, hd, hsize', hsums'.climbs⟩
  · rw [hsums.keeps 2 0 rfl (by decide +kernel), List.getElem?_cons_succ, Array.getElem?_toList]
  · obtain ⟨i, hi, -, -, hscan⟩ := hsearch.first 2
    have hi1 : i = 1 := by
      cases hc
      rw [hscan]
      decide +kernel
    rw [hi, hi1]

end Cumulative
end Inflow
