import Inflow.Proofs.Apportion.Draws
/-!
# Draws stay within their tables

A draw searches a table of weights and adds to the count of the element that it
comes to. Wherever particles are shared out there is something to search, and every
element that can be selected has a count, so checking each access changes nothing.
-/

namespace Inflow

variable {α γ : Type} [Scalar α] [Generator γ]

namespace Tally

/-- `draw`, with a check of every access: a search needs entries, and the element
that it comes to a count. -/
def drawChecked : Nat → Tally α γ → Checked (Tally α γ)
  | 0, t => .ok t
  | n + 1, t => do
    let drawn : α × RandomStream γ := t.stream.uniform
    let selected ← t.table.sample drawn.1
    let count ← fetch t.counts selected.1
    drawChecked n
      { counts := t.counts.setIfInBounds selected.1 (count + 1), table := selected.2, stream := drawn.2 }

omit [Scalar α] [Generator γ] in
theorem set_eq_modify {counts : Array Nat} {i : Nat} (h : i < counts.size) :
    counts.setIfInBounds i (counts[i] + 1) = counts.modify i (· + 1) := by
  apply Array.ext_getElem?
  intro j
  rw [Array.getElem?_setIfInBounds, Array.getElem?_modify]
  split
  · rename_i hij
    subst hij
    simp [h]
  · rfl

/-- Where there are entries to search, and a count for each of them, no access is out of range. -/
theorem drawChecked_eq {n : Nat} {t : Tally α γ} (hsize : t.counts.size = t.table.entries.size)
    (h : n = 0 ∨ 0 < t.table.entries.size) : drawChecked n t = .ok (draw n t) := by
  induction n generalizing t with
  | zero => rfl
  | succ n ih =>
    have hpos : 0 < t.table.entries.size := h.resolve_left (Nat.succ_ne_zero n)
    obtain ⟨u, hu⟩ : ∃ u : α × RandomStream γ, u = t.stream.uniform := ⟨_, rfl⟩
    have hlt : (t.table.select u.1).1 < t.counts.size := by
      rw [hsize]
      exact selects_lt ⟨u.1, rfl⟩ hpos
    have hsample : t.table.sample u.1 = .ok (t.table.select u.1) := by
      unfold Cumulative.sample
      rw [if_neg (by simpa [Array.isEmpty_iff, ← Array.size_pos_iff] using hpos)]
    have hfetch : fetch t.counts (t.table.select u.1).1 = .ok t.counts[(t.table.select u.1).1] :=
      fetch_eq_ok.2 (Array.getElem?_eq_getElem hlt)
    unfold drawChecked draw
    simp only [← hu, hsample]
    -- A draw leaves the table and the number of counts as they are.
    refine bind_eq_ok.2 ⟨_, rfl, bind_eq_ok.2 ⟨_, hfetch, ?_⟩⟩
    rw [set_eq_modify hlt]
    exact ih (by rw [Array.size_modify, hsize]; rfl) (.inr hpos)

end Tally

namespace Apportion

/-- `drawShares` with checked draws. -/
def drawSharesChecked (n : Nat) (weights : List α) (stream : RandomStream γ) :
    Checked (List Nat × RandomStream γ × List Message) :=
  let nothing := Array.replicate weights.length 0
  let table := Cumulative.ofWeights weights
  if 0 < table.total then do
    let t ← Tally.drawChecked n { counts := nothing, table := table.normalize, stream }
    let warnings :=
      if 0 < t.table.overshoots then [Message.rankDrawsClamped t.table.overshoots] else []
    return (t.counts.toList, t.stream, warnings ++ [.apportioned n t.counts.toList])
  else return (nothing.toList, stream, [.apportioned n nothing.toList])

/-- `overRanks` with checked draws. -/
def overRanksChecked (n : Nat) (weight : α) (seat : Seat) (stream : RandomStream γ) :
    Program α (Checked (Share γ)) := do
  if seat.size ≤ 1 then return .ok { count := n, stream }
  match ← Program.gather weight with
  | some weights =>
    match drawSharesChecked n weights stream with
    | .error f => return .error f
    | .ok (counts, stream, messages) =>
      let count ← Program.scatter (some counts)
      return .ok { count, stream, messages }
  | none =>
    let count ← Program.scatter none
    return .ok { count, stream }

/-- `overElements` with checked draws. -/
def overElementsChecked (n : Nat) (table : Cumulative α) (stream : RandomStream γ) : Checked (Layout γ) := do
  let (n, warnings) := placeable n table
  let t ← Tally.drawChecked n
    { counts := Array.replicate table.entries.size 0, table := table.normalize, stream }
  let late := t.table.overshoots
  return {
    index := offsets 0 t.counts.toList
    stream := t.stream
    messages := warnings ++ if 0 < late then [.elementDrawsClamped late] else [] }

/-- `overZone` with checked draws. -/
def overZoneChecked (n : Nat) (elements : Array Nat) (weights : Array α) (profile : Option (Array α))
    (seat : Seat) (stream : RandomStream γ) : Program α (Checked (Layout γ)) :=
  match Cumulative.buildIndexed weights elements profile with
  | .error f => return .error f
  | .ok table => do
    match ← overRanksChecked n table.total seat stream with
    | .error f => return .error f
    | .ok share =>
      match overElementsChecked share.count table share.stream with
      | .error f => return .error f
      | .ok layout => return .ok { layout with messages := share.messages ++ layout.messages }

section Equal

variable [OrderedScalar α]

/-- Ranks have some weight to share by before anything is drawn for them. -/
theorem drawSharesChecked_eq (n : Nat) (weights : List α) (stream : RandomStream γ) :
    drawSharesChecked n weights stream = .ok (drawShares n weights stream) := by
  unfold drawSharesChecked drawShares
  simp only
  split
  · rename_i hpos
    have hentries : 0 < (Cumulative.ofWeights weights).entries.size := Cumulative.entries_pos hpos
    rw [Tally.drawChecked_eq]
    · rfl
    · simp [Cumulative.size_normalize, Cumulative.size_entries]
    · exact .inr (by rwa [Cumulative.size_normalize])
  · rfl

theorem overRanksChecked_eq (n : Nat) (weight : α) (seat : Seat) (stream : RandomStream γ) :
    overRanksChecked n weight seat stream = overRanks n weight seat stream >>= fun share => .done (.ok share) := by
  unfold overRanksChecked overRanks
  split
  · rfl
  · rw [Program.bind_assoc]
    refine congrArg (Program.gather weight >>= ·) (funext fun gathered : Option (List α) => ?_)
    cases gathered with
    | none => rfl
    | some weights =>
      simp only [drawSharesChecked_eq]
      rfl

omit [OrderedScalar α] in
/-- A rank has elements to share over before it draws for them. -/
theorem overElementsChecked_eq (n : Nat) (table : Cumulative α) (stream : RandomStream γ) :
    overElementsChecked n table stream = .ok (overElements n table stream) := by
  unfold overElementsChecked overElements
  simp only
  rw [Tally.drawChecked_eq]
  · rfl
  · simp [Cumulative.size_normalize]
  · rw [Cumulative.size_normalize]
    rcases Nat.eq_zero_or_pos table.entries.size with hempty | hpos
    · rw [placeable_of_empty n hempty]
      exact .inl rfl
    · exact .inr hpos

/-- Particles are shared out as if every access was checked. -/
theorem overZoneChecked_eq (n : Nat) (elements : Array Nat) (weights : Array α) (profile : Option (Array α))
    (seat : Seat) (stream : RandomStream γ) :
    overZoneChecked n elements weights profile seat stream = overZone n elements weights profile seat stream := by
  unfold overZoneChecked overZone
  cases Cumulative.buildIndexed weights elements profile with
  | error f => rfl
  | ok table =>
    simp only [overRanksChecked_eq, Program.bind_assoc, Program.done_bind, overElementsChecked_eq]

end Equal
end Apportion
end Inflow
