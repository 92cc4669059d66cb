import Inflow.Ranks.Threads
import Inflow.Proofs.Fault
import Inflow.Proofs.Ranks.Lockstep
/-!
# Threads meet as the ranks of a group do

Whatever order the threads take their steps in, none gets stuck before all are
done, and every collective returns what it means for the contributions of its own
round. What carries this is an invariant with two phases, between two openings of
the barrier each. While the ranks collect, those that have written hold their
contributions in the slots, and a rank may still be leaving the round before.
While they spread what was collected, nobody writes, and a rank may still be
entering. The last rank to arrive takes the group from one phase to the other.
-/

namespace Inflow

variable {α β : Type}

/-- What a collective means: the reply to each rank as a function of the
contributions in rank order. Counts and scalars are added up from left to right,
scalars from minus zero on; a sum of counts that is no count is a fault. -/
def Collective.meaning [Scalar α] : (c : Collective) → (contributions : List (c.Contribution α)) → (rank : Nat) → c.Reply α
  | gather, values, rank => if rank = 0 then some (values : List α) else none
  | scatter, lists, rank =>
    match (lists : List (Option (List Nat))) with
    | some counts :: _ => counts[rank]?.getD 0
    | _ => (0 : Nat)
  | any, flags, _ => List.any flags id
  | sumCounts, counts, _ =>
    let sum := (counts : List Nat).foldl (fun (sum count : Nat) => sum + count) 0
    (if sum ≤ Count.limit then .ok sum else .error .overflow : Checked Nat)
  | sumScalars, values, _ => ((values : List α).foldl (fun (sum value : α) => sum + value) (-0 : α) : α)

namespace Collective

variable [Scalar α]

/-- A count that a rank brings is one that it can have. -/
def InRange : (c : Collective) → c.Contribution α → Prop
  | sumCounts, count => Nat.le count Count.limit
  | _, _ => True

omit [Scalar α] in
theorem sum_singleton {count : Nat} (h : count ≤ Count.limit) : Count.sum [count] = .ok count :=
  Count.sum_eq_ok.2 ⟨rfl, h⟩

/-- What a collective means for a rank on its own is what it would get without slots. -/
theorem meaning_singleton (hzero : ∀ x : α, -0 + x = x) {c : Collective} {x : c.Contribution α} (hx : c.InRange x) :
    c.meaning [x] 0 = c.serial x := by
  cases c with
  | gather => rfl
  | scatter =>
    cases hcounts : (x : Option (List Nat)) with
    | none => rfl
    | some counts => exact congrArg (fun count : Option Nat => count.getD 0) List.head?_eq_getElem?.symm
  | any => exact Bool.or_false x
  | sumCounts => exact sum_singleton hx
  | sumScalars => exact hzero x

theorem total_cons (hzero : ∀ x : α, -0 + x = x) (x : α) (xs : List α) :
    Threads.Slots.total (x :: xs) = Scalar.sum (x :: xs) := congrArg (xs.foldl (· + ·)) (hzero x)

/-- The slots add up from minus zero on; where this is neutral, the sum is that of a group that runs in step. -/
theorem meaning_eq_answer (hzero : ∀ x : α, -0 + x = x) (c : Collective) {xs : List (c.Contribution α)} (hxs : xs ≠ [])
    (rank : Nat) : c.meaning xs rank = c.answer xs rank := by
  obtain ⟨x, rest, rfl⟩ := List.exists_cons_of_ne_nil hxs
  cases c with
  | sumScalars => exact total_cons hzero x rest
  | _ => rfl

end Collective

namespace Threads

variable {n : Nat}

/-! ## Slots -/

namespace Slots

/-- The slots hold what rank `i` has brought. Only the coordinator brings what is scattered. -/
def Holds (slots : Slots α n) (i : Fin n) : (c : Collective) → c.Contribution α → Prop
  | .gather, value => slots.reals.get i = (value : α)
  | .scatter, list =>
    i.val = 0 → ∀ k : Fin n, slots.counts.get k = ((list : Option (List Nat)).bind (·[k.val]?)).getD 0
  | .any, flag => slots.counts.get i = Bool.toNat flag
  | .sumCounts, count => slots.counts.get i = (count : Nat)
  | .sumScalars, value => slots.reals.get i = (value : α)

variable {slots : Slots α n} {i j : Fin n}

theorem holds_write (slots : Slots α n) (i : Fin n) (c : Collective) (x : c.Contribution α) :
    (slots.write i c x).Holds i c x := by
  cases c with
  | scatter =>
    intro hi k
    simp only [write, if_pos hi, Vector.get_eq_getElem, Vector.getElem_ofFn]
  | _ => exact Vector.getElem_set_self i.isLt

/-- What one rank brings does not touch what another has brought. -/
theorem Holds.write_other {c : Collective} {x y : c.Contribution α} (h : slots.Holds j c y) (hne : i ≠ j) :
    (slots.write i c x).Holds j c y := by
  have hval : i.val ≠ j.val := fun heq => hne (Fin.ext heq)
  cases c with
  | scatter =>
    intro hj
    have hi : i.val ≠ 0 := fun hi => hval (hi.trans hj.symm)
    simp only [write, if_neg hi]
    exact h hj
  | _ => exact (Vector.getElem_set_ne i.isLt j.isLt hval).trans h

theorem toList_eq_ofFn {δ : Type} {xs : Vector δ n} {x : Fin n → δ} (h : ∀ i : Fin n, xs.get i = x i) :
    xs.toList = List.ofFn x := by
  refine List.ext_getElem (by simp) fun k hk _ => ?_
  have hlt : k < n := by simpa using hk
  rw [Vector.getElem_toList, List.getElem_ofFn]
  exact h ⟨k, hlt⟩

theorem any_counts {counts : Vector Nat n} {flags : Fin n → Bool} (h : ∀ i : Fin n, counts.get i = (flags i).toNat) :
    counts.toList.any (· != 0) = (List.ofFn flags).any id := by
  have hlist : counts.toList = (List.ofFn flags).map Bool.toNat := by
    rw [List.map_ofFn]
    exact toList_eq_ofFn h
  rw [hlist, List.any_map]
  refine congrArg (List.any _) (funext fun flag => ?_)
  cases flag <;> rfl

variable [Scalar α]

/-- Slots that hold what all ranks have brought give each rank what the collective means. -/
theorem read_of_holds {c : Collective} {x : Fin n → c.Contribution α} (h : ∀ i, slots.Holds i c (x i)) (i : Fin n) :
    slots.read i c = c.meaning (List.ofFn x) i := by
  cases c with
  | gather =>
    have hreals : slots.reals.toList = List.ofFn x := toList_eq_ofFn h
    exact congrArg (fun values => if i.val = 0 then some values else none) hreals
  | scatter =>
    obtain ⟨m, rfl⟩ : ∃ m, n = m + 1 := ⟨n - 1, by have := i.pos; omega⟩
    have hslot : slots.counts.get i = ((x 0 : Option (List Nat)).bind (·[i.val]?)).getD 0 := h 0 rfl i
    refine hslot.trans ?_
    rw [List.ofFn_succ]
    cases hx : (x 0 : Option (List Nat)) with
    | none => rfl
    | some counts => rfl
  | any => exact any_counts h
  | sumCounts =>
    have hcounts : slots.counts.toList = List.ofFn x := toList_eq_ofFn h
    exact congrArg Count.sum hcounts
  | sumScalars =>
    have hreals : slots.reals.toList = List.ofFn x := toList_eq_ofFn h
    have htotal : total slots.reals.toList = total (List.ofFn x : List α) := congrArg total hreals
    exact htotal

end Slots

/-! ## Rounds -/

section Rounds

variable [Scalar α]

/-- The ranks have gone through some rounds of collectives together: what was
returned to each of them, and the programs that they have come to. -/
inductive Completed (ps : Fin n → Program α β) : (Fin n → List (Returned α)) → (Fin n → Program α β) → Prop
  | start : Completed ps (fun _ => []) ps
  | round {past c} {x : Fin n → c.Contribution α} {next : Fin n → c.Reply α → Program α β}
      (before : Completed ps past fun i => .call c (x i) (next i)) :
      Completed ps (fun i => past i ++ [⟨c, c.meaning (List.ofFn x) i⟩]) fun i => next i (c.meaning (List.ofFn x) i)

/-- The ranks meet in the same collectives until all are done, with these results. -/
inductive InStep : (Fin n → Program α β) → (Fin n → β) → Prop
  | done (rs) : InStep (fun i => .done (rs i)) rs
  | call {c rs} {x : Fin n → c.Contribution α} {next : Fin n → c.Reply α → Program α β}
      (rest : InStep (fun i => next i (c.meaning (List.ofFn x) i)) rs) : InStep (fun i => .call c (x i) (next i)) rs

/-- Ranks in step stand before the same collective. -/
theorem InStep.collective_eq {ps : Fin n → Program α β} {rs : Fin n → β} (h : InStep ps rs) {i j : Fin n}
    {c d : Collective} {x : c.Contribution α} {y : d.Contribution α} {next : c.Reply α → Program α β}
    {after : d.Reply α → Program α β} (hi : ps i = .call c x next) (hj : ps j = .call d y after) : c = d := by
  cases h with
  | done => cases hi
  | call rest =>
    injection hi with hc
    injection hj with hd
    exact hc.symm.trans hd

end Rounds

/-! ## Steps -/

/-- The rank waits at the barrier for the end of this generation. -/
def Stage.waits (generation : Nat) : Stage α β → Bool
  | .awaiting _ _ g => g == generation
  | .parting _ _ _ g => g == generation
  | _ => false

/-- The number of ranks that wait for the end of this generation. -/
def waiters (generation : Nat) (ranks : Vector (Rank α β) n) : Nat := ranks.countP fun r => r.stage.waits generation

section Waiters

variable {ranks : Vector (Rank α β) n} {i : Fin n} {r : Rank α β} {g : Nat}

theorem waiters_set (ranks : Vector (Rank α β) n) (i : Fin n) (r : Rank α β) (g : Nat) :
    waiters g (ranks.set i r i.isLt) = (waiters g ranks - if (ranks.get i).stage.waits g = true then 1 else 0) +
      if r.stage.waits g = true then 1 else 0 := Vector.countP_set i.isLt

theorem waiters_set_of_eq (h : r.stage.waits g = (ranks.get i).stage.waits g) :
    waiters g (ranks.set i r i.isLt) = waiters g ranks := by
  have hpos : (ranks.get i).stage.waits g = true → 0 < waiters g ranks := fun hw =>
    Vector.countP_pos_iff.2 ⟨ranks.get i, Vector.getElem_mem i.isLt, hw⟩
  rw [waiters_set, h]
  split
  · have := hpos ‹_›
    omega
  · omega

theorem waiters_set_succ (hr : r.stage.waits g = true) (hi : (ranks.get i).stage.waits g = false) :
    waiters g (ranks.set i r i.isLt) = waiters g ranks + 1 := by
  rw [waiters_set, hr, hi]
  rfl

/-- Where the last one arrives, all others wait: with it, they would be all. -/
theorem waits_of_others (hr : r.stage.waits g = true) (hi : (ranks.get i).stage.waits g = false)
    (hcount : waiters g ranks + 1 = n) {j : Fin n} (hne : j ≠ i) : (ranks.get j).stage.waits g = true := by
  have hall := waiters_set_succ hr hi
  rw [hcount] at hall
  have hother : (ranks.set i r i.isLt)[j.val] = ranks[j.val] :=
    Vector.getElem_set_ne i.isLt j.isLt fun heq => hne (Fin.ext heq.symm)
  have hmem : ranks[j.val] ∈ ranks.set i r i.isLt := hother ▸ Vector.getElem_mem j.isLt
  exact Vector.countP_eq_size.1 hall _ hmem

theorem waiters_eq_zero (h : ∀ j : Fin n, (ranks.get j).stage.waits g = false) : waiters g ranks = 0 := by
  refine Vector.countP_eq_zero.2 fun a ha => ?_
  obtain ⟨k, hk, rfl⟩ := Vector.mem_iff_getElem.1 ha
  exact Bool.not_eq_true _ ▸ h ⟨k, hk⟩

/-- Fewer than all wait, so one of them does not. -/
theorem exists_not_waits (h : waiters g ranks < n) : ∃ j : Fin n, (ranks.get j).stage.waits g = false := by
  by_contra hall
  have hwaits : ∀ a ∈ ranks, a.stage.waits g = true := by
    intro a ha
    obtain ⟨k, hk, rfl⟩ := Vector.mem_iff_getElem.1 ha
    by_contra hno
    exact hall ⟨⟨k, hk⟩, Bool.eq_false_iff.2 hno⟩
  exact absurd (Vector.countP_eq_size.2 hwaits) (Nat.ne_of_lt h)

end Waiters

section Steps

variable [Scalar α]

/-- What one step of rank `i` can be. -/
inductive Moves (s : State α β n) (i : Fin n) : State α β n → Prop
  | write {c x next} (at_ : (s.ranks.get i).stage = .ready (.call c x next)) :
      Moves s i ({ s with slots := s.slots.write i c x }.put i { s.ranks.get i with stage := .wrote c next })
  | wait {c next} (at_ : (s.ranks.get i).stage = .wrote c next) (few : s.barrier.waiting + 1 < n) :
      Moves s i ({ s with barrier := { s.barrier with waiting := s.barrier.waiting + 1 } }.put i
        { s.ranks.get i with stage := .awaiting c next s.barrier.generation })
  | enterLast {c next} (at_ : (s.ranks.get i).stage = .wrote c next) (all : ¬ s.barrier.waiting + 1 < n) :
      Moves s i ({ s with barrier := { waiting := 0, generation := s.barrier.generation + 1 } }.put i
        { s.ranks.get i with stage := .entered c next })
  | enter {c next g} (at_ : (s.ranks.get i).stage = .awaiting c next g) (opened : s.barrier.generation ≠ g) :
      Moves s i (s.put i { s.ranks.get i with stage := .entered c next })
  | read {c next} (at_ : (s.ranks.get i).stage = .entered c next) :
      Moves s i (s.put i { s.ranks.get i with stage := .read c next (s.slots.read i c) })
  | waitAgain {c next reply} (at_ : (s.ranks.get i).stage = .read c next reply) (few : s.barrier.waiting + 1 < n) :
      Moves s i ({ s with barrier := { s.barrier with waiting := s.barrier.waiting + 1 } }.put i
        { s.ranks.get i with stage := .parting c next reply s.barrier.generation })
  | leaveLast {c next reply} (at_ : (s.ranks.get i).stage = .read c next reply) (all : ¬ s.barrier.waiting + 1 < n) :
      Moves s i ({ s with barrier := { waiting := 0, generation := s.barrier.generation + 1 } }.put i
        ((s.ranks.get i).leave c next reply))
  | leave {c next reply g} (at_ : (s.ranks.get i).stage = .parting c next reply g) (opened : s.barrier.generation ≠ g) :
      Moves s i (s.put i ((s.ranks.get i).leave c next reply))

theorem moves_of_step {s t : State α β n} {i : Fin n} (h : s.step i = some t) : Moves s i t := by
  cases hstage : (s.ranks.get i).stage with
  | ready p =>
    cases p with
    | done b => simp only [State.step, hstage, reduceCtorEq] at h
    | call c x next =>
      simp only [State.step, hstage, Option.some.injEq] at h
      exact h ▸ .write hstage
  | wrote c next =>
    by_cases hfew : s.barrier.waiting + 1 < n
    · simp only [State.step, hstage, Barrier.arrive, if_pos hfew, Option.some.injEq] at h
      exact h ▸ .wait hstage hfew
    · simp only [State.step, hstage, Barrier.arrive, if_neg hfew, Option.some.injEq] at h
      exact h ▸ .enterLast hstage hfew
  | awaiting c next g =>
    by_cases hclosed : s.barrier.generation = g
    · simp only [State.step, hstage, if_pos hclosed, reduceCtorEq] at h
    · simp only [State.step, hstage, if_neg hclosed, Option.some.injEq] at h
      exact h ▸ .enter hstage hclosed
  | entered c next =>
    simp only [State.step, hstage, Option.some.injEq] at h
    exact h ▸ .read hstage
  | read c next reply =>
    by_cases hfew : s.barrier.waiting + 1 < n
    · simp only [State.step, hstage, Barrier.arrive, if_pos hfew, Option.some.injEq] at h
      exact h ▸ .waitAgain hstage hfew
    · simp only [State.step, hstage, Barrier.arrive, if_neg hfew, Option.some.injEq] at h
      exact h ▸ .leaveLast hstage hfew
  | parting c next reply g =>
    by_cases hclosed : s.barrier.generation = g
    · simp only [State.step, hstage, if_pos hclosed, reduceCtorEq] at h
    · simp only [State.step, hstage, if_neg hclosed, Option.some.injEq] at h
      exact h ▸ .leave hstage hclosed

/-- A rank that cannot take a step is done, or waits at the barrier. -/
theorem held_of_step_eq_none {s : State α β n} {i : Fin n} (h : s.step i = none) :
    (∃ b, (s.ranks.get i).stage = .ready (.done b)) ∨ (s.ranks.get i).stage.waits s.barrier.generation = true := by
  cases hstage : (s.ranks.get i).stage with
  | ready p =>
    cases p with
    | done b => exact .inl ⟨b, rfl⟩
    | call c x next => simp only [State.step, hstage, reduceCtorEq] at h
  | wrote c next =>
    simp only [State.step, hstage] at h
    split at h <;> cases h
  | awaiting c next g =>
    simp only [State.step, hstage, ite_eq_left_iff, reduceCtorEq, imp_false, not_not] at h
    exact .inr (beq_iff_eq.2 h.symm)
  | entered c next => simp only [State.step, hstage, reduceCtorEq] at h
  | read c next reply =>
    simp only [State.step, hstage] at h
    split at h <;> cases h
  | parting c next reply g =>
    simp only [State.step, hstage, ite_eq_left_iff, reduceCtorEq, imp_false, not_not] at h
    exact .inr (beq_iff_eq.2 h.symm)

end Steps

/-! ## The invariant -/

section Invariant

/-- Where rank `i` may be while contributions are collected, in generation `g` of
the barrier: `p` is its program in this round, and `past` was returned to it before. -/
def Collecting (g : Nat) (slots : Slots α n) (i : Fin n) (p : Program α β) (past : List (Returned α))
    (r : Rank α β) : Prop :=
  match r.stage with
  | .ready q => q = p ∧ r.returned = past
  | .wrote c next => (∃ x, p = .call c x next ∧ slots.Holds i c x) ∧ r.returned = past
  | .awaiting c next k => k = g ∧ (∃ x, p = .call c x next ∧ slots.Holds i c x) ∧ r.returned = past
  | .parting c next reply k => k ≠ g ∧ next reply = p ∧ r.returned ++ [⟨c, reply⟩] = past
  | _ => False

/-- Where a rank may be while the slots are read, in generation `g` of the barrier. -/
def Spreading (g : Nat) (c : Collective) (next : c.Reply α → Program α β) (reply : c.Reply α)
    (past : List (Returned α)) (r : Rank α β) : Prop :=
  r.returned = past ∧ (r.stage = .entered c next ∨ r.stage = .read c next reply ∨
    r.stage = .parting c next reply g ∨ ∃ k, k ≠ g ∧ r.stage = .awaiting c next k)

variable [Scalar α] {s t : State α β n} {i : Fin n}

/-- Programs `ps` that meet until they have the results `rs` have come to the state `s`. -/
inductive Inv (ps : Fin n → Program α β) (rs : Fin n → β) (s : State α β n) : Prop
  | collecting {past qs} (completed : Completed ps past qs) (inStep : InStep qs rs)
      (ranks : ∀ i : Fin n, Collecting s.barrier.generation s.slots i (qs i) (past i) (s.ranks.get i))
      (waiting : s.barrier.waiting = waiters s.barrier.generation s.ranks) (few : s.barrier.waiting < n)
  | spreading {past c} {x : Fin n → c.Contribution α} {next : Fin n → c.Reply α → Program α β}
      (completed : Completed ps past fun i => .call c (x i) (next i))
      (inStep : InStep (fun i => next i (c.meaning (List.ofFn x) i)) rs)
      (holds : ∀ i, s.slots.Holds i c (x i))
      (ranks : ∀ i : Fin n,
        Spreading s.barrier.generation c (next i) (c.meaning (List.ofFn x) i) (past i) (s.ranks.get i))
      (waiting : s.barrier.waiting = waiters s.barrier.generation s.ranks) (few : s.barrier.waiting < n)

omit [Scalar α] in
@[simp] theorem ranks_put_self (s : State α β n) (i : Fin n) (r : Rank α β) : (s.put i r).ranks.get i = r :=
  Vector.getElem_set_self i.isLt

omit [Scalar α] in
theorem ranks_put_other {r : Rank α β} {j : Fin n} (hj : j ≠ i) : (s.put i r).ranks.get j = s.ranks.get j :=
  Vector.getElem_set_ne i.isLt j.isLt fun heq => hj (Fin.ext heq.symm)

omit [Scalar α] in
theorem ranks_put {P : Fin n → Rank α β → Prop} {r : Rank α β} (hi : P i r)
    (hothers : ∀ j : Fin n, j ≠ i → P j (s.ranks.get j)) : ∀ j : Fin n, P j ((s.put i r).ranks.get j) := by
  intro j
  by_cases hj : j = i
  · subst hj
    rwa [ranks_put_self]
  · rw [ranks_put_other hj]
    exact hothers j hj

omit [Scalar α] in
/-- A rank keeps its place when another one writes for the same collective. -/
theorem Collecting.write_other {g : Nat} {slots : Slots α n} {i j : Fin n} {p : Program α β} {past : List (Returned α)}
    {r : Rank α β} {c : Collective} (x : c.Contribution α) (h : Collecting g slots j p past r) (hne : i ≠ j)
    (hsame : ∀ d y (after : d.Reply α → Program α β), p = .call d y after → d = c) :
    Collecting g (slots.write i c x) j p past r := by
  have hholds : ∀ {d y} {after : d.Reply α → Program α β}, p = .call d y after → slots.Holds j d y →
      (slots.write i c x).Holds j d y := by
    intro d y after hp hy
    obtain rfl := hsame d y after hp
    exact hy.write_other hne
  unfold Collecting at h ⊢
  split at h
  · exact h
  · obtain ⟨⟨y, hp, hy⟩, hpast⟩ := h
    exact ⟨⟨y, hp, hholds hp hy⟩, hpast⟩
  · obtain ⟨hk, ⟨y, hp, hy⟩, hpast⟩ := h
    exact ⟨hk, ⟨y, hp, hholds hp hy⟩, hpast⟩
  · exact h
  · exact h

omit [Scalar α] in
/-- Waiting ranks have brought their contributions. -/
theorem Collecting.of_waits {g : Nat} {slots : Slots α n} {i : Fin n} {p : Program α β} {past : List (Returned α)}
    {r : Rank α β} (h : Collecting g slots i p past r) (hwaits : r.stage.waits g = true) :
    ∃ c x next, p = .call c x next ∧ slots.Holds i c x ∧ r.stage = .awaiting c next g ∧ r.returned = past := by
  unfold Collecting at h
  split at h
  · rename_i hstage
    rw [hstage] at hwaits
    cases hwaits
  · rename_i hstage
    rw [hstage] at hwaits
    cases hwaits
  · rename_i hstage
    obtain ⟨rfl, ⟨x, hp, hx⟩, hpast⟩ := h
    exact ⟨_, x, _, hp, hx, hstage, hpast⟩
  · rename_i hstage
    rw [hstage] at hwaits
    exact absurd (beq_iff_eq.1 hwaits) h.1
  · exact h.elim

omit [Scalar α] in
theorem Spreading.of_waits {g : Nat} {c : Collective} {next : c.Reply α → Program α β} {reply : c.Reply α}
    {past : List (Returned α)} {r : Rank α β} (h : Spreading g c next reply past r)
    (hwaits : r.stage.waits g = true) : r.stage = .parting c next reply g ∧ r.returned = past := by
  obtain ⟨hpast, hstage | hstage | hstage | ⟨k, hk, hstage⟩⟩ := h
  · rw [hstage] at hwaits
    cases hwaits
  · rw [hstage] at hwaits
    cases hwaits
  · exact ⟨hstage, hpast⟩
  · rw [hstage] at hwaits
    exact absurd (beq_iff_eq.1 hwaits) hk

omit [Scalar α] in
/-- Nobody has been waiting for long when the barrier has just opened. -/
theorem waiters_put_next {g : Nat} {r : Rank α β} (hr : r.stage.waits (g + 1) = false)
    (hothers : ∀ j : Fin n, j ≠ i → (s.ranks.get j).stage.waits g = true) : waiters (g + 1) (s.put i r).ranks = 0 := by
  have hnone : ∀ j : Fin n, ((s.put i r).ranks.get j).stage.waits (g + 1) = false := by
    refine ranks_put (P := fun _ r => r.stage.waits (g + 1) = false) hr fun j hj => ?_
    have hwaits := hothers j hj
    unfold Stage.waits at hwaits ⊢
    split at hwaits
    · rw [beq_iff_eq.1 hwaits]
      simp
    · rw [beq_iff_eq.1 hwaits]
      simp
    · cases hwaits
  exact waiters_eq_zero hnone

variable {ps : Fin n → Program α β} {rs : Fin n → β}

/-- A step taken while contributions are collected keeps the invariant. -/
theorem inv_of_collecting {past : Fin n → List (Returned α)} {qs : Fin n → Program α β} (completed : Completed ps past qs)
    (inStep : InStep qs rs)
    (ranks : ∀ i : Fin n, Collecting s.barrier.generation s.slots i (qs i) (past i) (s.ranks.get i))
    (waiting : s.barrier.waiting = waiters s.barrier.generation s.ranks) (few : s.barrier.waiting < n)
    (h : Moves s i t) : Inv ps rs t := by
  have hi := ranks i
  cases h with
  | @write c x next hstage =>
    simp only [Collecting, hstage] at hi
    obtain ⟨hq, hpast⟩ := hi
    refine .collecting completed inStep (ranks_put (P := fun j => Collecting _ _ j (qs j) (past j)) ?_ ?_) ?_ few
    · exact ⟨⟨x, hq.symm, Slots.holds_write _ _ _ _⟩, hpast⟩
    · intro j hj
      exact (ranks j).write_other x (Ne.symm hj) fun d y after hd => inStep.collective_eq hd hq.symm
    · exact waiting.trans (waiters_set_of_eq (by rw [hstage]; rfl)).symm
  | wait hstage hfew =>
    simp only [Collecting, hstage] at hi
    obtain ⟨⟨x, hp, hx⟩, hpast⟩ := hi
    refine .collecting completed inStep (ranks_put (P := fun j => Collecting _ _ j (qs j) (past j)) ?_ ?_) ?_ hfew
    · exact ⟨rfl, ⟨x, hp, hx⟩, hpast⟩
    · exact fun j _ => ranks j
    · exact (congrArg (· + 1) waiting).trans
        (waiters_set_succ (beq_self_eq_true _) (by rw [hstage]; rfl)).symm
  | @enterLast c next hstage hall =>
    simp only [Collecting, hstage] at hi
    obtain ⟨⟨x, hp, hx⟩, hpast⟩ := hi
    have hwaits : ∀ j : Fin n, j ≠ i → (s.ranks.get j).stage.waits s.barrier.generation = true := fun j hj =>
      waits_of_others (r := ⟨.awaiting c next s.barrier.generation, []⟩) (beq_self_eq_true _) (by rw [hstage]; rfl)
        (by omega) hj
    have hothers := fun j hj => (ranks j).of_waits (hwaits j hj)
    cases inStep with
    | done => cases hp
    | @call c _ x next rest =>
      cases hp
      refine .spreading completed rest (fun j => ?_) (ranks_put (P := fun j => Spreading _ c (next j) _ (past j)) ?_ ?_)
        ?_ i.pos
      · by_cases hj : j = i
        · exact hj ▸ hx
        · obtain ⟨d, y, after, hcall, hy, -⟩ := hothers j hj
          cases hcall
          exact hy
      · exact ⟨hpast, .inl rfl⟩
      · intro j hj
        obtain ⟨d, y, after, hcall, -, hstage, hpast⟩ := hothers j hj
        cases hcall
        exact ⟨hpast, .inr (.inr (.inr ⟨_, Nat.ne_of_lt (Nat.lt_succ_self _), hstage⟩))⟩
      · exact (waiters_put_next (s := s) rfl hwaits).symm
  | enter hstage hopened =>
    simp only [Collecting, hstage] at hi
    exact absurd hi.1.symm hopened
  | read hstage => simp only [Collecting, hstage] at hi
  | waitAgain hstage hfew => simp only [Collecting, hstage] at hi
  | leaveLast hstage hall => simp only [Collecting, hstage] at hi
  | leave hstage hopened =>
    simp only [Collecting, hstage] at hi
    obtain ⟨hk, hnext, hpast⟩ := hi
    refine .collecting completed inStep (ranks_put (P := fun j => Collecting _ _ j (qs j) (past j)) ?_ ?_) ?_ few
    · exact ⟨hnext, hpast⟩
    · exact fun j _ => ranks j
    · exact waiting.trans (waiters_set_of_eq (by rw [hstage]; simp [Stage.waits, Rank.leave, hk])).symm

/-- A step taken while the slots are read keeps the invariant. -/
theorem inv_of_spreading {past : Fin n → List (Returned α)} {c : Collective} {x : Fin n → c.Contribution α}
    {next : Fin n → c.Reply α → Program α β} (completed : Completed ps past fun i => .call c (x i) (next i))
    (inStep : InStep (fun i => next i (c.meaning (List.ofFn x) i)) rs) (holds : ∀ i, s.slots.Holds i c (x i))
    (ranks : ∀ i : Fin n,
      Spreading s.barrier.generation c (next i) (c.meaning (List.ofFn x) i) (past i) (s.ranks.get i))
    (waiting : s.barrier.waiting = waiters s.barrier.generation s.ranks) (few : s.barrier.waiting < n)
    (h : Moves s i t) : Inv ps rs t := by
  obtain ⟨hpast, hi⟩ := ranks i
  cases h with
  | write hstage => simp only [hstage, reduceCtorEq, and_false, exists_false, or_self] at hi
  | wait hstage hfew => simp only [hstage, reduceCtorEq, and_false, exists_false, or_self] at hi
  | enterLast hstage hall => simp only [hstage, reduceCtorEq, and_false, exists_false, or_self] at hi
  | enter hstage hopened =>
    simp only [hstage, reduceCtorEq, false_or] at hi
    obtain ⟨k, hk, hi⟩ := hi
    cases hi
    refine .spreading completed inStep holds (ranks_put (P := fun j => Spreading _ c (next j) _ (past j)) ?_ ?_) ?_ few
    · exact ⟨hpast, .inl rfl⟩
    · exact fun j _ => ranks j
    · exact waiting.trans (waiters_set_of_eq (by rw [hstage]; simp [Stage.waits, hk])).symm
  | read hstage =>
    simp only [hstage, reduceCtorEq, and_false, exists_false, or_false] at hi
    cases hi
    refine .spreading completed inStep holds (ranks_put (P := fun j => Spreading _ c (next j) _ (past j)) ?_ ?_) ?_ few
    · exact ⟨hpast, .inr (.inl (by rw [Slots.read_of_holds holds i]))⟩
    · exact fun j _ => ranks j
    · exact waiting.trans (waiters_set_of_eq (by rw [hstage]; rfl)).symm
  | waitAgain hstage hfew =>
    simp only [hstage, reduceCtorEq, and_false, exists_false, or_false, false_or] at hi
    cases hi
    refine .spreading completed inStep holds (ranks_put (P := fun j => Spreading _ c (next j) _ (past j)) ?_ ?_) ?_ hfew
    · exact ⟨hpast, .inr (.inr (.inl rfl))⟩
    · exact fun j _ => ranks j
    · exact (congrArg (· + 1) waiting).trans
        (waiters_set_succ (beq_self_eq_true _) (by rw [hstage]; rfl)).symm
  | leaveLast hstage hall =>
    simp only [hstage, reduceCtorEq, and_false, exists_false, or_false, false_or] at hi
    cases hi
    have hwaits : ∀ j : Fin n, j ≠ i → (s.ranks.get j).stage.waits s.barrier.generation = true := fun j hj =>
      waits_of_others (r := ⟨.awaiting c (next i) s.barrier.generation, []⟩) (beq_self_eq_true _)
        (by rw [hstage]; rfl) (by omega) hj
    have hplaces : ∀ j : Fin n, Collecting (s.barrier.generation + 1) s.slots j (next j (c.meaning (List.ofFn x) j))
        (past j ++ [⟨c, c.meaning (List.ofFn x) j⟩])
        ((s.put i ((s.ranks.get i).leave c (next i) (c.meaning (List.ofFn x) i))).ranks.get j) := by
      refine ranks_put (P := fun j => Collecting (s.barrier.generation + 1) s.slots j
        (next j (c.meaning (List.ofFn x) j)) (past j ++ [(⟨c, c.meaning (List.ofFn x) j⟩ : Returned α)])) ?_ ?_
      · exact ⟨rfl, by rw [← hpast]; rfl⟩
      · intro j hj
        obtain ⟨hparting, hpast⟩ := (ranks j).of_waits (hwaits j hj)
        simp only [Collecting, hparting, hpast, and_self, and_true]
        exact Nat.ne_of_lt (Nat.lt_succ_self _)
    refine .collecting (.round completed) inStep hplaces ?_ i.pos
    exact (waiters_put_next (s := s) rfl hwaits).symm
  | leave hstage hopened =>
    simp only [hstage, reduceCtorEq, and_false, exists_false, or_false, false_or] at hi
    cases hi
    exact absurd rfl hopened

theorem Inv.step (h : Inv ps rs s) (hstep : s.step i = some t) : Inv ps rs t := by
  have hmoves := moves_of_step hstep
  cases h with
  | collecting completed inStep ranks waiting few => exact inv_of_collecting completed inStep ranks waiting few hmoves
  | spreading completed inStep holds ranks waiting few =>
    exact inv_of_spreading completed inStep holds ranks waiting few hmoves

end Invariant

end Threads
end Inflow
