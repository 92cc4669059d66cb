import Inflow.Proofs.Ranks.Threads
import Inflow.Proofs.Scalar.Rational
/-!
# Every interleaving of a thread group

A schedule says which rank takes the next step. Whatever the schedule is, some rank
can go on until all are done, no schedule goes on for ever, and what a collective has
returned to a rank is what it means for the contributions of its own round. So
threads come to the results of a group that runs in step.
-/

namespace Inflow.Threads

variable {α β : Type} [Scalar α] {n : Nat}

/-! ## Schedules -/

section Schedules

variable {ps : Fin n → Program α β} {rs : Fin n → β} {s t : State α β n} {schedule : List (Fin n)}

theorem inv_start (hn : 0 < n) (h : InStep ps rs) : Inv ps rs (State.start ps) := by
  have hrank : ∀ i : Fin n, (State.start ps).ranks.get i = { stage := .ready (ps i) } := fun i => by
    simp only [State.start, Vector.get_eq_getElem, Vector.getElem_ofFn]
  refine .collecting .start h (fun i => ?_) ?_ hn
  · simp only [hrank, Collecting, and_self]
  · refine (waiters_eq_zero fun i => ?_).symm
    rw [hrank]
    rfl

/-- What every step keeps holds after every schedule. -/
theorem run_keeps {P : State α β n → Prop} (hstep : ∀ s i t, P s → s.step i = some t → P t) (hs : P s)
    (h : s.run schedule = some t) : P t := by
  induction schedule generalizing s with
  | nil => exact Option.some.inj h ▸ hs
  | cons i schedule ih =>
    obtain ⟨u, hu, hrest⟩ := Option.bind_eq_some_iff.1 h
    exact ih (hstep s i u hs hu) hrest

theorem inv_of_run (hn : 0 < n) (hps : InStep ps rs) (h : (State.start ps).run schedule = some s) : Inv ps rs s :=
  run_keeps (P := Inv ps rs) (fun _ _ _ => Inv.step) (inv_start hn hps) h

end Schedules

/-! ## Nobody gets stuck -/

section Progress

variable {ps : Fin n → Program α β} {rs : Fin n → β} {s t : State α β n}

/-- Until all are done, somebody can take a step. -/
theorem Inv.finished_or_step (h : Inv ps rs s) : s.Finished ∨ ∃ i, (s.step i).isSome := by
  by_cases hall : ∀ i, s.step i = none
  · refine .inl ?_
    have held := fun i => held_of_step_eq_none (hall i)
    cases h with
    | collecting completed inStep ranks waiting few =>
      cases inStep with
      | done rs =>
        intro i
        refine (held i).resolve_right fun hwaits => ?_
        obtain ⟨c, x, next, hcall, -⟩ := (ranks i).of_waits hwaits
        cases hcall
      | call rest =>
        -- A rank that is done would have come through this round.
        obtain ⟨j, hj⟩ := exists_not_waits (waiting ▸ few)
        obtain ⟨b, hb⟩ := (held j).resolve_right (Bool.eq_false_iff.1 hj)
        have hplace := ranks j
        simp only [Collecting, hb, reduceCtorEq, false_and] at hplace
    | spreading completed inStep holds ranks waiting few =>
      obtain ⟨j, hj⟩ := exists_not_waits (waiting ▸ few)
      obtain ⟨b, hb⟩ := (held j).resolve_right (Bool.eq_false_iff.1 hj)
      have hplace := ranks j
      simp only [Spreading, hb, reduceCtorEq, and_false, exists_false, or_self] at hplace
  · obtain ⟨i, hi⟩ := not_forall.1 hall
    exact .inr ⟨i, Option.isSome_iff_ne_none.2 hi⟩

/-- Threads that are all done have the results, and everything was returned to them. -/
theorem Inv.of_finished (hn : 0 < n) (h : Inv ps rs s) (hfinished : s.Finished) :
    ∃ past, Completed ps past (fun i => .done (rs i)) ∧
      ∀ i : Fin n, (s.ranks.get i).stage = .ready (.done (rs i)) ∧ (s.ranks.get i).returned = past i := by
  cases h with
  | @collecting past qs completed inStep ranks waiting few =>
    have hplaces : ∀ i : Fin n, ∃ b, (s.ranks.get i).stage = .ready (.done b) ∧ .done b = qs i ∧
        (s.ranks.get i).returned = past i := by
      intro i
      obtain ⟨b, hb⟩ := hfinished i
      have hplace := ranks i
      simp only [Collecting, hb] at hplace
      exact ⟨b, hb, hplace⟩
    cases inStep with
    | done =>
      refine ⟨past, completed, fun i => ?_⟩
      obtain ⟨b, hb, heq, hpast⟩ := hplaces i
      exact ⟨hb.trans (congrArg Stage.ready heq), hpast⟩
    | call rest =>
      obtain ⟨b, -, heq, -⟩ := hplaces ⟨0, hn⟩
      cases heq
  | spreading completed inStep holds ranks waiting few =>
    obtain ⟨b, hb⟩ := hfinished ⟨0, hn⟩
    have hplace := ranks ⟨0, hn⟩
    simp only [Spreading, hb, reduceCtorEq, and_false, exists_false, or_self] at hplace

end Progress

/-! ## No schedule goes on for ever -/

section Length

/-- How many steps of its collective a rank has behind it. -/
def Stage.index : Stage α β → Nat
  | .ready _ => 0
  | .wrote .. => 1
  | .awaiting .. => 2
  | .entered .. => 3
  | .read .. => 4
  | .parting .. => 5

/-- How far a rank has come; a collective takes six steps at most. -/
def Rank.progress (r : Rank α β) : Nat := 6 * r.returned.length + r.stage.index

def State.progress (s : State α β n) : Nat := ∑ i : Fin n, (s.ranks.get i).progress

variable {s t : State α β n} {schedule : List (Fin n)}

/-- A step takes its rank further, and leaves the others where they are. -/
theorem Moves.rank {i : Fin n} (h : Moves s i t) :
    (s.ranks.get i).progress < (t.ranks.get i).progress ∧ ∀ j : Fin n, j ≠ i → t.ranks.get j = s.ranks.get j := by
  refine ⟨?_, ?_⟩
  · cases h with
    | write hstage | read hstage | wait hstage | enterLast hstage | enter hstage | waitAgain hstage =>
      simp only [ranks_put_self, Rank.progress, Stage.index, hstage]
      omega
    | leaveLast hstage | leave hstage =>
      simp only [ranks_put_self, Rank.leave, Rank.progress, Stage.index, hstage, List.length_append,
        List.length_singleton]
      omega
  · cases h <;> exact fun j hj => ranks_put_other hj

theorem progress_of_step {i : Fin n} (h : s.step i = some t) : s.progress < t.progress := by
  obtain ⟨hless, hothers⟩ := (moves_of_step h).rank
  refine Finset.sum_lt_sum (fun j _ => ?_) ⟨i, Finset.mem_univ i, hless⟩
  by_cases hj : j = i
  · exact hj ▸ hless.le
  · rw [hothers j hj]

theorem length_le_progress (h : s.run schedule = some t) : s.progress + schedule.length ≤ t.progress := by
  induction schedule generalizing s with
  | nil => exact Option.some.inj h ▸ Nat.le_refl _
  | cons i schedule ih =>
    obtain ⟨u, hu, hrest⟩ := Option.bind_eq_some_iff.1 h
    have hstep := progress_of_step hu
    have hlater := ih hrest
    rw [List.length_cons]
    omega

end Length

/-! ## Rounds of collectives -/

/-- One collective that all ranks take part in, and what each of them brings. -/
structure Round (α : Type) (n : Nat) where
  collective : Collective
  contributions : Fin n → collective.Contribution α

namespace Round

/-- What the collective means for a rank, by the contributions of this round only. -/
def reply (r : Round α n) (i : Fin n) : Returned α :=
  ⟨r.collective, r.collective.meaning (List.ofFn r.contributions) i⟩

/-- What the rank would get back on its own. -/
def serialReply (r : Round α n) (i : Fin n) : Returned α := ⟨r.collective, r.collective.serial (r.contributions i)⟩

end Round

/-- The part of a rank that goes through these rounds, and then is done. -/
def script : List (Round α n) → Fin n → Program α Unit
  | [], _ => .done ()
  | r :: rounds, i => .call r.collective (r.contributions i) fun _ => script rounds i

section Rounds

variable {rounds : List (Round α n)} {past : Fin n → List (Returned α)} {qs : Fin n → Program α Unit}
  {rs : Fin n → Unit} {s : State α Unit n}

theorem inStep_script (rounds : List (Round α n)) : InStep (script rounds) fun _ => () := by
  induction rounds with
  | nil => exact .done fun _ => ()
  | cons r rounds ih =>
    have hscript : script (r :: rounds) = fun i => .call r.collective (r.contributions i) fun _ => script rounds i := rfl
    rw [hscript]
    exact .call ih

/-- Ranks that go through the same rounds have the same ones behind them. -/
theorem Completed.exists_take (hn : 0 < n) (h : Completed (script rounds) past qs) :
    ∃ k ≤ rounds.length, (∀ i, past i = (rounds.take k).map (·.reply i)) ∧ qs = script (rounds.drop k) := by
  induction h with
  | start => exact ⟨0, Nat.zero_le _, fun i => rfl, rfl⟩
  | @round past c x next before ih =>
    obtain ⟨k, hk, hpast, hqs⟩ := ih
    cases hdrop : rounds.drop k with
    | nil =>
      rw [hdrop] at hqs
      cases congrFun hqs ⟨0, hn⟩
    | cons r rest =>
      rw [hdrop] at hqs
      have hcall : ∀ i, Program.call c (x i) (next i) =
          .call r.collective (r.contributions i) fun _ => script rest i := congrFun hqs
      obtain ⟨hc, -, -⟩ := Program.call.inj (hcall ⟨0, hn⟩)
      subst hc
      have hx : x = r.contributions := funext fun i => eq_of_heq (Program.call.inj (hcall i)).2.1
      have hnext : ∀ i, next i = fun _ => script rest i := fun i => eq_of_heq (Program.call.inj (hcall i)).2.2
      have hget : rounds[k]? = some r := by
        rw [← List.head?_drop, hdrop, List.head?_cons]
      obtain ⟨hlt, -⟩ := List.getElem?_eq_some_iff.1 hget
      refine ⟨k + 1, hlt, fun i => ?_, ?_⟩
      · subst hx
        calc past i ++ [r.reply i] = (rounds.take k).map (·.reply i) ++ [r.reply i] := by rw [hpast i]
          _ = (rounds.take (k + 1)).map (·.reply i) := by rw [List.take_add_one, hget, List.map_append]; rfl
      · rw [← List.tail_drop, hdrop]
        exact funext fun i => congrFun (hnext i) _

omit [Scalar α] in
/-- Ranks that still have something to call are not through with all rounds. -/
theorem lt_of_script {k : Nat} {i : Fin n} {c : Collective} {x : c.Contribution α} {next : c.Reply α → Program α Unit}
    (h : script (rounds.drop k) i = .call c x next) : k < rounds.length := by
  by_contra hge
  rw [List.drop_eq_nil_of_le (Nat.le_of_not_lt hge)] at h
  cases h

/-- To every rank the first few rounds have returned; after the last one it is in no collective. -/
theorem Inv.returned_prefix (hn : 0 < n) (h : Inv (script rounds) rs s) (i : Fin n) :
    (s.ranks.get i).returned <+: rounds.map (·.reply i) ∧
      ((s.ranks.get i).returned.length < rounds.length ∨ (s.ranks.get i).stage.index = 0) := by
  have hfirst : ∀ k, (rounds.take k).map (·.reply i) <+: rounds.map (·.reply i) := fun k =>
    (List.take_prefix k rounds).map _
  have hlength : ∀ {k}, k ≤ rounds.length → ((rounds.take k).map (·.reply i)).length = k := fun hk => by
    rw [List.length_map, List.length_take_of_le hk]
  cases h with
  | collecting completed inStep ranks waiting few =>
    obtain ⟨k, hk, hpast, rfl⟩ := completed.exists_take hn
    have hplace := ranks i
    rw [hpast i] at hplace
    unfold Collecting at hplace
    split at hplace
    · rename_i hstage
      refine ⟨hplace.2 ▸ hfirst k, .inr ?_⟩
      rw [hstage]
      rfl
    · obtain ⟨⟨x, hcall, -⟩, hreturned⟩ := hplace
      rw [hreturned, hlength hk]
      exact ⟨hfirst k, .inl (lt_of_script hcall)⟩
    · obtain ⟨-, ⟨x, hcall, -⟩, hreturned⟩ := hplace
      rw [hreturned, hlength hk]
      exact ⟨hfirst k, .inl (lt_of_script hcall)⟩
    · -- The rank is still leaving the round before.
      obtain ⟨-, -, hreturned⟩ := hplace
      have hcount := congrArg List.length hreturned
      rw [hlength hk, List.length_append, List.length_singleton] at hcount
      refine ⟨(List.prefix_append _ _).trans (hreturned ▸ hfirst k), .inl ?_⟩
      omega
    · exact hplace.elim
  | @spreading past c x next completed inStep holds ranks waiting few =>
    obtain ⟨k, hk, hpast, hqs⟩ := completed.exists_take hn
    obtain ⟨hreturned, -⟩ := ranks i
    rw [hreturned, hpast i, hlength hk]
    exact ⟨hfirst k, .inl (lt_of_script (congrFun hqs i).symm)⟩

theorem Inv.progress_le (hn : 0 < n) (h : Inv (script rounds) rs s) : s.progress ≤ 6 * rounds.length * n := by
  have hrank : ∀ i : Fin n, (s.ranks.get i).progress ≤ 6 * rounds.length := by
    intro i
    obtain ⟨hfirst, hless⟩ := h.returned_prefix hn i
    have hlength := hfirst.length_le
    rw [List.length_map] at hlength
    have hindex : (s.ranks.get i).stage.index ≤ 5 := by
      cases (s.ranks.get i).stage <;> simp only [Stage.index] <;> omega
    unfold Rank.progress
    omega
  calc s.progress ≤ ∑ _ : Fin n, 6 * rounds.length := Finset.sum_le_sum fun i _ => hrank i
    _ = 6 * rounds.length * n := by rw [Finset.sum_const, Finset.card_fin, smul_eq_mul, Nat.mul_comm]

/-- At the end, all rounds have returned to all ranks. -/
theorem Inv.returned_all (hn : 0 < n) (h : Inv (script rounds) rs s) (hfinished : s.Finished) (i : Fin n) :
    (s.ranks.get i).returned = rounds.map (·.reply i) := by
  obtain ⟨past, completed, hranks⟩ := h.of_finished hn hfinished
  obtain ⟨k, -, hpast, hqs⟩ := completed.exists_take hn
  have hdrop : rounds.drop k = [] := by
    cases hdrop : rounds.drop k with
    | nil => rfl
    | cons r rest =>
      rw [hdrop] at hqs
      cases congrFun hqs i
  rw [(hranks i).2, hpast i, List.take_of_length_le (List.drop_eq_nil_iff.1 hdrop)]

end Rounds

/-- The collectives of a thread group are correct under every interleaving. In each state that the ranks can come to,
somebody can take a step or all are done; the schedules are bounded; what has been returned to a rank is what the
first rounds mean for it, each by its own contributions, and in the end it is all rounds. For a rank that is alone,
this is what it would get without threads. -/
theorem returned_in_every_interleaving (hn : 0 < n) (rounds : List (Round α n)) {schedule : List (Fin n)}
    {s : State α Unit n} (h : (State.start (script rounds)).run schedule = some s) :
    (s.Finished ∨ ∃ i, (s.step i).isSome) ∧ schedule.length ≤ 6 * rounds.length * n ∧
    (∀ i : Fin n, (s.ranks.get i).returned <+: rounds.map (·.reply i)) ∧
    (s.Finished → ∀ i : Fin n, (s.ranks.get i).returned = rounds.map (·.reply i)) ∧
    (n = 1 → (∀ x : α, -0 + x = x) → (∀ r ∈ rounds, ∀ i, r.collective.InRange (r.contributions i)) →
      ∀ i : Fin n, rounds.map (·.reply i) = rounds.map (·.serialReply i)) := by
  have hinv := inv_of_run hn (inStep_script rounds) h
  refine ⟨hinv.finished_or_step, ?_, fun i => (hinv.returned_prefix hn i).1, hinv.returned_all hn, ?_⟩
  · have hsteps := length_le_progress h
    have hmost := hinv.progress_le hn
    omega
  · rintro rfl hzero hrange i
    refine List.map_congr_left fun r hr => ?_
    obtain rfl : i = 0 := Subsingleton.elim i 0
    exact congrArg (Sigma.mk r.collective) (Collective.meaning_singleton hzero (hrange r hr 0))

/-- A sum, and then what the coordinator hands out. -/
def sumThenScatter (n : Nat) : List (Round ℚ n) :=
  [⟨.sumScalars, fun i => (i.val : ℚ)⟩, ⟨.scatter, fun _ => some [7, 9]⟩]

/-- Rank 1 waits in the next round already when rank 0 is still leaving the sum. -/
def overtaking : List (Fin 2) := [0, 0, 1, 1, 0, 1, 0, 0, 1, 1, 1, 0, 0, 0, 0, 1, 1, 1, 0, 1]

theorem returned_in_every_interleaving_overtaking :
    (∃ s, (State.start (script (sumThenScatter 2))).run overtaking = some s ∧
      ∀ i : Fin 2, (s.ranks.get i).returned = (sumThenScatter 2).map (·.reply i)) ∧
    ∃ s, (State.start (script (sumThenScatter 1))).run (List.replicate 8 0) = some s ∧
      ∀ i : Fin 1, (s.ranks.get i).returned = (sumThenScatter 1).map (·.serialReply i) := by
  constructor
  · have hrun : ((State.start (script (sumThenScatter 2))).run overtaking).any (·.Finished) = true := by
      decide +kernel
    obtain ⟨s, hs, hfinished⟩ := (Option.any_eq_true _ _).1 hrun
    obtain ⟨-, -, -, hall, -⟩ := returned_in_every_interleaving (by decide) (sumThenScatter 2) hs
    exact ⟨s, hs, hall (of_decide_eq_true hfinished)⟩
  · have hrun : ((State.start (script (sumThenScatter 1))).run (List.replicate 8 0)).any (·.Finished) = true := by
      decide +kernel
    obtain ⟨s, hs, hfinished⟩ := (Option.any_eq_true _ _).1 hrun
    obtain ⟨-, -, -, hall, hserial⟩ := returned_in_every_interleaving (by decide) (sumThenScatter 1) hs
    have hzero : ∀ x : ℚ, -0 + x = x := fun x => by rw [neg_zero, zero_add]
    have hrange : ∀ r ∈ sumThenScatter 1, ∀ i, r.collective.InRange (r.contributions i) := by
      simp [sumThenScatter, Collective.InRange]
    exact ⟨s, hs, fun i => (hall (of_decide_eq_true hfinished) i).trans (hserial rfl hzero hrange i)⟩

/-! ## Groups that run in step -/

section Group

variable {ps : Fin n → Program α β} {rs : Fin n → β} {s : State α β n} {schedule : List (Fin n)}

theorem inStep_of_lockstep (hn : 0 < n) (hzero : ∀ x : α, -0 + x = x) {cs : List Collective}
    (h : Lockstep cs ps fun i => .done (rs i)) : InStep ps rs := by
  generalize hqs : (fun i => (.done (rs i) : Program α β)) = qs at h
  induction h with
  | here => exact hqs ▸ .done rs
  | @meet c cs qs x next rest ih =>
    have hmeaning : ∀ i : Fin n, c.meaning (List.ofFn x) i = c.answer (List.ofFn x) i := fun i =>
      c.meaning_eq_answer hzero (fun hnil => Nat.ne_of_gt hn (List.ofFn_eq_nil_iff.1 hnil)) i
    refine .call ?_
    simp only [hmeaning]
    exact ih hqs

/-- Threads come to the results of their group, whatever order they take their steps in. -/
theorem stage_of_run (hn : 0 < n) (hzero : ∀ x : α, -0 + x = x)
    (hrun : Group.run (List.ofFn ps) = some (List.ofFn rs)) (h : (State.start ps).run schedule = some s) :
    (s.Finished ∨ ∃ i, (s.step i).isSome) ∧
      (s.Finished → ∀ i : Fin n, (s.ranks.get i).stage = .ready (.done (rs i))) := by
  obtain ⟨cs, hl⟩ := Group.lockstep_of_results hrun
  have hinv := inv_of_run hn (inStep_of_lockstep hn hzero hl) h
  refine ⟨hinv.finished_or_step, fun hfinished i => ?_⟩
  obtain ⟨past, -, hranks⟩ := hinv.of_finished hn hfinished
  exact (hranks i).1

end Group

end Inflow.Threads
