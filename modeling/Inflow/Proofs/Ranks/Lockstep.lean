import Inflow.Ranks.Group
import Mathlib.Data.List.OfFn
/-!
# Groups in lockstep

`Lockstep` says how far the ranks of a group have come: all of them have met in
the same collectives, and this is where they stand now. `Group.Ends` is what a
group can promise: either some rank breaks off between two collectives, or all
ranks are done together, with results that have a property. Programs put one
after the other keep such promises, and `Group.run` gives the results that they
speak of.
-/

namespace Inflow

variable {α β δ : Type}

/-! ## What a rank can come to -/

namespace Program

/-- The results that a program can have, whatever is replied to it. -/
def Can : Program α β → β → Prop
  | done b, r => r = b
  | call _ _ next, r => ∃ reply, (next reply).Can r

@[simp] theorem can_done (b r : β) : (done b : Program α β).Can r ↔ r = b := Iff.rfl

@[simp] theorem can_bind (p : Program α β) (f : β → Program α δ) (r : δ) :
    (p >>= f).Can r ↔ ∃ b, p.Can b ∧ (f b).Can r := by
  induction p with
  | done b => simp
  | call c x next ih =>
    simp only [call_bind, Can, ih]
    constructor
    · rintro ⟨reply, b, hb, hr⟩
      exact ⟨b, ⟨reply, hb⟩, hr⟩
    · rintro ⟨b, ⟨reply, hb⟩, hr⟩
      exact ⟨reply, b, hb, hr⟩

@[simp] theorem can_meet (c : Collective) (x : c.Contribution α) (r : c.Reply α) : (meet c x).Can r :=
  ⟨r, rfl⟩

/-- A program is followed alike by what agrees on its results. -/
theorem bind_congr {p : Program α β} {f g : β → Program α δ} (h : ∀ b, p.Can b → f b = g b) :
    p >>= f = p >>= g := by
  induction p with
  | done b => exact h b rfl
  | call c x next ih =>
    rw [call_bind, call_bind]
    congr 1
    funext reply
    exact ih reply fun b hb => h b ⟨reply, hb⟩

/-- The results that a program can have in a group, where every reply answers
contributions of some ranks. -/
def Comes [Scalar α] : Program α β → β → Prop
  | done b, r => r = b
  | call c _ next, r => ∃ contributions rank, (next (c.answer contributions rank)).Comes r

@[simp] theorem comes_done [Scalar α] (b r : β) : (done b : Program α β).Comes r ↔ r = b := Iff.rfl

@[simp] theorem comes_bind [Scalar α] (p : Program α β) (f : β → Program α δ) (r : δ) :
    (p >>= f).Comes r ↔ ∃ b, p.Comes b ∧ (f b).Comes r := by
  induction p with
  | done b => simp
  | call c x next ih =>
    simp only [call_bind, Comes, ih]
    constructor
    · rintro ⟨contributions, rank, b, hb, hr⟩
      exact ⟨b, ⟨contributions, rank, hb⟩, hr⟩
    · rintro ⟨b, ⟨contributions, rank, hb⟩, hr⟩
      exact ⟨contributions, rank, b, hb, hr⟩

theorem Comes.can [Scalar α] {p : Program α β} {r : β} (h : p.Comes r) : p.Can r := by
  induction p with
  | done b => exact h
  | call c x next ih =>
    obtain ⟨contributions, rank, h⟩ := h
    exact ⟨_, ih _ h⟩

end Program

/-! ## Meeting -/

variable {n : Nat}

/-- The ranks meet in the collectives `cs`, one after the other: from the
programs they stand before to those that are left. -/
inductive Lockstep [Scalar α] : (cs : List Collective) → (ps qs : Fin n → Program α β) → Prop
  | here (ps) : Lockstep [] ps ps
  | meet {c cs qs} (x : Fin n → c.Contribution α) (next : Fin n → c.Reply α → Program α β)
      (rest : Lockstep cs (fun i => next i (c.answer (List.ofFn x) i)) qs) :
      Lockstep (c :: cs) (fun i => .call c (x i) (next i)) qs

namespace Lockstep

variable [Scalar α] {cs ds : List Collective} {ps qs rs : Fin n → Program α β}

theorem trans (h : Lockstep cs ps qs) (h' : Lockstep ds qs rs) : Lockstep (cs ++ ds) ps rs := by
  induction h with
  | here => exact h'
  | meet x next _ ih => exact .meet x next (ih h')

theorem bind (h : Lockstep cs ps qs) (f : Fin n → β → Program α δ) :
    Lockstep cs (fun i => ps i >>= f i) (fun i => qs i >>= f i) := by
  induction h with
  | here => exact .here _
  | meet x next _ ih => exact .meet x (fun i reply => next i reply >>= f i) ih

/-- What a rank can still come to, it could come to before. -/
theorem can (h : Lockstep cs ps qs) {i : Fin n} {b : β} (hb : (qs i).Can b) : (ps i).Can b := by
  induction h with
  | here => exact hb
  | meet x next _ ih => exact ⟨_, ih hb⟩

/-- What a rank can still come to in the group, it could come to in it before. -/
theorem comes (h : Lockstep cs ps qs) {i : Fin n} {b : β} (hb : (qs i).Comes b) : (ps i).Comes b := by
  induction h with
  | here => exact hb
  | meet x next _ ih => exact ⟨List.ofFn x, i, ih hb⟩

end Lockstep

/-! ## Running -/

theorem mapIdx_ofFn {γ ε : Type} (f : Nat → γ → ε) (g : Fin n → γ) :
    (List.ofFn g).mapIdx f = List.ofFn fun i => f i (g i) := by
  apply List.ext_getElem <;> simp

theorem exists_of_mapM {γ ε : Type} {f : γ → Option ε} {xs : List γ} {ys : List ε} (h : xs.mapM f = some ys) :
    ∀ x ∈ xs, ∃ y, f x = some y := by
  induction xs generalizing ys with
  | nil => simp
  | cons x xs ih =>
    simp only [List.mapM_cons, Option.pure_def, Option.bind_eq_bind, Option.bind_eq_some_iff] at h
    obtain ⟨y, hy, zs, hzs, -⟩ := h
    simpa [hy] using ih hzs

namespace Program

theorem mapM_before (c : Collective) (x : Fin n → c.Contribution α) (next : Fin n → c.Reply α → Program α β) :
    (List.ofFn fun i => call c (x i) (next i)).mapM (before? c) = some (List.ofFn fun i => (x i, next i)) := by
  induction n with
  | zero => simp
  | succ n ih => simp [List.ofFn_succ, before?, ih]

theorem mapM_result (rs : Fin n → β) :
    (List.ofFn fun i => (done (rs i) : Program α β)).mapM result? = some (List.ofFn rs) := by
  induction n with
  | zero => simp
  | succ n ih => simp [List.ofFn_succ, result?, ih]

theorem done_of_result {p : Program α β} {b : β} (h : p.result? = some b) : p = done b := by
  cases p with
  | done r => rw [result?, Option.some.injEq] at h; rw [h]
  | call => cases h

theorem call_of_before {c : Collective} {p : Program α β} {w : c.Contribution α × (c.Reply α → Program α β)}
    (h : p.before? c = some w) : p = call c w.1 w.2 := by
  cases p with
  | done b => cases h
  | call c' x next =>
    by_cases hc : c' = c
    · subst hc
      simp only [Program.before?, dite_true, Option.some.injEq] at h
      rw [← h]
    · simp [Program.before?, hc] at h

end Program

namespace Group

variable [Scalar α]

/-- A group whose ranks stand before one collective goes on with its answers. -/
theorem run_call (c : Collective) (x : Fin n → c.Contribution α) (next : Fin n → c.Reply α → Program α β) :
    run (List.ofFn fun i => .call c (x i) (next i)) =
      run (List.ofFn fun i => next i (c.answer (List.ofFn x) i)) := by
  cases n with
  | zero => rfl
  | succ n =>
    simp only [List.ofFn_succ, run, Program.together, Program.mapM_before, List.map_ofFn, mapIdx_ofFn,
      Function.comp_def, Fin.val_zero, Fin.val_succ]

theorem run_done (rs : Fin n → β) : run (List.ofFn fun i => (.done (rs i) : Program α β)) = some (List.ofFn rs) := by
  cases n with
  | zero => rfl
  | succ n => simp [List.ofFn_succ, run, Program.together, Program.mapM_result]

theorem run_lockstep {cs : List Collective} {ps qs : Fin n → Program α β} (h : Lockstep cs ps qs) :
    run (List.ofFn ps) = run (List.ofFn qs) := by
  induction h with
  | here => rfl
  | meet x next _ ih => rw [run_call, ih]

/-- A group in which one rank is done has results only if all ranks are. -/
theorem done_of_run {ps : Fin n → Program α β} {bs : List β} (h : run (List.ofFn ps) = some bs) {i : Fin n} {b : β}
    (hi : ps i = .done b) : ∃ rs : Fin n → β, ps = fun j => .done (rs j) := by
  cases n with
  | zero => exact i.elim0
  | succ n =>
    rw [List.ofFn_succ, run] at h
    suffices ∀ j, ∃ r, ps j = .done r by
      choose rs hrs using this
      exact ⟨rs, funext hrs⟩
    cases h0 : ps 0 with
    | done b0 =>
      rw [h0, Program.together, Option.map_eq_some_iff] at h
      obtain ⟨rs, hrs, -⟩ := h
      intro j
      cases j using Fin.cases with
      | zero => exact ⟨b0, h0⟩
      | succ j =>
        obtain ⟨r, hr⟩ := exists_of_mapM hrs (ps j.succ) (List.mem_ofFn.2 ⟨j, rfl⟩)
        exact ⟨r, Program.done_of_result hr⟩
    | call c x next =>
      -- Rank `i` is not before the collective that rank 0 waits at.
      exfalso
      rw [h0, Program.together] at h
      cases hm : (List.ofFn fun j : Fin n => ps j.succ).mapM (Program.before? c) with
      | none => simp [hm] at h
      | some waiting =>
        cases i using Fin.cases with
        | zero => simp [h0] at hi
        | succ i =>
          obtain ⟨w, hw⟩ := exists_of_mapM hm (ps i.succ) (List.mem_ofFn.2 ⟨i, rfl⟩)
          rw [hi] at hw
          cases hw

/-- A group that has results has come to them in lockstep. -/
theorem lockstep_of_run {ps : Fin n → Program α β} {bs : List β} (h : run (List.ofFn ps) = some bs) :
    ∃ cs rs, Lockstep cs ps (fun i => .done (rs i)) ∧ bs = List.ofFn rs := by
  cases n with
  | zero =>
    obtain rfl : ps = fun i => .done (i.elim0 : β) := funext fun i => i.elim0
    exact ⟨[], _, .here _, by cases h; rfl⟩
  | succ n =>
    -- The induction follows the program of rank 0, which the others keep up with.
    generalize h0 : ps 0 = p
    induction p generalizing ps with
    | done b =>
      obtain ⟨rs, rfl⟩ := done_of_run h h0
      rw [run_done, Option.some.injEq] at h
      exact ⟨[], rs, .here _, h.symm⟩
    | call c x next ih =>
      have hrun := h
      rw [List.ofFn_succ, run, h0, Program.together] at h
      cases hm : (List.ofFn fun j : Fin n => ps j.succ).mapM (Program.before? c) with
      | none => simp [hm] at h
      | some waiting =>
        have hall : ∀ j, ∃ w : c.Contribution α × (c.Reply α → Program α β), ps j = .call c w.1 w.2 := by
          intro j
          cases j using Fin.cases with
          | zero => exact ⟨(x, next), h0⟩
          | succ j =>
            obtain ⟨w, hw⟩ := exists_of_mapM hm (ps j.succ) (List.mem_ofFn.2 ⟨j, rfl⟩)
            exact ⟨w, Program.call_of_before hw⟩
        choose ws hws using hall
        obtain rfl : ps = fun j => .call c (ws j).1 (ws j).2 := funext hws
        obtain ⟨-, -, hnext⟩ := Program.call.inj h0
        rw [run_call] at hrun
        obtain ⟨cs, rs, hl, hbs⟩ := ih _ hrun (by rw [← eq_of_heq hnext])
        exact ⟨c :: cs, rs, .meet _ _ hl, hbs⟩

section Results

variable {ps : Fin n → Program α β} {rs ss : Fin n → β}

theorem lockstep_of_results (h : run (List.ofFn ps) = some (List.ofFn rs)) :
    ∃ cs, Lockstep cs ps fun i => .done (rs i) := by
  obtain ⟨cs, ss, hl, hrs⟩ := lockstep_of_run h
  obtain rfl := List.ofFn_inj.1 hrs
  exact ⟨cs, hl⟩

/-- What a rank comes to in a group it can come to by its own program. -/
theorem can_of_run (h : run (List.ofFn ps) = some (List.ofFn rs)) (i : Fin n) : (ps i).Can (rs i) := by
  obtain ⟨cs, hl⟩ := lockstep_of_results h
  exact hl.can rfl

/-- A group comes to one result on each rank. -/
theorem results_unique (h : run (List.ofFn ps) = some (List.ofFn rs)) (h' : run (List.ofFn ps) = some (List.ofFn ss)) :
    rs = ss :=
  List.ofFn_inj.1 (Option.some.inj (h.symm.trans h'))

theorem eq_of_run_done (h : run (List.ofFn fun i => (.done (rs i) : Program α β)) = some (List.ofFn ss)) : rs = ss :=
  results_unique (run_done rs) h

end Results

/-- A test that all results of a group pass is passed by those of each rank. -/
theorem results_of_all {ps : Fin n → Program α β} (p : β → Bool) (h : (run (List.ofFn ps)).map (·.all p) = some true) :
    ∃ rs : Fin n → β, run (List.ofFn ps) = some (List.ofFn rs) ∧ ∀ i, p (rs i) = true := by
  obtain ⟨bs, hbs, hall⟩ := Option.map_eq_some_iff.1 h
  obtain ⟨-, rs, -, rfl⟩ := lockstep_of_run hbs
  exact ⟨rs, hbs, fun i => List.all_eq_true.1 hall _ (List.mem_ofFn.2 ⟨i, rfl⟩)⟩

/-! ## Ending in step -/

/-- The group ends in step: all ranks meet in the same collectives, up to a point
at which some rank breaks off with a result in `Broken`, or at which all are
done, with results in `Q`. -/
def Ends (Broken : β → Prop) (Q : (Fin n → β) → Prop) (ps : Fin n → Program α β) : Prop :=
  ∃ cs qs, Lockstep cs ps qs ∧
    ((∃ i b, qs i = .done b ∧ Broken b) ∨ ∃ rs, qs = (fun i => .done (rs i)) ∧ Q rs)

namespace Ends

variable {Broken : β → Prop} {Q R : (Fin n → β) → Prop} {ps : Fin n → Program α β}

theorem done {rs : Fin n → β} (h : Q rs) : Ends Broken Q (fun i => (.done (rs i) : Program α β)) :=
  ⟨[], _, .here _, .inr ⟨rs, rfl, h⟩⟩

theorem broken {i : Fin n} {b : β} (hi : ps i = .done b) (hb : Broken b) : Ends Broken Q ps :=
  ⟨[], _, .here _, .inl ⟨i, b, hi, hb⟩⟩

theorem call {c : Collective} {x : Fin n → c.Contribution α} {next : Fin n → c.Reply α → Program α β}
    (h : Ends Broken Q (fun i => next i (c.answer (List.ofFn x) i))) :
    Ends Broken Q (fun i => .call c (x i) (next i)) := by
  obtain ⟨cs, qs, hl, hq⟩ := h
  exact ⟨c :: cs, qs, .meet x next hl, hq⟩

/-- All that the results are known for is what the promise says and what each rank can come to. -/
theorem imp (h : Ends Broken Q ps) (hq : ∀ rs, (∀ i, (ps i).Can (rs i)) → Q rs → R rs) : Ends Broken R ps := by
  obtain ⟨cs, qs, hl, hend⟩ := h
  refine ⟨cs, qs, hl, hend.imp_right ?_⟩
  rintro ⟨rs, rfl, hrs⟩
  exact ⟨rs, rfl, hq rs (fun i => hl.can rfl) hrs⟩

/-- Where every rank goes on in step, so does the group; a rank that has broken off stays broken. -/
theorem bind {C : δ → Prop} {S : (Fin n → δ) → Prop} {f : Fin n → β → Program α δ} (h : Ends Broken Q ps)
    (hbroken : ∀ i b, Broken b → ∃ d, f i b = .done d ∧ C d)
    (hf : ∀ rs, (∀ i, (ps i).Can (rs i)) → Q rs → Ends C S (fun i => f i (rs i))) :
    Ends C S (fun i => ps i >>= f i) := by
  obtain ⟨cs, qs, hl, ⟨i, b, hi, hb⟩ | ⟨rs, rfl, hrs⟩⟩ := h
  · obtain ⟨d, hd, hbd⟩ := hbroken i b hb
    exact ⟨cs, _, hl.bind f, .inl ⟨i, d, by rw [hi, Program.done_bind, hd], hbd⟩⟩
  · obtain ⟨ds, ts, hl', hend⟩ := hf rs (fun i => hl.can rfl) hrs
    exact ⟨cs ++ ds, ts, (hl.bind f).trans hl', hend⟩

/-- If no rank is broken in the end, the promise is about the group's results. -/
theorem of_run {rs : Fin n → β} (h : Ends Broken Q ps) (hrun : run (List.ofFn ps) = some (List.ofFn rs))
    (hrs : ∀ i, ¬ Broken (rs i)) : Q rs := by
  obtain ⟨cs, qs, hl, hend⟩ := h
  rw [run_lockstep hl] at hrun
  rcases hend with ⟨i, b, hi, hb⟩ | ⟨ss, rfl, hss⟩
  · obtain ⟨ss, rfl⟩ := done_of_run hrun hi
    obtain rfl := eq_of_run_done hrun
    rw [Program.done.injEq] at hi
    exact absurd (hi ▸ hb) (hrs i)
  · exact eq_of_run_done hrun ▸ hss

/-- If nothing counts as broken, the group has results. -/
theorem run_eq (h : Ends (fun _ => False) Q ps) : ∃ rs, run (List.ofFn ps) = some (List.ofFn rs) ∧ Q rs := by
  obtain ⟨cs, qs, hl, ⟨-, -, -, hb⟩ | ⟨rs, rfl, hrs⟩⟩ := h
  · exact hb.elim
  · exact ⟨rs, by rw [run_lockstep hl, run_done], hrs⟩

end Ends
end Group
end Inflow
