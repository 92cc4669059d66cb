import Inflow.Injector.Step
import Inflow.Proofs.Ranks.Lockstep
/-!
# Steps of a rank and of a group

Two ways of saying what a step does. `Step.Yields` and `Step.Errs` are about one
rank: the results it can come to, and the errors it can halt for, whatever the
other ranks reply. `Step.Together` is about all ranks of a group: unless one of
them stops at a fault, they come to results together or halt for errors together.
Steps put one after the other keep both; a step that is quiet, so meets nobody
and has no errors, only needs the first.
-/

namespace Inflow.Step

variable {α γ ω β δ : Type}

/-! ## Programs of steps -/

/-- What a step does in a given run, as a program. -/
def on (s : Step α γ ω β) (r : Run α γ ω) : Program α (Except (Halt α) β × Run α γ ω) := s.run.run r

/-- How a step goes on after another: not at all, if that has halted. -/
def andThen (f : β → Step α γ ω δ) : Except (Halt α) β × Run α γ ω → Program α (Except (Halt α) δ × Run α γ ω)
  | (.ok b, r) => (f b).on r
  | (.error h, r) => .done (.error h, r)

@[simp] theorem on_pure (b : β) (r : Run α γ ω) : (pure b : Step α γ ω β).on r = .done (.ok b, r) := rfl

@[simp] theorem on_throw (h : Halt α) (r : Run α γ ω) : (throw h : Step α γ ω β).on r = .done (.error h, r) := rfl

@[simp] theorem on_bind (s : Step α γ ω β) (f : β → Step α γ ω δ) (r : Run α γ ω) :
    (s >>= f).on r = s.on r >>= andThen f := by
  simp only [on, ExceptT.run_bind, StateT.run_bind]
  congr 1
  funext out
  rcases out with ⟨_ | _, _⟩ <;> rfl

@[simp] theorem on_get (r : Run α γ ω) : (get : Step α γ ω (Run α γ ω)).on r = .done (.ok r, r) := rfl

@[simp] theorem on_modify (f : Run α γ ω → Run α γ ω) (r : Run α γ ω) :
    (modify f : Step α γ ω Unit).on r = .done (.ok (), f r) := rfl

@[simp] theorem on_meet (p : Program α β) (r : Run α γ ω) :
    (meet p : Step α γ ω β).on r = p >>= fun b => .done (.ok b, r) := by
  simp [on, meet, liftM, monadLift, MonadLift.monadLift, ExceptT.lift, ExceptT.run, ExceptT.mk, StateT.lift,
    StateT.run, Functor.map, StateT.map]

/-- What `agree` makes of a rank's own finding, once it is known whether some rank failed. -/
def verdict (place : Place) (own : Except (InjectionError α) β) (someoneFailed : Bool) : Except (Halt α) β :=
  match own with
  | .error e => .error (.error e)
  | .ok b => if someoneFailed then .error (.error (.peerFailure place)) else .ok b

theorem on_agree (place : Place) (own : Except (InjectionError α) β) (r : Run α γ ω) :
    (agree place own : Step α γ ω β).on r =
      .call .any (!own.toBool : Bool) fun (someoneFailed : Bool) => .done (verdict place own someoneFailed, r) := by
  rw [agree, on_bind, on_meet]
  refine congrArg (Program.call _ _) (funext fun (someoneFailed : Bool) => ?_)
  cases own <;> cases someoneFailed <;> rfl

/-! ## One rank -/

/-- A step that begins in the run `r` can come to the result `b`, in the run `r'`. -/
@[irreducible] def Yields (s : Step α γ ω β) (r : Run α γ ω) (b : β) (r' : Run α γ ω) : Prop := (s.on r).Can (.ok b, r')

section Yields

variable {r r' : Run α γ ω} {b : β}

theorem yields_of_can {s : Step α γ ω β} (h : (s.on r).Can (.ok b, r')) : s.Yields r b r' := by rwa [Yields]

/-- A rank that may come out with a result yields it. -/
theorem yields_of_out {s : Step α γ ω β} {out : Except (Halt α) β × Run α γ ω} (h : (s.on r).Can out)
    (hout : out.1 = .ok b) : s.Yields r b out.2 := by
  rw [Yields, ← hout]
  exact h

theorem yields_congr {s s' : Step α γ ω β} (h : s.on r = s'.on r) : s.Yields r b r' ↔ s'.Yields r b r' := by
  rw [Yields, Yields, h]

@[simp] theorem yields_pure {a : β} : (pure a : Step α γ ω β).Yields r b r' ↔ b = a ∧ r' = r := by
  simp [Yields]

@[simp] theorem yields_throw {h : Halt α} : (throw h : Step α γ ω β).Yields r b r' ↔ False := by
  simp [Yields]

@[simp] theorem yields_bind {s : Step α γ ω β} {f : β → Step α γ ω δ} {d : δ} :
    (s >>= f).Yields r d r' ↔ ∃ b m, s.Yields r b m ∧ (f b).Yields m d r' := by
  simp only [Yields, on_bind, Program.can_bind]
  constructor
  · rintro ⟨⟨_ | b, m⟩, hs, hf⟩
    · cases hf
    · exact ⟨b, m, hs, hf⟩
  · rintro ⟨b, m, hs, hf⟩
    exact ⟨(.ok b, m), hs, hf⟩

@[simp] theorem yields_get {b : Run α γ ω} : (get : Step α γ ω _).Yields r b r' ↔ b = r ∧ r' = r := by
  simp [Yields]

@[simp] theorem yields_modify {f : Run α γ ω → Run α γ ω} {u : Unit} :
    (modify f : Step α γ ω Unit).Yields r u r' ↔ r' = f r := by
  simp [Yields]

@[simp] theorem yields_check {x : Checked β} : (check x : Step α γ ω β).Yields r b r' ↔ x = .ok b ∧ r' = r := by
  cases x <;> simp [check, eq_comm]

@[simp] theorem yields_meet {p : Program α β} : (meet p : Step α γ ω β).Yields r b r' ↔ p.Can b ∧ r' = r := by
  simp [Yields]

@[simp] theorem yields_updateInjector {f : Injector α γ → Injector α γ} {u : Unit} :
    (updateInjector f : Step α γ ω Unit).Yields r u r' ↔ r' = { r with injector := f r.injector } := by
  simp [updateInjector]

@[simp] theorem yields_say {messages : List Message} {u : Unit} :
    (say messages : Step α γ ω Unit).Yields r u r' ↔ r' = { r with log := r.log ++ messages } := by
  simp [say]

@[simp] theorem yields_setStream {stream : RandomStream γ} {u : Unit} :
    (setStream stream : Step α γ ω Unit).Yields r u r' ↔ r' = { r with injector := { r.injector with stream } } := by
  simp [setStream]

@[simp] theorem yields_setPopulation {population : Population α} {u : Unit} :
    (setPopulation population : Step α γ ω Unit).Yields r u r' ↔
      r' = { r with injector := { r.injector with population } } := by
  simp [setPopulation]

@[simp] theorem yields_draw {d : Drawing γ β} : (draw d : Step α γ ω β).Yields r b r' ↔
    (d.run.run r.injector.stream).1 = .ok b ∧
      r' = { r with injector := { r.injector with stream := (d.run.run r.injector.stream).2 } } := by
  rw [draw, Yields, on_bind, on_get, Program.done_bind, andThen]
  rcases d.run.run r.injector.stream with ⟨result, stream⟩
  rw [← Yields]
  simp

@[simp] theorem yields_agree {place : Place} {own : Except (InjectionError α) β} :
    (agree place own : Step α γ ω β).Yields r b r' ↔ own = .ok b ∧ r' = r := by
  rw [Yields, on_agree]
  cases own with
  | error e => simp [Program.Can, verdict]
  | ok a =>
    constructor
    · rintro ⟨_ | _, h⟩
      · simpa [verdict, eq_comm] using h
      · simp [verdict] at h
    · rintro ⟨h, rfl⟩
      exact ⟨false, by rw [h]; rfl⟩

/-- A step is followed alike by what agrees wherever it can lead. -/
theorem on_bind_congr {s : Step α γ ω β} {f g : β → Step α γ ω δ}
    (h : ∀ b m, s.Yields r b m → (f b).on m = (g b).on m) : (s >>= f).on r = (s >>= g).on r := by
  rw [on_bind, on_bind]
  apply Program.bind_congr
  rintro ⟨_ | b, m⟩ hb
  · rfl
  · exact h b m (yields_of_can hb)

end Yields

/-! ## Quiet steps -/

/-- A step that meets nobody, and that halts at faults only. -/
def Quiet (s : Step α γ ω β) : Prop := ∀ r, ∃ out, s.on r = .done out ∧ ∀ e, out.1 ≠ .error (.error e)

theorem quiet_pure (b : β) : Quiet (pure b : Step α γ ω β) := fun r => ⟨_, rfl, by simp⟩

theorem quiet_get : Quiet (get : Step α γ ω (Run α γ ω)) := fun r => ⟨_, rfl, by simp⟩

theorem quiet_modify (f : Run α γ ω → Run α γ ω) : Quiet (modify f : Step α γ ω Unit) := fun r => ⟨_, rfl, by simp⟩

theorem quiet_fault (f : Fault) : Quiet (throw (.fault f) : Step α γ ω β) := fun r => ⟨_, rfl, by simp⟩

theorem quiet_check (x : Checked β) : Quiet (check x : Step α γ ω β) := by
  cases x with
  | error f => exact quiet_fault f
  | ok b => exact quiet_pure b

theorem quiet_bind {s : Step α γ ω β} {f : β → Step α γ ω δ} (hs : Quiet s) (hf : ∀ b, Quiet (f b)) :
    Quiet (s >>= f) := by
  intro r
  obtain ⟨⟨_ | b, m⟩, hm, he⟩ := hs r
  · exact ⟨_, by rw [on_bind, hm]; rfl, by simpa using he⟩
  · rw [on_bind, hm]
    exact hf b m

theorem quiet_say (messages : List Message) : Quiet (say messages : Step α γ ω Unit) := quiet_modify _

theorem quiet_updateInjector (f : Injector α γ → Injector α γ) : Quiet (updateInjector f : Step α γ ω Unit) :=
  quiet_modify _

theorem quiet_setPopulation (population : Population α) : Quiet (setPopulation population : Step α γ ω Unit) :=
  quiet_modify _

theorem quiet_draw (d : Drawing γ β) : Quiet (draw d : Step α γ ω β) :=
  quiet_bind quiet_get fun _ => quiet_bind (quiet_modify _) fun _ => quiet_check _

/-! ## Errors of one rank -/

/-- A step that begins in the run `r` can halt for the error `e`, in the run `r'`. -/
@[irreducible] def Errs (s : Step α γ ω β) (r : Run α γ ω) (e : InjectionError α) (r' : Run α γ ω) : Prop :=
  (s.on r).Can (.error (.error e), r')

section Errs

variable {r r' : Run α γ ω} {e : InjectionError α}

/-- A rank that may come out with an error halts for it. -/
theorem errs_of_out {s : Step α γ ω β} {out : Except (Halt α) β × Run α γ ω} (h : (s.on r).Can out)
    (hout : out.1 = .error (.error e)) : s.Errs r e out.2 := by
  rw [Errs, ← hout]
  exact h

theorem errs_congr {s s' : Step α γ ω β} (h : s.on r = s'.on r) : s.Errs r e r' ↔ s'.Errs r e r' := by
  rw [Errs, Errs, h]

@[simp] theorem errs_pure {b : β} : (pure b : Step α γ ω β).Errs r e r' ↔ False := by simp [Errs]

@[simp] theorem errs_throw {h : Halt α} : (throw h : Step α γ ω β).Errs r e r' ↔ h = .error e ∧ r' = r := by
  simp [Errs, eq_comm]

/-- Of two steps, one errs: the first, or the second after a result of the first. -/
@[simp] theorem errs_bind {s : Step α γ ω β} {f : β → Step α γ ω δ} :
    (s >>= f).Errs r e r' ↔ s.Errs r e r' ∨ ∃ b m, s.Yields r b m ∧ (f b).Errs m e r' := by
  simp only [Errs, Yields, on_bind, Program.can_bind]
  constructor
  · rintro ⟨⟨_ | b, m⟩, hs, hf⟩
    · cases hf
      exact .inl hs
    · exact .inr ⟨b, m, hs, hf⟩
  · rintro (hs | ⟨b, m, hs, hf⟩)
    · exact ⟨_, hs, rfl⟩
    · exact ⟨_, hs, hf⟩

theorem not_errs_of_quiet {s : Step α γ ω β} (h : Quiet s) : ¬ s.Errs r e r' := by
  intro hs
  obtain ⟨out, hout, hno⟩ := h r
  rw [Errs, hout, Program.can_done] at hs
  exact hno e (congrArg Prod.fst hs).symm

@[simp] theorem errs_get : (get : Step α γ ω (Run α γ ω)).Errs r e r' ↔ False :=
  iff_false_intro (not_errs_of_quiet quiet_get)

@[simp] theorem errs_modify {f : Run α γ ω → Run α γ ω} : (modify f : Step α γ ω Unit).Errs r e r' ↔ False :=
  iff_false_intro (not_errs_of_quiet (quiet_modify f))

@[simp] theorem errs_check {x : Checked β} : (check x : Step α γ ω β).Errs r e r' ↔ False :=
  iff_false_intro (not_errs_of_quiet (quiet_check x))

@[simp] theorem errs_meet {p : Program α β} : (meet p : Step α γ ω β).Errs r e r' ↔ False := by simp [Errs]

@[simp] theorem errs_updateInjector {f : Injector α γ → Injector α γ} :
    (updateInjector f : Step α γ ω Unit).Errs r e r' ↔ False :=
  iff_false_intro (not_errs_of_quiet (quiet_updateInjector f))

@[simp] theorem errs_say {messages : List Message} : (say messages : Step α γ ω Unit).Errs r e r' ↔ False :=
  iff_false_intro (not_errs_of_quiet (quiet_say messages))

@[simp] theorem errs_setStream {stream : RandomStream γ} : (setStream stream : Step α γ ω Unit).Errs r e r' ↔ False :=
  iff_false_intro (not_errs_of_quiet (quiet_updateInjector _))

@[simp] theorem errs_setPopulation {population : Population α} :
    (setPopulation population : Step α γ ω Unit).Errs r e r' ↔ False :=
  iff_false_intro (not_errs_of_quiet (quiet_setPopulation population))

/-- The error that a rank has after a check that has failed on some rank: what it
has found itself, or that a peer has found something. -/
def Reports (place : Place) (own : Except (InjectionError α) β) (e : InjectionError α) : Prop :=
  own = .error e ∨ (∃ b, own = .ok b) ∧ e = .peerFailure place

@[simp] theorem errs_agree {place : Place} {own : Except (InjectionError α) β} :
    (agree place own : Step α γ ω β).Errs r e r' ↔ Reports place own e ∧ r' = r := by
  rw [Errs, on_agree, Reports]
  cases own with
  | error own =>
    constructor
    · rintro ⟨_, h⟩
      cases h
      exact ⟨.inl rfl, rfl⟩
    · rintro ⟨h | ⟨⟨_, h⟩, _⟩, rfl⟩
      · cases h
        exact ⟨false, rfl⟩
      · cases h
  | ok b =>
    constructor
    · rintro ⟨_ | _, h⟩
      · simp [verdict] at h
      · simp only [verdict, if_true, Program.can_done, Prod.mk.injEq, Except.error.injEq, Halt.error.injEq] at h
        exact ⟨.inr ⟨⟨b, rfl⟩, h.1⟩, h.2⟩
    · rintro ⟨h | ⟨-, rfl⟩, rfl⟩
      · cases h
      · exact ⟨true, rfl⟩

end Errs

/-! ## All ranks -/

/-- A rank has stopped at a fault. -/
def Faulted (out : Except (Halt α) β × Run α γ ω) : Prop := ∃ f, out.1 = .error (.fault f)

/-- What the ranks of a group have come to: results in `Q`, or errors in `E`, all together. -/
inductive Agreed {n : Nat} (Q : (Fin n → β) → (Fin n → Run α γ ω) → Prop)
    (E : (Fin n → InjectionError α) → (Fin n → Run α γ ω) → Prop) :
    (Fin n → Except (Halt α) β × Run α γ ω) → Prop
  | results {bs ts} (h : Q bs ts) : Agreed Q E fun i => (.ok (bs i), ts i)
  | errors {es ts} (h : E es ts) : Agreed Q E fun i => (.error (.error (es i)), ts i)

variable [Scalar α] {n : Nat}

/-- The ranks of a group carry their steps out together: unless one of them
stops at a fault, they all come to results in `Q` or all halt for errors in `E`. -/
def Together (ss : Fin n → Step α γ ω β) (rs : Fin n → Run α γ ω)
    (Q : (Fin n → β) → (Fin n → Run α γ ω) → Prop)
    (E : (Fin n → InjectionError α) → (Fin n → Run α γ ω) → Prop) : Prop :=
  Group.Ends Faulted (Agreed Q E) fun i => (ss i).on (rs i)

variable {ss : Fin n → Step α γ ω β} {rs : Fin n → Run α γ ω}
  {Q Q' : (Fin n → β) → (Fin n → Run α γ ω) → Prop} {E E' : (Fin n → InjectionError α) → (Fin n → Run α γ ω) → Prop}

theorem together_imp (h : Together ss rs Q E)
    (hq : ∀ bs ts, (∀ i, (ss i).Yields (rs i) (bs i) (ts i)) → Q bs ts → Q' bs ts)
    (he : ∀ es ts, E es ts → E' es ts) : Together ss rs Q' E' := by
  refine h.imp ?_
  rintro _ hcan (hbs | hes)
  · exact .results (hq _ _ (fun i => yields_of_can (hcan i)) hbs)
  · exact .errors (he _ _ hes)

theorem together_pure {bs : Fin n → β} (h : Q bs rs) : Together (fun i => pure (bs i)) rs Q E :=
  .done (.results h)

theorem together_bind {ss : Fin n → Step α γ ω β} {S : (Fin n → δ) → (Fin n → Run α γ ω) → Prop}
    {f : Fin n → β → Step α γ ω δ}
    (h : Together ss rs Q E)
    (hf : ∀ bs ts, (∀ i, (ss i).Yields (rs i) (bs i) (ts i)) → Q bs ts → Together (fun i => f i (bs i)) ts S E) :
    Together (fun i => ss i >>= f i) rs S E := by
  have step := Group.Ends.bind (C := Faulted) (S := Agreed S E) (f := fun i => andThen (f i)) h ?_ ?_
  · simpa only [Together, on_bind] using step
  · rintro i ⟨-, r⟩ ⟨f', rfl⟩
    exact ⟨_, rfl, f', rfl⟩
  · rintro _ hcan (hbs | hes)
    · exact hf _ _ (fun i => yields_of_can (hcan i)) hbs
    · exact .done (.errors hes)

/-- Quiet steps take care of themselves. -/
theorem together_quiet (h : ∀ i, Quiet (ss i))
    (hq : ∀ bs ts, (∀ i, (ss i).Yields (rs i) (bs i) (ts i)) → Q bs ts) : Together ss rs Q E := by
  choose outs hon hout using fun i => h i (rs i)
  by_cases hfault : ∃ i, Faulted (outs i)
  · obtain ⟨i, hi⟩ := hfault
    exact .broken (hon i) hi
  · have ok : ∀ i, ∃ b, (outs i).1 = .ok b := by
      intro i
      cases hi : (outs i).1 with
      | ok b => exact ⟨b, rfl⟩
      | error halt =>
        cases halt with
        | fault f => exact absurd ⟨i, f, hi⟩ hfault
        | error e => exact absurd hi (hout i e)
    choose bs hbs using ok
    have hdone : (fun i => (ss i).on (rs i)) = fun i => .done (.ok (bs i), (outs i).2) := by
      funext i
      rw [hon i, ← hbs i]
    rw [Together, hdone]
    refine .done (.results (hq _ _ fun i => ?_))
    rw [Yields, congrFun hdone i]
    rfl

/-- Quiet steps before others. -/
theorem together_after {S : (Fin n → δ) → (Fin n → Run α γ ω) → Prop} {f : Fin n → β → Step α γ ω δ}
    (h : ∀ i, Quiet (ss i))
    (hf : ∀ (bs : Fin n → β) ts, (∀ i, (ss i).Yields (rs i) (bs i) (ts i)) →
      Together (fun i => f i (bs i)) ts S E) :
    Together (fun i => ss i >>= f i) rs S E :=
  together_bind (Q := fun (bs : Fin n → β) ts => ∀ i, (ss i).Yields (rs i) (bs i) (ts i))
    (together_quiet h fun _ _ h => h) fun bs ts hy _ => hf bs ts hy

theorem together_get {S : (Fin n → δ) → (Fin n → Run α γ ω) → Prop} {f : Fin n → Run α γ ω → Step α γ ω δ}
    (h : Together (fun i => f i (rs i)) rs S E) : Together (fun i => get >>= f i) rs S E := by
  refine together_after (fun _ => quiet_get) fun bs ts hy => ?_
  simp only [yields_get] at hy
  obtain rfl : bs = rs := funext fun i => (hy i).1
  obtain rfl : ts = bs := funext fun i => (hy i).2
  exact h

theorem together_modify {S : (Fin n → δ) → (Fin n → Run α γ ω) → Prop} {f : Fin n → Unit → Step α γ ω δ}
    {g : Fin n → Run α γ ω → Run α γ ω} (h : Together (fun i => f i ()) (fun i => g i (rs i)) S E) :
    Together (fun i => modify (g i) >>= f i) rs S E := by
  refine together_after (fun _ => quiet_modify _) fun _ ts hy => ?_
  simp only [yields_modify] at hy
  obtain rfl : ts = fun i => g i (rs i) := funext hy
  exact h

theorem together_check {S : (Fin n → δ) → (Fin n → Run α γ ω) → Prop} {x : Fin n → Checked β}
    {f : Fin n → β → Step α γ ω δ}
    (h : ∀ bs : Fin n → β, (∀ i, x i = .ok (bs i)) → Together (fun i => f i (bs i)) rs S E) :
    Together (fun i => check (x i) >>= f i) rs S E := by
  refine together_after (fun _ => quiet_check _) fun bs ts hy => ?_
  simp only [yields_check] at hy
  obtain rfl : ts = rs := funext fun i => (hy i).2
  exact h bs fun i => (hy i).1

theorem together_meet {ps : Fin n → Program α β} {R : (Fin n → β) → Prop} (h : Group.Ends (fun _ => False) R ps) :
    Together (fun i => (meet (ps i) : Step α γ ω β)) rs (fun bs ts => ts = rs ∧ R bs) E := by
  have step := Group.Ends.bind (C := Faulted) (f := fun i b => .done (.ok b, rs i))
    (S := Agreed (fun bs ts => ts = rs ∧ R bs) E) h (fun _ _ hb => hb.elim) fun bs _ hbs => .done (.results ⟨rfl, hbs⟩)
  simpa only [Together, on_meet] using step

/-- All ranks hear whether some rank has raised its flag. -/
theorem answer_any (flags : Fin n → Bool) (rank : Nat) :
    Collective.answer (α := α) .any (List.ofFn flags) rank = decide (∃ i, flags i = true) := by
  change List.any (List.ofFn flags) id = _
  rw [Bool.eq_iff_iff, List.any_eq_true, decide_eq_true_iff]
  constructor
  · rintro ⟨_, hmem, hflag⟩
    obtain ⟨i, rfl⟩ := List.mem_ofFn.1 hmem
    exact ⟨i, hflag⟩
  · rintro ⟨i, hi⟩
    exact ⟨_, List.mem_ofFn.2 ⟨i, rfl⟩, hi⟩

theorem together_any (flags : Fin n → Bool) : Together (fun i => (meet (Program.any (flags i)) : Step α γ ω Bool)) rs
    (fun bs ts => ts = rs ∧ bs = fun _ => decide (∃ i, flags i = true)) E := by
  refine together_meet (.call ?_)
  simp only [answer_any]
  exact .done rfl

/-- Where some rank finds an error, every rank that finds none reports a peer's. -/
theorem together_agree (place : Fin n → Place) (own : Fin n → Except (InjectionError α) β) :
    Together (fun i => (agree (place i) (own i) : Step α γ ω β)) rs
      (fun bs ts => ts = rs ∧ ∀ i, own i = .ok (bs i))
      (fun es ts => ts = rs ∧ (∃ i e, own i = .error e) ∧
        ∀ i, own i = .error (es i) ∨ (∃ b, own i = .ok b) ∧ es i = .peerFailure (place i)) := by
  simp only [Together, on_agree]
  refine .call ?_
  -- The reply is the same for all ranks, so the flag of one decides for all.
  by_cases h : ∃ i e, own i = .error e
  · have hany : ∃ i, (!(own i).toBool) = true := by
      obtain ⟨i, e, hi⟩ := h
      exact ⟨i, by rw [hi]; rfl⟩
    have hown : ∀ i, ∃ e, verdict (place i) (own i) true = .error (.error e) ∧
        (own i = .error e ∨ (∃ b, own i = .ok b) ∧ e = .peerFailure (place i)) := by
      intro i
      cases hi : own i with
      | error e => exact ⟨e, rfl, .inl rfl⟩
      | ok b => exact ⟨_, rfl, .inr ⟨⟨b, rfl⟩, rfl⟩⟩
    choose es hes using hown
    simp only [answer_any, hany, decide_true, fun i => (hes i).1]
    exact .done (.errors ⟨rfl, h, fun i => (hes i).2⟩)
  · have ok : ∀ i, ∃ b, own i = .ok b := by
      intro i
      cases hi : own i with
      | ok b => exact ⟨b, rfl⟩
      | error e => exact absurd ⟨i, e, hi⟩ h
    choose bs hbs using ok
    have hany : ¬ ∃ i, (!(own i).toBool) = true := by
      rintro ⟨i, hi⟩
      rw [hbs i] at hi
      cases hi
    simp only [answer_any, hany, decide_false]
    simp only [hbs]
    exact .done (.results ⟨rfl, fun _ => rfl⟩)

/-! ## Runs of a group -/

/-- The ranks come to the results `bs`, in the runs `ts`. -/
def Results (ss : Fin n → Step α γ ω β) (rs : Fin n → Run α γ ω) (bs : Fin n → β) (ts : Fin n → Run α γ ω) : Prop :=
  Group.run (List.ofFn fun i => (ss i).on (rs i)) = some (List.ofFn fun i => (.ok (bs i), ts i))

theorem Results.yields {bs : Fin n → β} {ts : Fin n → Run α γ ω} (h : Results ss rs bs ts) (i : Fin n) :
    (ss i).Yields (rs i) (bs i) (ts i) := yields_of_can (Group.can_of_run h i)

/-- A group whose ranks all come to results, and pass a test, has them together. -/
theorem exists_results_of_all (test : Except (Halt α) β × Run α γ ω → Bool)
    (h : (Group.run (List.ofFn fun i => (ss i).on (rs i))).map (·.all fun out => out.1.toBool && test out) = some true) :
    ∃ bs ts, Results ss rs bs ts ∧ ∀ i, test (.ok (bs i), ts i) = true := by
  obtain ⟨ends, hrun, hall⟩ := Group.results_of_all _ h
  have hok : ∀ i, ∃ b t, ends i = (.ok b, t) := by
    intro i
    have hi := (Bool.and_eq_true_iff.1 (hall i)).1
    cases hend : (ends i).1 with
    | error e => rw [hend] at hi; cases hi
    | ok b => exact ⟨b, (ends i).2, Prod.ext hend rfl⟩
  choose bs ts hends using hok
  obtain rfl : ends = fun i => (.ok (bs i), ts i) := funext hends
  exact ⟨bs, ts, hrun, fun i => (Bool.and_eq_true_iff.1 (hall i)).2⟩

theorem results_pure (bs : Fin n → β) (rs : Fin n → Run α γ ω) : Results (fun i => pure (bs i)) rs bs rs :=
  Group.run_done _

/-- Where a group has come to results, it goes on from there. -/
theorem run_bind {ss : Fin n → Step α γ ω β} {bs : Fin n → β} {ms : Fin n → Run α γ ω} (h : Results ss rs bs ms)
    (f : Fin n → β → Step α γ ω δ) : Group.run (List.ofFn fun i => (ss i >>= f i).on (rs i)) =
      Group.run (List.ofFn fun i => (f i (bs i)).on (ms i)) := by
  obtain ⟨cs, hl⟩ := Group.lockstep_of_results h
  simp only [on_bind]
  exact Group.run_lockstep (hl.bind fun i => andThen (f i))

theorem results_bind {ss : Fin n → Step α γ ω β} {f : Fin n → β → Step α γ ω δ} {bs : Fin n → β}
    {ms : Fin n → Run α γ ω} (h : Results ss rs bs ms) {ds : Fin n → δ} {ts : Fin n → Run α γ ω} :
    Results (fun i => ss i >>= f i) rs ds ts ↔ Results (fun i => f i (bs i)) ms ds ts := by
  rw [Results, run_bind h, Results]

/-- What is promised of a group is so of the results it has. -/
theorem together_results (h : Together ss rs Q E) :
    Together ss rs (fun bs ts => Q bs ts ∧ Results ss rs bs ts) E := by
  obtain ⟨cs, qs, hl, hend⟩ := h
  refine ⟨cs, qs, hl, hend.imp_right ?_⟩
  rintro ⟨outs, rfl, hbs | hes⟩
  · refine ⟨_, rfl, .results ⟨hbs, ?_⟩⟩
    rw [Results, Group.run_lockstep hl, Group.run_done]
  · exact ⟨_, rfl, .errors hes⟩

/-- A group that has results although one rank has halted had them right there. -/
theorem halts_of_run {ss : Fin n → Step α γ ω β} {f : Fin n → β → Step α γ ω δ} {cs : List Collective}
    {qs : Fin n → Program α (Except (Halt α) β × Run α γ ω)} (hl : Lockstep cs (fun i => (ss i).on (rs i)) qs)
    {outs : Fin n → Except (Halt α) δ × Run α γ ω}
    (hrun : Group.run (List.ofFn fun i => (ss i >>= f i).on (rs i)) = some (List.ofFn outs)) {j : Fin n} {halt : Halt α}
    {m : Run α γ ω} (hj : qs j = .done (.error halt, m)) :
    outs j = (.error halt, m) ∧ ∀ i, qs i >>= andThen (f i) = .done (outs i) := by
  simp only [on_bind] at hrun
  rw [Group.run_lockstep (hl.bind fun i => andThen (f i))] at hrun
  obtain ⟨outs', houts⟩ := Group.done_of_run hrun (i := j) (b := (.error halt, m)) (by rw [hj]; rfl)
  rw [houts] at hrun
  obtain rfl := Group.eq_of_run_done hrun
  refine ⟨?_, congrFun houts⟩
  have hdone := congrFun houts j
  rw [hj, Program.done_bind, andThen, Program.done.injEq] at hdone
  exact hdone.symm

/-- A rank that comes to a result past a meeting has come there with all others:
each has a result of what was before the meeting. -/
theorem run_split {ss : Fin n → Step α γ ω β} {f : Fin n → β → Step α γ ω δ}
    {outs : Fin n → Except (Halt α) δ × Run α γ ω} (h : Together ss rs Q E)
    (hrun : Group.run (List.ofFn fun i => (ss i >>= f i).on (rs i)) = some (List.ofFn outs)) {i : Fin n} {d : δ}
    (hi : (outs i).1 = .ok d) (hmeets : ∀ b m out, (f i b).on m ≠ .done out) :
    ∃ bs ms, Q bs ms ∧ Results ss rs bs ms ∧
      Group.run (List.ofFn fun i => (f i (bs i)).on (ms i)) = some (List.ofFn outs) := by
  obtain ⟨cs, qs, hl, hend⟩ := together_results h
  -- A rank that had halted would have kept rank `i` from every meeting after.
  have hgoes : ∀ j halt m, qs j ≠ .done (.error halt, m) := by
    intro j halt m hj
    have hdone := (halts_of_run hl hrun hj).2 i
    cases hq : qs i with
    | call c x next =>
      rw [hq] at hdone
      cases hdone
    | done out =>
      obtain ⟨_ | b, m⟩ := out
      · rw [(halts_of_run hl hrun hq).1] at hi
        cases hi
      · rw [hq, Program.done_bind] at hdone
        exact hmeets b m _ hdone
  rcases hend with ⟨j, ⟨out, m⟩, hj, halt, rfl⟩ | ⟨_, rfl, hbs | hes⟩
  · exact absurd hj (hgoes j _ m)
  · rename_i bs ms
    exact ⟨bs, ms, hbs.1, hbs.2, (run_bind hbs.2 f).symm.trans hrun⟩
  · exact absurd rfl (hgoes i _ _)

/-- A group that comes to results has come to some in each part of its work. -/
theorem results_split {ss : Fin n → Step α γ ω β} {f : Fin n → β → Step α γ ω δ} {ds : Fin n → δ}
    {ts : Fin n → Run α γ ω} (h : Together ss rs Q E) (hrun : Results (fun i => ss i >>= f i) rs ds ts) (hn : 0 < n) :
    ∃ bs ms, Q bs ms ∧ Results ss rs bs ms ∧ Results (fun i => f i (bs i)) ms ds ts := by
  obtain ⟨cs, qs, hl, hend⟩ := together_results h
  have hgoes : ∀ j halt m, qs j ≠ .done (.error halt, m) := fun j halt m hj => by cases (halts_of_run hl hrun hj).1
  rcases hend with ⟨j, ⟨out, m⟩, hj, halt, rfl⟩ | ⟨_, rfl, hbs | hes⟩
  · exact absurd hj (hgoes j _ m)
  · exact ⟨_, _, hbs.1, hbs.2, (results_bind hbs.2).1 hrun⟩
  · exact absurd rfl (hgoes ⟨0, hn⟩ _ _)

/-- What ranks promise of their results holds of those that they come to. -/
theorem promised_of_results {bs : Fin n → β} {ts : Fin n → Run α γ ω} (h : Together ss rs Q E)
    (hrun : Results ss rs bs ts) (hn : 0 < n) : Q bs ts := by
  have hpure : Results (fun i => ss i >>= pure) rs bs ts := by simpa only [bind_pure] using hrun
  obtain ⟨bs', ms, hq, -, hdone⟩ := results_split h hpure hn
  have hyields : ∀ i, bs i = bs' i ∧ ts i = ms i := fun i => yields_pure.1 (hdone.yields i)
  obtain rfl : bs = bs' := funext fun i => (hyields i).1
  obtain rfl : ts = ms := funext fun i => (hyields i).2
  exact hq

/-- A group whose ranks have all got past quiet steps goes on from there. -/
theorem results_after {ss : Fin n → Step α γ ω β} {f : Fin n → β → Step α γ ω δ} {ds : Fin n → δ}
    {ts : Fin n → Run α γ ω} (hquiet : ∀ i, Quiet (ss i)) (hrun : Results (fun i => ss i >>= f i) rs ds ts) (hn : 0 < n) :
    ∃ (bs : Fin n → β) (ms : Fin n → Run α γ ω), (∀ i, (ss i).Yields (rs i) (bs i) (ms i)) ∧
      Results (fun i => f i (bs i)) ms ds ts := by
  have hall : Together ss rs (fun bs ms => ∀ i, (ss i).Yields (rs i) (bs i) (ms i)) fun _ _ => False :=
    together_quiet hquiet fun _ _ h => h
  obtain ⟨bs, ms, hyields, -, hrest⟩ := results_split hall hrun hn
  exact ⟨bs, ms, hyields, hrest⟩

end Inflow.Step
