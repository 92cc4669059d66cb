import Inflow.Proofs.Injector.Release
/-!
# The faults that a step can stop at

A step stops at a fault when one of its parts does. So what all faults of a step
have in common is shown part by part: `Drawing.FailsIn` is for computations that
draw, and `Step.StopsIn` for steps, with one rule for each way of putting them
together. What goes before a part is known by the results it can have.
-/

namespace Inflow

variable {α γ ω β δ : Type}

/-! ## Draws -/

namespace Drawing

variable {P : Fault → Prop} {d : Drawing γ β}

/-- Whatever is drawn, the computation stops at no fault but those in `P`. -/
@[irreducible] def FailsIn (P : Fault → Prop) (d : Drawing γ β) : Prop := ∀ s f, (d.run.run s).1 = .error f → P f

theorem failsIn_pure (b : β) : FailsIn P (pure b : Drawing γ β) := by
  unfold FailsIn
  intro s f hf
  cases hf

theorem failsIn_check {x : Checked β} (h : ∀ f, x = .error f → P f) : FailsIn P (check x : Drawing γ β) := by
  unfold FailsIn
  intro s f hf
  exact h f hf

theorem failsIn_bind {f : β → Drawing γ δ} (hd : d.FailsIn P) (hf : ∀ b, (f b).FailsIn P) : (d >>= f).FailsIn P := by
  unfold FailsIn at *
  intro s e he
  rw [ExceptT.run_bind, StateT.run_bind] at he
  cases hr : d.run.run s with
  | mk out s' =>
    rw [hr] at he
    cases out with
    | error e' =>
      cases he
      exact hd s _ (by rw [hr])
    | ok b => exact hf b s' e he

theorem failsIn_mapM {f : β → Drawing γ δ} {xs : List β} (h : ∀ x ∈ xs, (f x).FailsIn P) : (xs.mapM f).FailsIn P := by
  induction xs with
  | nil => exact failsIn_pure _
  | cons x xs ih =>
    rw [List.mapM_cons]
    apply failsIn_bind (h x List.mem_cons_self)
    intro y
    apply failsIn_bind (ih fun z hz => h z (List.mem_cons_of_mem x hz))
    intro ys
    exact failsIn_pure _

variable [Scalar α] [Generator γ]

theorem failsIn_uniform : FailsIn P (uniform : Drawing γ α) := by
  unfold FailsIn
  intro s f hf
  cases hf

theorem failsIn_normal : FailsIn P (normal : Drawing γ α) := by
  unfold FailsIn
  intro s f hf
  cases hf

end Drawing

/-! ## Steps -/

namespace Step

variable [Scalar α] {P : Fault → Run α γ ω → Prop} {s : Step α γ ω β} {r : Run α γ ω}

/-- A step that begins in the run `r` stops, in whatever group, at no faults but
those in `P`, which also says of the run in which they are met. -/
@[irreducible] def StopsIn (P : Fault → Run α γ ω → Prop) (s : Step α γ ω β) (r : Run α γ ω) : Prop :=
  ∀ f r', (s.on r).Comes (.error (.fault f), r') → P f r'

theorem stopsIn_of_done {out : Except (Halt α) β × Run α γ ω} (h : s.on r = .done out)
    (hout : ∀ f, out.1 = .error (.fault f) → P f out.2) : s.StopsIn P r := by
  unfold StopsIn
  intro f r' hf
  rw [h, Program.comes_done] at hf
  have hfault := hout f (congrArg Prod.fst hf).symm
  rwa [← hf] at hfault

theorem stopsIn_congr {s' : Step α γ ω β} (h : s.on r = s'.on r) : s.StopsIn P r ↔ s'.StopsIn P r := by
  rw [StopsIn, StopsIn, h]

theorem stopsIn_pure (b : β) : (pure b : Step α γ ω β).StopsIn P r :=
  stopsIn_of_done (on_pure b r) (by simp)

theorem stopsIn_get : (get : Step α γ ω (Run α γ ω)).StopsIn P r := stopsIn_of_done (on_get r) (by simp)

theorem stopsIn_modify (f : Run α γ ω → Run α γ ω) : (modify f : Step α γ ω Unit).StopsIn P r :=
  stopsIn_of_done (on_modify f r) (by simp)

theorem stopsIn_updateInjector (f : Injector α γ → Injector α γ) :
    (updateInjector f : Step α γ ω Unit).StopsIn P r := stopsIn_modify _

theorem stopsIn_say (messages : List Message) : (say messages : Step α γ ω Unit).StopsIn P r := stopsIn_modify _

theorem stopsIn_setStream (stream : RandomStream γ) : (setStream stream : Step α γ ω Unit).StopsIn P r :=
  stopsIn_modify _

theorem stopsIn_setPopulation (population : Population α) :
    (setPopulation population : Step α γ ω Unit).StopsIn P r := stopsIn_modify _

theorem stopsIn_fault {f : Fault} (h : P f r) : (throw (.fault f) : Step α γ ω β).StopsIn P r := by
  apply stopsIn_of_done (on_throw _ r)
  intro f' hf'
  cases hf'
  exact h

theorem stopsIn_check {x : Checked β} (h : ∀ f, x = .error f → P f r) : (check x : Step α γ ω β).StopsIn P r := by
  cases x with
  | ok b => exact stopsIn_pure b
  | error f => exact stopsIn_fault (h f rfl)

theorem stopsIn_meet (p : Program α β) : (meet p : Step α γ ω β).StopsIn P r := by
  unfold StopsIn
  intro f r' hf
  rw [on_meet, Program.comes_bind] at hf
  obtain ⟨b, -, hf⟩ := hf
  cases hf

theorem stopsIn_agree (place : Place) (own : Except (InjectionError α) β) :
    (agree place own : Step α γ ω β).StopsIn P r := by
  unfold StopsIn
  intro f r' hf
  rw [on_agree] at hf
  obtain ⟨contributions, rank, hf⟩ := hf
  have hverdict := congrArg Prod.fst hf
  simp only [verdict] at hverdict
  split at hverdict
  · cases hverdict
  · split at hverdict <;> cases hverdict

/-- A step stops in its first part, or in the second after a result of the first. -/
theorem stopsIn_bind {f : β → Step α γ ω δ} (hs : s.StopsIn P r) (hf : ∀ b m, s.Yields r b m → (f b).StopsIn P m) :
    (s >>= f).StopsIn P r := by
  unfold StopsIn at *
  intro fault r' h
  rw [on_bind, Program.comes_bind] at h
  obtain ⟨⟨_ | b, m⟩, hfirst, hthen⟩ := h
  · cases hthen
    exact hs fault _ hfirst
  · exact hf b m (yields_of_can hfirst.can) fault r' hthen

theorem stopsIn_draw {d : Drawing γ β} {Q : Fault → Prop} (hd : d.FailsIn Q) (hq : ∀ f m, Q f → P f m) :
    (draw d : Step α γ ω β).StopsIn P r := by
  unfold draw
  apply stopsIn_bind stopsIn_get
  intro b m hget
  apply stopsIn_bind (stopsIn_setStream _)
  intro _ m' _
  apply stopsIn_check
  intro f hf
  unfold Drawing.FailsIn at hd
  exact hq f m' (hd _ f hf)

/-- Wherever a group has come in lockstep, a rank that has stopped has done so at one of its faults. -/
theorem StopsIn.of_lockstep {ranks : Nat} {ss : Fin ranks → Step α γ ω β} {rs : Fin ranks → Run α γ ω}
    {cs : List Collective} {ps : Fin ranks → Program α (Except (Halt α) β × Run α γ ω)}
    (hl : Lockstep cs (fun i => (ss i).on (rs i)) ps) {i : Fin ranks} (hi : (ss i).StopsIn P (rs i)) {f : Fault}
    {r' : Run α γ ω} (hp : ps i = .done (.error (.fault f), r')) : P f r' := by
  unfold StopsIn at hi
  apply hi
  apply hl.comes
  rw [hp, Program.comes_done]

end Step
end Inflow
