import Inflow.Injector.Set
import Inflow.Proofs.Injector.Steps
/-!
# What a step upholds

`Step.Upholds` says of a property of runs that it holds wherever a step comes to, be
it a result, an error or a fault. There is one rule for each way of putting
steps together, and for each part that changes a run in one way only.
-/

namespace Inflow

variable {α γ ω β δ : Type}

namespace Step

variable {P : Run α γ ω → Prop} {r : Run α γ ω}

/-- Wherever a step that begins in the run `r` comes to, even where it halts, the run is in `P`. -/
@[irreducible] def Upholds (P : Run α γ ω → Prop) (s : Step α γ ω β) (r : Run α γ ω) : Prop :=
  ∀ out r', (s.on r).Can (out, r') → P r'

theorem Upholds.of_can {s : Step α γ ω β} (h : s.Upholds P r) {out : Except (Halt α) β} {r' : Run α γ ω}
    (hcan : (s.on r).Can (out, r')) : P r' := by
  unfold Upholds at h
  exact h out r' hcan

theorem upholds_congr {s s' : Step α γ ω β} (h : s.on r = s'.on r) (hs : s'.Upholds P r) : s.Upholds P r := by
  unfold Upholds at *
  rwa [h]

theorem upholds_of_done {s : Step α γ ω β} {out : Except (Halt α) β × Run α γ ω} (hs : s.on r = .done out)
    (h : P out.2) : s.Upholds P r := by
  unfold Upholds
  intro b r' hcan
  rw [hs, Program.can_done] at hcan
  rwa [← hcan] at h

theorem upholds_pure (b : β) (h : P r) : (pure b : Step α γ ω β).Upholds P r := upholds_of_done rfl h

theorem upholds_throw (halt : Halt α) (h : P r) : (throw halt : Step α γ ω β).Upholds P r := upholds_of_done rfl h

theorem upholds_modify {f : Run α γ ω → Run α γ ω} (h : P (f r)) : (modify f : Step α γ ω Unit).Upholds P r :=
  upholds_of_done rfl h

theorem upholds_check (x : Checked β) (h : P r) : (check x : Step α γ ω β).Upholds P r := by
  cases x with
  | error f => exact upholds_throw _ h
  | ok b => exact upholds_pure b h

theorem upholds_meet (p : Program α β) (h : P r) : (meet p : Step α γ ω β).Upholds P r := by
  unfold Upholds
  intro out r' hcan
  rw [on_meet, Program.can_bind] at hcan
  obtain ⟨b, -, hb⟩ := hcan
  rw [Program.can_done, Prod.mk.injEq] at hb
  rwa [hb.2]

theorem upholds_agree (place : Place) (own : Except (InjectionError α) β) (h : P r) :
    (agree place own : Step α γ ω β).Upholds P r := by
  unfold Upholds
  rintro out r' hcan
  rw [on_agree] at hcan
  obtain ⟨someoneFailed, hout⟩ := hcan
  rw [Program.can_done, Prod.mk.injEq] at hout
  rwa [hout.2]

/-- A step upholds what its second part does, wherever the first has led. -/
theorem upholds_bind {s : Step α γ ω β} {f : β → Step α γ ω δ} (hs : s.Upholds P r)
    (hf : ∀ b m, s.Yields r b m → P m → (f b).Upholds P m) : (s >>= f).Upholds P r := by
  unfold Upholds
  intro out r' hcan
  rw [on_bind, Program.can_bind] at hcan
  obtain ⟨⟨halt | b, m⟩, hm, hcan⟩ := hcan
  · rw [andThen, Program.can_done, Prod.mk.injEq] at hcan
    rw [hcan.2]
    exact hs.of_can hm
  · exact (hf b m (yields_of_can hm) (hs.of_can hm)).of_can hcan

/-! The same for the parts that leave the run alone, or change it in one way only. -/

theorem upholds_get_bind {f : Run α γ ω → Step α γ ω δ} (hf : (f r).Upholds P r) : (get >>= f).Upholds P r :=
  upholds_congr (by rw [on_bind, on_get, Program.done_bind, andThen]) hf

theorem upholds_modify_bind {g : Run α γ ω → Run α γ ω} {f : Unit → Step α γ ω δ} (hf : (f ()).Upholds P (g r)) :
    (modify g >>= f).Upholds P r := by
  unfold Upholds at *
  rwa [on_bind, on_modify, Program.done_bind, andThen]

theorem upholds_check_bind {x : Checked β} {f : β → Step α γ ω δ} (h : P r)
    (hf : ∀ b, x = .ok b → (f b).Upholds P r) : (check x >>= f).Upholds P r := by
  refine upholds_bind (upholds_check x h) fun b m hb _ => ?_
  obtain ⟨hx, rfl⟩ := yields_check.1 hb
  exact hf b hx

theorem upholds_meet_bind {p : Program α β} {f : β → Step α γ ω δ} (h : P r) (hf : ∀ b, (f b).Upholds P r) :
    (meet p >>= f).Upholds P r := by
  refine upholds_bind (upholds_meet p h) fun b m hb _ => ?_
  obtain ⟨-, rfl⟩ := yields_meet.1 hb
  exact hf b

theorem upholds_agree_bind {place : Place} {own : Except (InjectionError α) β} {f : β → Step α γ ω δ} (h : P r)
    (hf : ∀ b, own = .ok b → (f b).Upholds P r) : (agree place own >>= f).Upholds P r := by
  refine upholds_bind (upholds_agree place own h) fun b m hb _ => ?_
  obtain ⟨hown, rfl⟩ := yields_agree.1 hb
  exact hf b hown

/-- Drawing changes the stream, whatever comes of it. -/
theorem upholds_draw_bind {d : Drawing γ β} {f : β → Step α γ ω δ}
    (h : ∀ stream, P { r with injector := { r.injector with stream } })
    (hf : ∀ b stream, (f b).Upholds P { r with injector := { r.injector with stream } }) :
    (draw d >>= f).Upholds P r := by
  rw [draw, bind_assoc]
  refine upholds_get_bind ?_
  rcases d.run.run r.injector.stream with ⟨result, stream⟩
  rw [bind_assoc]
  exact upholds_modify_bind (upholds_check_bind (h stream) fun b _ => hf b stream)

end Step

namespace Injector

open Step

variable {P : Run α γ ω → Prop} {r : Run α γ ω}

theorem upholds_fresh_bind {start : Nat} {f : Array (Particle α) → Step α γ ω δ}
    (hf : (f (r.injector.population.tail start)).Upholds P r) : (fresh start >>= f).Upholds P r := by
  rw [fresh, bind_assoc]
  exact upholds_get_bind hf

/-- A hook may do anything to what is outside, and what it does to particles does not show in the run. -/
theorem upholds_runHook_bind {hook : Hook α ω} {call : HookCall α} {ps : Array (Particle α)}
    {f : Array (Particle α) → Step α γ ω δ} (h : ∀ outside, P { r with outside })
    (hf : ∀ ps outside, (f ps).Upholds P { r with outside }) : (runHook hook call ps >>= f).Upholds P r := by
  rw [runHook, bind_assoc]
  refine upholds_get_bind ?_
  simp only [bind_assoc]
  exact upholds_modify_bind (upholds_check_bind (h _) fun _ _ => hf _ _)

end Injector
end Inflow
