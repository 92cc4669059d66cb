import Inflow.Proofs.Apportion.Group
import Inflow.Proofs.Injector.Release
/-!
# How many draws are taken

A drawing that comes to a result has taken a number of draws that does not depend
on the values drawn. So the draws of every part of a release can be counted: one
for each particle shared out or laid out, one for its state, and two for its
diameter if that is spread.
-/

namespace Inflow

variable {α γ : Type}

/-! ## Drawings -/

namespace Drawing

variable {β δ : Type}

/-- Whatever is drawn, a result costs `k` draws. -/
def Takes (d : Drawing γ β) (k : Nat) : Prop :=
  ∀ s b, (d.run.run s).1 = .ok b → (d.run.run s).2.draws = s.draws + k

theorem takes_pure (b : β) : Takes (pure b : Drawing γ β) 0 := fun _ _ _ => rfl

theorem takes_check (x : Checked β) : Takes (check x : Drawing γ β) 0 := fun _ _ _ => rfl

theorem takes_bind {d : Drawing γ β} {f : β → Drawing γ δ} {k m : Nat} (hd : d.Takes k) (hf : ∀ b, (f b).Takes m) :
    (d >>= f).Takes (k + m) := by
  intro s b hb
  rw [ExceptT.run_bind, StateT.run_bind] at hb ⊢
  cases hr : d.run.run s with
  | mk out s' =>
    rw [hr] at hb
    cases out with
    | error e => cases hb
    | ok a =>
      have hfirst := hd s a (by rw [hr])
      rw [hr] at hfirst
      rw [← Nat.add_assoc, ← hfirst]
      exact hf a s' b hb

/-- Each entry of a list costs the same. -/
theorem takes_mapM {f : β → Drawing γ δ} {k : Nat} (hf : ∀ b, (f b).Takes k) (xs : List β) :
    (xs.mapM f).Takes (xs.length * k) := by
  induction xs with
  | nil => exact Nat.zero_mul k ▸ takes_pure []
  | cons x xs ih =>
    rw [List.mapM_cons, List.length_cons, Nat.succ_mul, Nat.add_comm]
    exact takes_bind (hf x) fun y => takes_bind ih fun ys => takes_pure _

variable [Scalar α] [Generator γ]

theorem takes_uniform : (uniform : Drawing γ α).Takes 1 := fun _ _ _ => rfl

theorem takes_normal : (normal : Drawing γ α).Takes 2 := fun _ _ _ => rfl

end Drawing

/-! ## Sharing out and laying out -/

variable [Scalar α] [Generator γ]

/-- A tally takes one draw for each particle. -/
theorem Tally.draws_draw (n : Nat) (t : Tally α γ) : (Tally.draw n t).stream.draws = t.stream.draws + n := by
  induction n generalizing t with
  | zero => rfl
  | succ n ih =>
    rw [draw, ih, Nat.add_comm n 1, ← Nat.add_assoc]
    rfl

namespace Apportion

theorem draws_drawShares (n : Nat) (ws : List α) (s : RandomStream γ) :
    (drawShares n ws s).2.1.draws = s.draws + if 0 < (Cumulative.ofWeights ws).total then n else 0 := by
  by_cases h : 0 < (Cumulative.ofWeights ws).total
  · simp only [drawShares, if_pos h]
    exact Tally.draws_draw n _
  · simp only [drawShares, if_neg h]
    rfl

/-- Laying particles out takes one draw for each of them. -/
theorem draws_overElements (n : Nat) (c : Cumulative α) (s : RandomStream γ) :
    (overElements n c s).stream.draws = s.draws + (overElements n c s).placed := by
  rw [placed_overElements]
  exact Tally.draws_draw _ _

variable {ranks : Nat}

/-- The draws by which a rank shares particles out over the group: one for each
particle on the coordinator of several ranks with a positive weight, none elsewhere. -/
def shareDraws (n : Nat) (weights : Fin ranks → α) (i : Fin ranks) : Nat :=
  if 2 ≤ ranks ∧ (i : Nat) = 0 ∧ 0 < (Cumulative.ofWeights (List.ofFn weights)).total then n else 0

theorem draws_rankShare (n : Nat) (weights : Fin ranks → α) (streams : Fin ranks → RandomStream γ) (i : Fin ranks) :
    (rankShare n weights streams i).stream.draws = (streams i).draws + shareDraws n weights i := by
  unfold rankShare shareFrom seen shareDraws
  by_cases hone : ranks ≤ 1
  · rw [if_pos hone, if_neg (by omega)]
    rfl
  · rw [if_neg hone]
    by_cases hfirst : (i : Nat) = 0
    · simp only [if_pos hfirst]
      rw [draws_drawShares]
      simp only [show 2 ≤ ranks by omega, hfirst, true_and]
    · rw [if_neg hfirst, if_neg fun h => hfirst h.2.1]
      rfl

theorem draws_rankLayout (n : Nat) (tables : Fin ranks → Cumulative α) (streams : Fin ranks → RandomStream γ)
    (i : Fin ranks) : (rankLayout n tables streams i).stream.draws =
      (streams i).draws + shareDraws n (fun j => (tables j).total) i + (rankLayout n tables streams i).placed := by
  rw [← draws_rankShare]
  exact draws_overElements _ _ _

end Apportion

/-! ## State and attributes -/

namespace Release

theorem takes_initializeAll (mesh : Mesh α) (set : InjectionSet α) (dtp : α) (faces : Option (Array Nat))
    (ps : Array (Particle α)) : (initializeAll mesh set dtp faces ps : Drawing γ _).Takes ps.size := by
  have hone : ∀ entry : Particle α × Nat,
      (initializeOne mesh set dtp (faces.bind (·[entry.2]?)) entry.1 : Drawing γ _).Takes 1 :=
    fun _ => Drawing.takes_bind Drawing.takes_uniform fun _ => Drawing.takes_check _
  have hall := Drawing.takes_bind (Drawing.takes_mapM hone ps.toList.zipIdx) fun ready =>
    Drawing.takes_pure ready.toArray
  rwa [List.length_zipIdx, Nat.mul_one, Array.length_toList] at hall

/-- The draws that the diameter of each particle of a set takes. -/
def diameterDraws (set : InjectionSet α) : Nat := if 0 < set.diameterDeviation then 2 else 0

theorem takes_diameter (set : InjectionSet α) : (diameter set : Drawing γ α).Takes (diameterDraws set) := by
  unfold diameter diameterDraws
  split
  · exact Drawing.takes_bind Drawing.takes_normal fun _ => Drawing.takes_check _
  · exact Drawing.takes_pure _

theorem takes_attributes (x : Setting α) (set : InjectionSet α) (ps : Array (Particle α)) :
    (attributes x set ps : Drawing γ _).Takes (ps.size * diameterDraws set) := by
  have hone : ∀ p, (attributesOf x set p : Drawing γ _).Takes (diameterDraws set) := by
    intro p
    have hsum := Drawing.takes_bind (Drawing.takes_check (γ := γ) (x.fluid.velocity p.cell x.level)) fun velocity =>
      Drawing.takes_bind (takes_diameter (γ := γ) set) fun diameter => Drawing.takes_check
        (withCoal x set (withShape x set (withHeat x set (withSize x set diameter (withFluidVelocity set velocity p)))))
    rwa [Nat.add_zero, Nat.zero_add] at hsum
  exact Drawing.takes_bind (Drawing.takes_mapM hone ps.toList) fun ready => Drawing.takes_pure ready.toArray

end Release
end Inflow
