import Inflow.Proofs.Injector.Steps
import Inflow.Proofs.Particle.Storage
/-!
# Releasing a set, seen from one rank

What the parts of a set's work do to the run of a rank. Most of it is quiet and
edits the fresh particles only: their number changes where particles are
appended and where lost ones are removed, and nowhere else.
-/

namespace Inflow

variable {α γ ω : Type}

/-! ## Lengths -/

theorem length_of_mapM {ε β δ : Type} {f : β → Except ε δ} {xs : List β} {ys : List δ} (h : xs.mapM f = .ok ys) :
    ys.length = xs.length := (mapM_eq_ok.1 h).length_eq.symm

/-- Whatever is drawn, the results have a property. -/
def Drawing.Gives {β : Type} (d : Drawing γ β) (P : β → Prop) : Prop := ∀ s b, (d.run.run s).1 = .ok b → P b

namespace Drawing

variable {β δ : Type} {P : β → Prop} {R : δ → Prop}

theorem gives_pure {b : β} (h : P b) : Gives (pure b : Drawing γ β) P := by
  intro s b' hb
  cases hb
  exact h

theorem gives_bind {d : Drawing γ β} {f : β → Drawing γ δ} (hd : d.Gives P) (hf : ∀ b, P b → (f b).Gives R) :
    (d >>= f).Gives R := by
  intro s b hb
  rw [ExceptT.run_bind, StateT.run_bind] at hb
  cases hr : d.run.run s with
  | mk out s' =>
    rw [hr] at hb
    cases out with
    | error e => cases hb
    | ok a => exact hf a (hd s a (by rw [hr])) s' b hb

theorem gives_true (d : Drawing γ β) : d.Gives fun _ => True := fun _ _ _ => trivial

theorem gives_check {x : Checked β} (h : ∀ b, x = .ok b → P b) : Gives (check x : Drawing γ β) P :=
  fun _ b hb => h b hb

/-- Each entry of a list is drawn for on its own. -/
theorem gives_mapM {f : β → Drawing γ δ} {Q : β → δ → Prop} (hf : ∀ b, (f b).Gives (Q b)) (xs : List β) :
    (xs.mapM f).Gives (List.Forall₂ Q xs) := by
  induction xs with
  | nil => exact gives_pure .nil
  | cons x xs ih =>
    rw [List.mapM_cons]
    exact gives_bind (hf x) fun y hy => gives_bind ih fun ys hys => gives_pure (.cons hy hys)

end Drawing

namespace Release

theorem length_placeAll [Scalar α] {zone : Zone} {mesh : Mesh α} {rank : Nat} {ss : List Stretch}
    {ps placed : List (Particle α)} (h : placeAll zone mesh rank ss ps = .ok placed) : placed.length = ps.length := by
  induction ss generalizing ps placed with
  | nil => cases h; rfl
  | cons s ss ih =>
    cases ps with
    | nil => cases h; rfl
    | cons p ps =>
      obtain ⟨here, hhere, h⟩ := bind_eq_ok.1 h
      obtain ⟨rest, hrest, h⟩ := bind_eq_ok.1 h
      rw [pure_eq_ok.1 h, List.length_append, length_of_mapM hhere, ih hrest, ← List.length_append,
        List.take_append_drop]

theorem size_place [Scalar α] {zone : Zone} {index : List Nat} {mesh : Mesh α} {rank : Nat}
    {ps placed : Array (Particle α)} (h : place zone index mesh rank ps = .ok placed) : placed.size = ps.size := by
  obtain ⟨out, hout, h⟩ := bind_eq_ok.1 h
  rw [pure_eq_ok.1 h, List.size_toArray, length_placeAll hout, Array.length_toList]

/-- The particle is where it was, and it came from where it had come from. -/
structure Stays (p p' : Particle α) : Prop where
  position : p'.position = p.position
  cell : p'.cell = p.cell
  previousCell : p'.previousCell = p.previousCell
  previousRank : p'.previousRank = p.previousRank

theorem Stays.trans {p p' p'' : Particle α} (h : Stays p p') (h' : Stays p' p'') : Stays p p'' :=
  ⟨h'.position.trans h.position, h'.cell.trans h.cell, h'.previousCell.trans h.previousCell,
    h'.previousRank.trans h.previousRank⟩

theorem stays_withHeat (x : Setting α) (set : InjectionSet α) (p : Particle α) : Stays p (withHeat x set p) := by
  simp only [withHeat]
  split <;> exact ⟨rfl, rfl, rfl, rfl⟩

theorem stays_withShape (x : Setting α) (set : InjectionSet α) (p : Particle α) : Stays p (withShape x set p) := by
  simp only [withShape]
  split <;> exact ⟨rfl, rfl, rfl, rfl⟩

variable [Scalar α]

theorem stays_withCoal {x : Setting α} {set : InjectionSet α} {p p' : Particle α} (h : withCoal x set p = .ok p') :
    Stays p p' := by
  unfold withCoal at h
  split at h
  · obtain ⟨layers, -, h⟩ := bind_eq_ok.1 h
    rw [pure_eq_ok.1 h]
    exact ⟨rfl, rfl, rfl, rfl⟩
  · cases h
    exact ⟨rfl, rfl, rfl, rfl⟩

variable [Generator γ]

/-- Fresh particles get their state where they are. -/
theorem gives_initializeAll (mesh : Mesh α) (set : InjectionSet α) (dtp : α) (faces : Option (Array Nat))
    (ps : Array (Particle α)) :
    (initializeAll mesh set dtp faces ps : Drawing γ _).Gives fun ready => List.Forall₂ Stays ps.toList ready.toList := by
  have hone : ∀ entry : Particle α × Nat, (initializeOne mesh set dtp (faces.bind (·[entry.2]?)) entry.1 :
      Drawing γ _).Gives (Stays entry.1) := by
    intro entry
    refine Drawing.gives_bind (Drawing.gives_true _) fun r _ => Drawing.gives_check fun p' hp' => ?_
    obtain ⟨velocity, -, hp'⟩ := bind_eq_ok.1 hp'
    rw [pure_eq_ok.1 hp']
    exact ⟨rfl, rfl, rfl, rfl⟩
  refine Drawing.gives_bind (Drawing.gives_mapM hone _) fun ready hready => Drawing.gives_pure ?_
  rwa [← List.zipIdx_map_fst 0 ps.toList, List.forall₂_map_left_iff]

/-- Fresh particles get their attributes where they are. -/
theorem gives_attributes (x : Setting α) (set : InjectionSet α) (ps : Array (Particle α)) :
    (attributes x set ps : Drawing γ _).Gives fun ready => List.Forall₂ Stays ps.toList ready.toList := by
  have hone : ∀ p, (attributesOf x set p : Drawing γ _).Gives (Stays p) := by
    intro p
    refine Drawing.gives_bind (Drawing.gives_true _) fun velocity _ => Drawing.gives_bind (Drawing.gives_true _)
      fun diameter _ => Drawing.gives_check fun p' hp' => ?_
    have hsize : Stays p (withSize x set diameter (withFluidVelocity set velocity p)) := ⟨rfl, rfl, rfl, rfl⟩
    have hheat := stays_withHeat x set (withSize x set diameter (withFluidVelocity set velocity p))
    have hshape := stays_withShape x set (withHeat x set (withSize x set diameter (withFluidVelocity set velocity p)))
    exact ((hsize.trans hheat).trans hshape).trans (stays_withCoal hp')
  exact Drawing.gives_bind (Drawing.gives_mapM hone _) fun ready hready => Drawing.gives_pure hready

omit [Scalar α] [Generator γ] in
theorem size_of_stays {ps ready : Array (Particle α)} (h : List.Forall₂ Stays ps.toList ready.toList) :
    ready.size = ps.size := h.length_eq.symm

end Release

end Inflow
