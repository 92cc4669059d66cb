import Inflow.Proofs.Injector.Life
/-!
# What surroundings leave alone

Hooks and trackers may change any record they are given. What they leave alone of
every particle is the same before and after them, and so for each particle through
the stages of its set.
-/

namespace Inflow

variable {α γ ω : Type}

/-- Whatever a hook does to particles, `f` stays the same of each. -/
def Hook.Preserves {δ : Type} (hook : Hook α ω) (f : Particle α → δ) : Prop :=
  ∀ {n : Nat} (call : HookCall α) (ps v : Vector (Particle α) n) (outside : ω),
    (hook call ps outside).1 = .ok v → v.map f = ps.map f

/-- A hook that does nothing preserves everything. -/
theorem Hook.preserves_idle {δ : Type} (f : Particle α → δ) : Hook.Preserves (fun _ ps w => (.ok ps, w) : Hook α ω) f := by
  intro n call ps v outside hv
  cases hv
  rfl

/-- Whatever a tracker does to particles, `f` stays the same of each. -/
def Tracker.Preserves {δ : Type} (tracker : Tracker α ω) (f : Particle α → δ) : Prop :=
  ∀ {n : Nat} (mesh : Mesh α) (ps : Vector (Particle α) n) (sublayer : Array α) (outside : ω),
    (tracker.relocate mesh ps sublayer outside).1.1.map f = ps.map f

/-- The tracker that goes by the position alone preserves what does not depend on the cell. -/
theorem Tracker.preserves_byPosition [Scalar α] {δ : Type} {f : Particle α → δ}
    (hf : ∀ (p : Particle α) (cell : Nat), f { p with cell } = f p) : Tracker.Preserves .byPosition f := by
  intro n mesh ps sublayer outside
  have hhost : ∀ p, f (mesh.host p) = f p := by
    intro p
    unfold Mesh.host
    split
    · exact hf p _
    · rfl
  exact Vector.map_map.trans (congrArg ps.map (funext hhost))

namespace Injector

theorem Edited.map_eq {δ : Type} {f : Particle α → δ} {hook : Hook α ω} {call : HookCall α}
    {ps edited : Array (Particle α)} (h : Edited hook call ps edited) (hf : Hook.Preserves hook f) :
    edited.map f = ps.map f := by
  obtain ⟨outside, v, hv, rfl⟩ := h
  have hmap := congrArg Vector.toArray (hf call ps.toVector v outside hv)
  rwa [Vector.toArray_map, Vector.toArray_map] at hmap

theorem Relocated.map_eq {δ : Type} {f : Particle α → δ} {env : Surroundings α ω} {ps located : Array (Particle α)}
    {lost : List Nat} (h : Relocated env ps located lost) (hf : Tracker.Preserves env.tracker f) :
    located.map f = ps.map f := by
  obtain ⟨before, after, v, hv, rfl⟩ := h
  have hmap := congrArg Vector.toArray (hf env.mesh ps.toVector env.sublayer before)
  rwa [hv, Vector.toArray_map, Vector.toArray_map] at hmap

theorem eq_of_map_eq {β δ : Type} {f : β → δ} {xs ys : Array β} (h : ys.map f = xs.map f) {k : Nat} {x y : β}
    (hx : xs[k]? = some x) (hy : ys[k]? = some y) : f y = f x := by
  have hentry := congrArg (·[k]?) h
  simpa only [Array.getElem?_map, hx, hy, Option.map_some, Option.some.injEq] using hentry

variable {env : Surroundings α ω} {q : Request α} {w : Passage α}

theorem Traces.arrived {j : Nat} {l : Life α} (h : Traces env q w j l) :
    (w.arrived env.seat.rank)[l.origin]? = some (afterMove env.seat.rank l.ready l.moved) := by
  rw [Passage.arrived, Array.getElem?_zipWith, h.ready, h.moved]

variable [Scalar α] [Generator γ]

/-- Whether or not particles were looked up, the tracker has left alone what it always leaves alone. -/
theorem Passage.Follows.located_eq {δ : Type} {f : Particle α → δ} {x : Release.Setting α}
    (h : w.Follows γ env x q) (hf : Tracker.Preserves env.tracker f) :
    w.located.map f = (w.arrived env.seat.rank).map f := by
  rcases h.located with ⟨hsame, -⟩ | hrelocated
  · rw [hsame]
  · exact hrelocated.map_eq hf

end Injector
end Inflow
