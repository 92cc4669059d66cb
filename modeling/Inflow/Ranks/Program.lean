import Inflow.Ranks.Collective
/-!
# Rank programs

What one rank does is a `Program`: it is done with a result, or it calls a
collective and goes on with the reply. All work between two calls is an
ordinary function, so a program says exactly which collectives a rank takes
part in, in which order, and how they depend on the replies.

Programs can be put one after the other (`Program.bind`), with the laws that
this asks for.
-/

namespace Inflow

/-- The part of one rank in a group's computation. -/
inductive Program (α β : Type) where
  | done (result : β)
  | call (c : Collective) (contribution : c.Contribution α) (next : c.Reply α → Program α β)

namespace Program

variable {α β δ : Type}

/-- First `p`, then what its result asks for. -/
def bind : Program α β → (β → Program α δ) → Program α δ
  | done b, f => f b
  | call c x next, f => call c x fun reply => (next reply).bind f

instance : Monad (Program α) where
  pure := done
  bind := bind

@[simp] theorem pure_eq_done (b : β) : (pure b : Program α β) = done b := rfl

@[simp] theorem done_bind (b : β) (f : β → Program α δ) : (done b >>= f) = f b := rfl

@[simp] theorem call_bind (c : Collective) (x : c.Contribution α) (next : c.Reply α → Program α β)
    (f : β → Program α δ) : (call c x next >>= f) = call c x fun reply => next reply >>= f := rfl

theorem bind_done (p : Program α β) : (p >>= done) = p := by
  induction p with
  | done b => rfl
  | call c x next ih => simp only [call_bind, ih]

theorem bind_assoc {ε : Type} (p : Program α β) (f : β → Program α δ) (g : δ → Program α ε) :
    (p >>= f >>= g) = p >>= fun b => f b >>= g := by
  induction p with
  | done b => rfl
  | call c x next ih => simp only [call_bind, ih]

instance : LawfulMonad (Program α) :=
  LawfulMonad.mk' (Program α) bind_done done_bind bind_assoc

/-- Takes part in one collective. -/
def meet (c : Collective) (contribution : c.Contribution α) : Program α (c.Reply α) :=
  call c contribution done

/-- Whether some rank raises its flag. -/
def any (flag : Bool) : Program α Bool := meet .any flag

def gather (value : α) : Program α (Option (List α)) := meet .gather value

def scatter (counts : Option (List Nat)) : Program α Nat := meet .scatter counts

def sumCounts (count : Nat) : Program α (Checked Nat) := meet .sumCounts count

def sumScalars (value : α) : Program α α := meet .sumScalars value

end Program
end Inflow
