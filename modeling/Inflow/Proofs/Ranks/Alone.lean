import Inflow.Proofs.Ranks.Lockstep
/-!
# A rank on its own

A group of one always comes to a result, the one of its program alone. The votes
of the rank are the meetings that its way depends on: every vote comes out as the
flag that it raises. So the rank can be followed from vote to vote, also where a
flag is not known.
-/

namespace Inflow

variable {α β : Type} [Scalar α]

namespace Program

/-- The flag that a rank on its own raises in its next vote. -/
def flag? : Program α β → Option Bool
  | done _ => none
  | call .any flag _ => some flag
  | call c x next => flag? (next (c.answer [x] 0))

/-- How a rank on its own goes on after its next vote, if that comes out as `b`. -/
def afterVote (b : Bool) : Program α β → Program α β
  | done r => done r
  | call .any _ next => next b
  | call c x next => afterVote b (next (c.answer [x] 0))

/-- A vote of one comes out as its flag. -/
theorem answer_any (flag : Bool) : Collective.answer (α := α) .any [flag] 0 = flag := Bool.or_false flag

theorem alone_of_flag {p : Program α β} {b : Bool} (h : p.flag? = some b) : p.alone = (p.afterVote b).alone := by
  induction p with
  | done r => rfl
  | call c x next ih =>
    cases c with
    | any =>
      cases h
      exact congrArg (fun reply => (next reply).alone) (answer_any _)
    | _ => exact ih _ h

/-- Whatever the flag is, the next vote comes out one way or the other. -/
theorem exists_alone_afterVote (p : Program α β) : ∃ b, p.alone = (p.afterVote b).alone := by
  cases h : p.flag? with
  | some b => exact ⟨b, alone_of_flag h⟩
  | none =>
    refine ⟨false, ?_⟩
    induction p with
    | done r => rfl
    | call c x next ih =>
      cases c with
      | any => cases h
      | _ => exact ih _ h

/-- What a rank comes to on its own is one of the results that it can have. -/
theorem can_alone (p : Program α β) : p.Can p.alone := by
  induction p with
  | done b => rfl
  | call c x next ih => exact ⟨_, ih _⟩

theorem together_nil (p : Program α β) : p.together [] = some [p.alone] := by
  induction p with
  | done b => rfl
  | call c x next ih => exact ih _

end Program

theorem Group.run_singleton (p : Program α β) : Group.run [p] = some [p.alone] := p.together_nil

end Inflow
