-- What all solvers share: a step leads from a time and a state to the next ones, or fails. A
-- solver keeps scratch space between its steps; it is part of what goes into a step and comes
-- out of it.
import Acausal.Flow

namespace Acausal

/-! ## Steps -/

/-- Why a step was not completed. -/
inductive StepError (α : Type) where
  | singularRosenbrock (time : α)
  | singularNewton (time : α)
  | notConverged (steps : Nat) (time : α)
  deriving DecidableEq, Repr

/-- Where a step leads. After a failure, time and state are those at which it was given up. -/
structure Advance (α : Type) (n : Nat) (ω : Type) where
  time : α
  state : Vector α n
  scratch : ω
  failure : Option (StepError α)

section
variable {α : Type} {n : Nat} [One α] [Add α] [Mul α] [Neg α]

/-- The unit matrix less a multiple of a Jacobian. -/
def iterationMatrix (jacobian : Matrix α n) (scale : α) : Matrix α n :=
  Matrix.ofFn fun i j =>
    let entry := jacobian.entry i j * -scale
    if i = j then entry + 1 else entry

end

end Acausal
