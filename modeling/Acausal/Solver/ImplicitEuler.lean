-- The implicit Euler method. The state at the end of a step is the one whose slope there leads
-- back to the start; it is found by Newton's iteration from a forward guess, and counts as
-- found when the last correction is small in every component.
import Acausal.Linear.Solve
import Acausal.Solver.Basic

namespace Acausal.ImplicitEuler

/-- The Jacobian, what the guess misses the equation by, and the slope at the guess. -/
structure Scratch (α : Type) (n : Nat) where
  jacobian : Matrix α n
  residual : Vector α n
  slope : Vector α n

variable {α : Type} {n : Nat} [Zero α]

def Scratch.fresh : Scratch α n :=
  ⟨.replicate n (.replicate n 0), .replicate n 0, .replicate n 0⟩

variable [One α] [Add α] [Sub α] [Mul α] [Neg α] [LT α] [DecidableLT α] [Elementary α]

/-- The largest absolute value in a correction; what compares with nothing is passed over. -/
def size (delta : Vector α n) : α :=
  delta.toList.foldl (fun largest d =>
    if largest < Elementary.abs d then Elementary.abs d else largest) 0

/-- Newton's iteration with a number of corrections left. A failure leaves the guess where
the last correction took it. -/
def iterate (solver : LinearSolver α n) (tolerance : α) (flow : Flow α n) (limit : Nat)
    (start : α) (previous : Vector α n) (dt : α) :
    Nat → Scratch α n → Vector α n → Advance α n (Scratch α n)
  | 0, scratch, guess => ⟨start, guess, scratch, some (.notConverged limit (start + dt))⟩
  | left + 1, scratch, guess =>
    let slope := flow.rate (start + dt) guess
    let residual := Vector.ofFn fun i => guess.get i - previous.get i - dt * slope.get i
    let jacobian := flow.jacobian (start + dt) guess scratch.jacobian
    let scratch : Scratch α n := ⟨jacobian, residual, slope⟩
    match solver (iterationMatrix jacobian dt) residual with
    | none => ⟨start, guess, scratch, some (.singularNewton (start + dt))⟩
    | some delta =>
      let guess := Vector.ofFn fun i => guess.get i - delta.get i
      if size delta < tolerance then ⟨start + dt, guess, scratch, none⟩
      else iterate solver tolerance flow limit start previous dt left scratch guess

/-- A step of at most `limit` corrections. -/
def step (solver : LinearSolver α n) (tolerance : α) (limit : Nat) (flow : Flow α n)
    (scratch : Scratch α n) (t : α) (x : Vector α n) (dt : α) : Advance α n (Scratch α n) :=
  let slope := flow.rate t x
  let guess := Vector.ofFn fun i => x.get i + dt * slope.get i
  iterate solver tolerance flow limit t x dt limit { scratch with slope := slope } guess

end Acausal.ImplicitEuler
