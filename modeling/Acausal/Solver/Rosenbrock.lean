-- The Rosenbrock method of two stages, for stiff flows. With `W` the unit matrix less
-- `gamma * dt` times the Jacobian, the first stage solves `W k = f` and the second the same
-- matrix for the slope at the end of the step less twice the first stage.
import Acausal.Linear.Solve
import Acausal.Solver.Basic

namespace Acausal.Rosenbrock

/-- The Jacobian, the slopes at both ends and the state at the second. -/
structure Scratch (α : Type) (n : Nat) where
  jacobian : Matrix α n
  first : Vector α n
  second : Vector α n
  probe : Vector α n

variable {α : Type} {n : Nat} [Zero α]

def Scratch.fresh : Scratch α n :=
  ⟨.replicate n (.replicate n 0), .replicate n 0, .replicate n 0, .replicate n 0⟩

variable [One α] [Add α] [Sub α] [Mul α] [Neg α] [OfScientific α]

/-- A step, which fails where the iteration matrix is singular and then changes nothing. -/
def step (solver : LinearSolver α n) (gamma : α) (flow : Flow α n) (scratch : Scratch α n)
    (t : α) (x : Vector α n) (dt : α) : Advance α n (Scratch α n) :=
  let scratch := { scratch with jacobian := flow.jacobian t x scratch.jacobian }
  let solve := solver (iterationMatrix scratch.jacobian (gamma * dt))
  let scratch := { scratch with first := flow.rate t x }
  match solve scratch.first with
  | none => ⟨t, x, scratch, some (.singularRosenbrock t)⟩
  | some k1 =>
    let scratch := { scratch with probe := Vector.ofFn fun i => x.get i + dt * k1.get i }
    let slope := flow.rate (t + dt) scratch.probe
    let scratch := { scratch with second := Vector.ofFn fun i => slope.get i - 2.0 * k1.get i }
    match solve scratch.second with
    | none => ⟨t, x, scratch, some (.singularRosenbrock t)⟩
    | some k2 =>
      ⟨t + dt, Vector.ofFn fun i => x.get i + dt * (1.5 * k1.get i + 0.5 * k2.get i), scratch, none⟩

end Acausal.Rosenbrock
