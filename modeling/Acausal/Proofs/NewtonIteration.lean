-- Newton's iteration of an implicit Euler step, correction by correction. An iteration makes a number
-- of corrections that are not small and then ends in one of three ways: its limit is exhausted, a
-- matrix is singular, or one more correction is small and the step is made.
import Acausal.Solver.ImplicitEuler

namespace Acausal.ImplicitEuler

variable {α : Type} {n : Nat}

/-! ## The equation of a step -/

/-- What a step solves: where the slope at the end of the step leads back to the start. -/
structure Problem (α : Type) (n : Nat) where
  solver : LinearSolver α n
  flow : Flow α n
  start : α
  previous : Vector α n
  dt : α

variable [One α] [Add α] [Sub α] [Mul α] [Neg α]

/-- A guess less a correction. -/
def corrected (guess delta : Vector α n) : Vector α n :=
  Vector.ofFn fun i => guess.get i - delta.get i

namespace Problem

variable (p : Problem α n)

/-- The time at the end of the step. -/
def stop : α := p.start + p.dt

/-- The guess that an iteration starts from, one forward step. -/
def prediction : Vector α n :=
  Vector.ofFn fun i => p.previous.get i + p.dt * (p.flow.rate p.start p.previous).get i

/-- The scratch space once the equation is evaluated at a guess. -/
def evaluated (scratch : Scratch α n) (guess : Vector α n) : Scratch α n :=
  let slope := p.flow.rate p.stop guess
  { jacobian := p.flow.jacobian p.stop guess scratch.jacobian
    residual := Vector.ofFn fun i => guess.get i - p.previous.get i - p.dt * slope.get i
    slope := slope }

/-- The correction of a guess, if the matrix of the equation there is not singular. -/
def correction? (scratch : Scratch α n) (guess : Vector α n) : Option (Vector α n) :=
  let at_guess := p.evaluated scratch guess
  p.solver (iterationMatrix at_guess.jacobian p.dt) at_guess.residual

variable [Zero α] [LT α] [DecidableLT α] [Elementary α]

/-! ## Corrections -/

/-- Corrections that an iteration makes one after the other, none of them small, from a scratch
space and a guess to others. -/
inductive Corrects (p : Problem α n) (tolerance : α) :
    Scratch α n → Vector α n → List (Vector α n) → Scratch α n → Vector α n → Prop
  | none {scratch : Scratch α n} {guess : Vector α n} :
      p.Corrects tolerance scratch guess [] scratch guess
  | more {scratch after : Scratch α n} {guess delta last : Vector α n}
      {deltas : List (Vector α n)} (correction : p.correction? scratch guess = some delta)
      (large : ¬ size delta < tolerance)
      (later : p.Corrects tolerance (p.evaluated scratch guess) (corrected guess delta) deltas
        after last) :
      p.Corrects tolerance scratch guess (delta :: deltas) after last

/-- The last guess is the first less all corrections. -/
theorem Corrects.guess_eq {p : Problem α n} {tolerance : α} {scratch after : Scratch α n}
    {guess last : Vector α n} {deltas : List (Vector α n)}
    (h : p.Corrects tolerance scratch guess deltas after last) :
    last = deltas.foldl corrected guess := by
  induction h with
  | none => rfl
  | more correction large later ih => exact ih

/-- How an iteration with a number of corrections left ends. -/
inductive Ends (p : Problem α n) (tolerance : α) (limit left : Nat) (scratch : Scratch α n)
    (guess : Vector α n) : Advance α n (Scratch α n) → Prop
  | exhausted {deltas : List (Vector α n)} {after : Scratch α n} {last : Vector α n}
      (corrects : p.Corrects tolerance scratch guess deltas after last) (made : deltas.length = left) :
      p.Ends tolerance limit left scratch guess
        ⟨p.start, last, after, some (.notConverged limit p.stop)⟩
  | singular {deltas : List (Vector α n)} {after : Scratch α n} {last : Vector α n}
      (corrects : p.Corrects tolerance scratch guess deltas after last) (made : deltas.length < left)
      (stuck : p.correction? after last = Option.none) :
      p.Ends tolerance limit left scratch guess
        ⟨p.start, last, p.evaluated after last, some (.singularNewton p.stop)⟩
  | converged {deltas : List (Vector α n)} {after : Scratch α n} {last delta : Vector α n}
      (corrects : p.Corrects tolerance scratch guess deltas after last) (made : deltas.length < left)
      (correction : p.correction? after last = some delta) (small : size delta < tolerance) :
      p.Ends tolerance limit left scratch guess
        ⟨p.stop, corrected last delta, p.evaluated after last, Option.none⟩

/-- An iteration that has made one large correction ends as the iteration after it does. -/
theorem Ends.after_correction {p : Problem α n} {tolerance : α} {limit left : Nat}
    {scratch : Scratch α n} {guess delta : Vector α n} {a : Advance α n (Scratch α n)}
    (correction : p.correction? scratch guess = some delta) (large : ¬ size delta < tolerance)
    (h : p.Ends tolerance limit left (p.evaluated scratch guess) (corrected guess delta) a) :
    p.Ends tolerance limit (left + 1) scratch guess a := by
  cases h with
  | exhausted corrects made =>
    exact .exhausted (.more correction large corrects) (congrArg (· + 1) made)
  | singular corrects made stuck =>
    exact .singular (.more correction large corrects) (Nat.succ_lt_succ made) stuck
  | converged corrects made last small =>
    exact .converged (.more correction large corrects) (Nat.succ_lt_succ made) last small

theorem iterate_ends (tolerance : α) (limit left : Nat) (scratch : Scratch α n)
    (guess : Vector α n) :
    p.Ends tolerance limit left scratch guess
      (iterate p.solver tolerance p.flow limit p.start p.previous p.dt left scratch guess) := by
  induction left generalizing scratch guess with
  | zero => exact .exhausted .none rfl
  | succ left ih =>
    unfold iterate
    simp only
    cases correction : p.correction? scratch guess with
    | none =>
      have stuck := correction
      unfold correction? evaluated stop at stuck
      simp only [stuck]
      exact .singular .none (Nat.succ_pos left) correction
    | some delta =>
      have found := correction
      unfold correction? evaluated stop at found
      simp only [found]
      split
      · next small => exact .converged .none (Nat.succ_pos left) correction small
      · next large => exact .after_correction correction large (ih _ _)

end Problem

/-- A step is an iteration from the prediction. -/
theorem step_ends [Zero α] [LT α] [DecidableLT α] [Elementary α] (solver : LinearSolver α n)
    (tolerance : α) (limit : Nat) (flow : Flow α n) (scratch : Scratch α n) (t : α)
    (x : Vector α n) (dt : α) :
    Problem.Ends ⟨solver, flow, t, x, dt⟩ tolerance limit limit
      { scratch with slope := flow.rate t x } (Problem.prediction ⟨solver, flow, t, x, dt⟩)
      (step solver tolerance limit flow scratch t x dt) :=
  Problem.iterate_ends ⟨solver, flow, t, x, dt⟩ tolerance limit limit _ _

end Acausal.ImplicitEuler
