-- What a step that fails leaves behind. An explicit step never fails, and a Rosenbrock step that
-- does changes neither time nor state. An implicit Euler step keeps the time, but the state is
-- left at the last guess: the forward prediction less every correction that was made.
import Acausal.Proofs.NewtonIteration
import Acausal.Integrate
import Acausal.System.Compile

namespace Acausal

variable {α : Type} {n : Nat}

/-- A failed step is where it was before. -/
def Advance.Untraced {ω : Type} (a : Advance α n ω) (t : α) (x : Vector α n) : Prop :=
  a.failure ≠ none → a.time = t ∧ a.state = x

namespace Rosenbrock

variable [One α] [Add α] [Sub α] [Mul α] [Neg α] [OfScientific α]

/-- A step is made where both stages are found, and is given up at its start where one is not. -/
theorem step_cases (solver : LinearSolver α n) (gamma : α) (flow : Flow α n)
    (scratch : Scratch α n) (t : α) (x : Vector α n) (dt : α) :
    let a := step solver gamma flow scratch t x dt
    (a.failure = none ∧ a.time = t + dt) ∨
      (a.failure = some (.singularRosenbrock t) ∧ a.time = t ∧ a.state = x) := by
  unfold step
  simp only
  split
  · exact .inr ⟨rfl, rfl, rfl⟩
  · split
    · exact .inr ⟨rfl, rfl, rfl⟩
    · exact .inl ⟨rfl, rfl⟩

theorem step_untraced (solver : LinearSolver α n) (gamma : α) (flow : Flow α n)
    (scratch : Scratch α n) (t : α) (x : Vector α n) (dt : α) :
    (step solver gamma flow scratch t x dt).Untraced t x := by
  intro failed
  obtain made | stuck := step_cases solver gamma flow scratch t x dt
  · exact absurd made.1 failed
  · exact stuck.2

end Rosenbrock

namespace ImplicitEuler.Problem

variable [One α] [Add α] [Sub α] [Mul α] [Neg α] [Zero α] [LT α] [DecidableLT α] [Elementary α]

/-- An iteration that fails stays at its start in time and at its last guess in state. -/
theorem Ends.abandoned {p : Problem α n} {tolerance : α} {limit left : Nat} {scratch : Scratch α n}
    {guess : Vector α n} {a : Advance α n (Scratch α n)}
    (h : p.Ends tolerance limit left scratch guess a) (failed : a.failure ≠ none) :
    a.time = p.start ∧ ∃ deltas after, p.Corrects tolerance scratch guess deltas after a.state ∧
      deltas.length ≤ left ∧ a.state = deltas.foldl corrected guess := by
  cases h with
  | exhausted corrects made => exact ⟨rfl, _, _, corrects, Nat.le_of_eq made, corrects.guess_eq⟩
  | singular corrects made stuck => exact ⟨rfl, _, _, corrects, Nat.le_of_lt made, corrects.guess_eq⟩
  | converged corrects made correction small => exact absurd rfl failed

end ImplicitEuler.Problem

/-- An explicit step does not fail, a Rosenbrock step that fails leaves time and state as they were,
and an implicit Euler step that fails leaves the time, and as the state its prediction less the
corrections it made. -/
theorem failed_steps_leave_corrected_predictions [Zero α] [One α] [Add α] [Sub α] [Mul α]
    [Neg α] [OfScientific α] [LT α] [DecidableLT α] [Elementary α] (flow : Flow α n) (t : α)
    (x : Vector α n) (dt : α) :
    (∀ (s : Nat) (tableau : Tableau α s) (scratch : RungeKutta.Scratch α n s),
      (RungeKutta.step tableau flow scratch t x dt).failure = none) ∧
    (∀ (solver : LinearSolver α n) (gamma : α) (scratch : Rosenbrock.Scratch α n),
      (Rosenbrock.step solver gamma flow scratch t x dt).Untraced t x) ∧
    ∀ (solver : LinearSolver α n) (tolerance : α) (limit : Nat)
      (scratch : ImplicitEuler.Scratch α n),
      let problem : ImplicitEuler.Problem α n := ⟨solver, flow, t, x, dt⟩
      let a := ImplicitEuler.step solver tolerance limit flow scratch t x dt
      a.failure ≠ none →
        a.time = t ∧ ∃ deltas after,
          problem.Corrects tolerance { scratch with slope := flow.rate t x } problem.prediction
            deltas after a.state ∧
          deltas.length ≤ limit ∧
          a.state = deltas.foldl ImplicitEuler.corrected problem.prediction := by
  refine ⟨fun _ _ _ => rfl, fun solver gamma scratch => ?_, fun solver tolerance limit scratch => ?_⟩
  · exact Rosenbrock.step_untraced solver gamma flow scratch t x dt
  · exact (ImplicitEuler.step_ends solver tolerance limit flow scratch t x dt).abandoned

/-- A stock that grows at the rate of its own size. -/
def growth : FlatModel Float where
  name := "Growth"
  parameters := []
  unknowns := [⟨"x", none, some (.number 1)⟩]
  equations := [⟨.der ⟨"x", none⟩, .ref ⟨"x", none⟩⟩]

def compiledGrowth : CompiledModel Float where
  name := "Growth"
  states := [⟨"x", 1, [.load 0]⟩]
  algebraics := []
  parameters := []

/-- The step over which the matrix of the Rosenbrock method is singular for the stock. -/
def singularStep : Float := 1 / rosenbrockGamma

/-- Both implicit methods fail on the stock, the one with its state as it was, the other with the
state it predicted. -/
theorem growth_steps_fail :
    growth.compile "Growth" = .ok compiledGrowth ∧
      (RungeKutta.step classic compiledGrowth.flow .fresh 0 compiledGrowth.initialState 1).failure =
        none ∧
      (let a := Rosenbrock.step Linear.elimination rosenbrockGamma compiledGrowth.flow .fresh 0
        compiledGrowth.initialState singularStep
      a.failure ≠ none ∧ a.time = 0 ∧ a.state = compiledGrowth.initialState) ∧
      (let a := ImplicitEuler.step Linear.elimination 1e-10 25 compiledGrowth.flow .fresh 0
        compiledGrowth.initialState 1
      a.failure ≠ none ∧ a.time = 0) := by
  have euler := (failed_steps_leave_corrected_predictions compiledGrowth.flow 0
    compiledGrowth.initialState 1).2.2 Linear.elimination 1e-10 25 .fresh (by decide +kernel)
  have rosenbrock := (failed_steps_leave_corrected_predictions compiledGrowth.flow 0
    compiledGrowth.initialState singularStep).2.1 Linear.elimination rosenbrockGamma .fresh
  have explicit := (failed_steps_leave_corrected_predictions compiledGrowth.flow 0
    compiledGrowth.initialState 1).1 4 classic .fresh
  refine ⟨by with_unfolding_all rfl, explicit, ⟨by decide +kernel, rosenbrock ?_⟩,
    by decide +kernel, euler.1⟩
  decide +kernel

/-- A step on the stock fails and has doubled it: an implicit Euler step leaves a trace. -/
theorem failed_growth_is_kept :
    growth.compile "Growth" = .ok compiledGrowth ∧
      (let a := ImplicitEuler.step Linear.elimination 1e-10 25 compiledGrowth.flow .fresh 0
        compiledGrowth.initialState 1
      a.failure = some (.singularNewton 1) ∧ a.time = 0 ∧ a.state.toArray = #[2] ∧
        ¬ a.Untraced 0 compiledGrowth.initialState) := by
  refine ⟨by with_unfolding_all rfl, by decide +kernel, by decide +kernel, by decide +kernel, ?_⟩
  intro untraced
  have kept := congrArg Vector.toArray (untraced (by decide +kernel)).2
  revert kept
  decide +kernel

end Acausal
