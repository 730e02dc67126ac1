-- Integration on a fixed grid. A span is cut into equal intervals of one solver step each, and
-- the model is observed at both ends of every interval; the last sample is exactly at the end
-- of the span.
import Acausal.Linear.Solve
import Acausal.Linear.Spectrum
import Acausal.Number.Render
import Acausal.Solver.ImplicitEuler
import Acausal.Solver.Rosenbrock
import Acausal.Solver.RungeKutta
import Acausal.System.Model
import Acausal.Trajectory

namespace Acausal

/-! ## Methods and settings -/

/-- The solvers, and the choice among two of them by the stiffness of the model. -/
inductive Method where
  | classic
  | fifthOrder
  | rosenbrock
  | implicitEuler
  | automatic
  deriving DecidableEq, Repr

/-- The name a method is recorded by. -/
def Method.token : Method → String
  | classic => "rk4"
  | fifthOrder => "tsit5"
  | rosenbrock => "ros2"
  | implicitEuler => "implicit-euler"
  | automatic => "auto"

/-- The method of a name in lower case. -/
def Method.ofLowerCase? : String → Option Method
  | "rk4" => some classic
  | "tsit5" => some fifthOrder
  | "ros2" => some rosenbrock
  | "rosenbrock" => some rosenbrock
  | "implicit-euler" => some implicitEuler
  | "euler-implicit" => some implicitEuler
  | "auto" => some automatic
  | _ => none

/-- A solver name that no method goes by, in lower case. -/
structure UnknownSolver where
  token : String
  deriving DecidableEq, Repr

def UnknownSolver.message (e : UnknownSolver) : String :=
  "unknown solver `" ++ e.token ++ "` (expected rk4, tsit5, ros2, implicit-euler or auto)"

/-- The method of a name, in any case of basic letters. -/
def Method.ofToken (token : String) : Except UnknownSolver Method :=
  let lower := String.ofList (token.toList.map Char.toLower)
  match Method.ofLowerCase? lower with
  | some method => .ok method
  | none => .error ⟨lower⟩

/-- How to integrate. -/
structure IntegratorSettings where
  intervals : Nat := 500
  newtonTolerance : Float := 1e-10
  newtonMaxSteps : Nat := 25
  /-- The spread of decay rates above which the automatic choice takes the stiff method. -/
  stiffnessThreshold : Float := 1000.0

/-! ## Errors -/

def StepError.message : StepError Float → String
  | singularRosenbrock t => "singular Rosenbrock matrix at t = " ++ plainText t
  | singularNewton t => "singular Newton matrix at t = " ++ plainText t
  | notConverged steps t =>
    "Newton iteration did not converge in " ++ toString steps ++ " steps at t = " ++ plainText t

inductive IntegrationError where
  | unknownSolver (cause : UnknownSolver)
  | infiniteSpan (span : TimeSpan)
  | reversedSpan (span : TimeSpan)
  | stepFailed (method : Method) (time : Float) (cause : StepError Float)
  | diverged (time : Float) (name : String) (value : Float)

def IntegrationError.message : IntegrationError → String
  | unknownSolver cause => cause.message
  | infiniteSpan span =>
    "time span [" ++ plainText span.start ++ ", " ++ plainText span.stop ++ "] is not finite"
  | reversedSpan span =>
    "stop time " ++ plainText span.stop ++ " precedes start time " ++ plainText span.start
  | stepFailed method time cause =>
    method.token ++ " step failed at t = " ++ plainText time ++ ": " ++ cause.message
  | diverged time name value =>
    "solution diverged at t = " ++ plainText time ++ ": `" ++ name ++ "` is " ++ plainText value

/-! ## Stiffness -/

/-- The eigenvalues of the Jacobian at a time and a state. -/
def localEigenvalues {n : Nat} (flow : Flow Float n) (t : Float) (x : Vector Float n) :
    List ComplexFloat :=
  let jacobian := flow.jacobian t x (.replicate n (.replicate n 0.0))
  eigenvalues (jacobian.toArray.map (·.toArray))

/-- The larger of two numbers, or the one that is a number. -/
def larger (x y : Float) : Float :=
  if x.isNaN then y else if y.isNaN then x else if x < y then y else x

/-- The smaller of two numbers, or the one that is a number. -/
def smaller (x y : Float) : Float :=
  if x.isNaN then y else if y.isNaN then x else if y < x then y else x

/-- The fastest decay rate over the slowest, if anything decays. -/
def stiffnessRatio? {n : Nat} (flow : Flow Float n) (t : Float) (x : Vector Float n) :
    Option Float :=
  let rates := (localEigenvalues flow t x).filterMap fun e =>
    if e.re < 0.0 then some (-e.re) else none
  match rates with
  | [] => none
  | first :: more =>
    let slowest := more.foldl smaller first
    if slowest ≤ 0.0 then none else some (more.foldl larger first / slowest)

/-- The largest length of an eigenvalue. -/
def spectralRadius {n : Nat} (flow : Flow Float n) (t : Float) (x : Vector Float n) : Float :=
  (localEigenvalues flow t x).foldl (fun radius e => larger radius e.norm) 0.0

/-- The method in place of the automatic choice, with the stiffness it was chosen by: the stiff
method for rates too far apart, or too fast for the step. -/
def Method.choose {n : Nat} (method : Method) (flow : Flow Float n) (settings : IntegratorSettings)
    (t : Float) (x : Vector Float n) (dt : Float) : Method × Option Float :=
  match method with
  | automatic =>
    let ratio := stiffnessRatio? flow t x
    let isStiff := ratio.any (settings.stiffnessThreshold < ·) ||
      (2.0 : Float) < spectralRadius flow t x * dt
    (if isStiff then rosenbrock else fifthOrder, ratio)
  | other => (other, none)

/-! ## Solvers with their scratch space -/

/-- The coefficient of the Rosenbrock method, one and half the root of two. -/
def rosenbrockGamma : Float := 1.0 + 0.7071067811865476

/-- A solver and the scratch space it keeps between steps. -/
inductive Stepper (n : Nat) where
  | classic (scratch : RungeKutta.Scratch Float n 4)
  | fifthOrder (scratch : RungeKutta.Scratch Float n 6)
  | rosenbrock (scratch : Rosenbrock.Scratch Float n)
  | implicitEuler (tolerance : Float) (limit : Nat) (scratch : ImplicitEuler.Scratch Float n)

namespace Stepper

variable {n : Nat}

/-- The solver of a method. -/
def ofMethod (settings : IntegratorSettings) : Method → Stepper n
  | .classic => classic .fresh
  | .fifthOrder => fifthOrder .fresh
  | .rosenbrock => rosenbrock .fresh
  | .automatic => rosenbrock .fresh
  | .implicitEuler => implicitEuler settings.newtonTolerance settings.newtonMaxSteps .fresh

/-- The same step with its scratch space put back into the solver. -/
def keep {ω : Type} (wrap : ω → Stepper n) (a : Advance Float n ω) : Advance Float n (Stepper n) :=
  ⟨a.time, a.state, wrap a.scratch, a.failure⟩

/-- One step of a solver. -/
def step (flow : Flow Float n) (t : Float) (x : Vector Float n) (dt : Float) :
    Stepper n → Advance Float n (Stepper n)
  | classic scratch => keep classic (RungeKutta.step Acausal.classic flow scratch t x dt)
  | fifthOrder scratch => keep fifthOrder (RungeKutta.step Acausal.fifthOrder flow scratch t x dt)
  | rosenbrock scratch =>
    keep rosenbrock (Rosenbrock.step Linear.elimination rosenbrockGamma flow scratch t x dt)
  | implicitEuler tolerance limit scratch =>
    keep (implicitEuler tolerance limit)
      (ImplicitEuler.step Linear.elimination tolerance limit flow scratch t x dt)

end Stepper

/-! ## Runs -/

/-- The figures of one run. -/
structure RunStatistics where
  method : Method
  steps : Nat
  stepSize : Float
  stiffnessRatio : Option Float

/-- The sampled times and rows of a run so far. -/
structure Samples where
  times : Array Float
  rows : Array (Array Float)

def Samples.push (s : Samples) (time : Float) (row : Array Float) : Samples :=
  ⟨s.times.push time, s.rows.push row⟩

/-- A span cut into equal intervals. -/
structure Grid where
  span : TimeSpan
  intervals : Nat

namespace Grid

/-- A grid of at least one interval, or none where the span is a single moment. -/
def ofSpan (span : TimeSpan) (intervals : Nat) : Grid :=
  ⟨span, if span.stop == span.start then 0 else max intervals 1⟩

def stepSize (g : Grid) : Float :=
  if g.intervals = 0 then 0.0 else (g.span.stop - g.span.start) / Float.ofNat g.intervals

/-- The time at the end of a number of intervals; all of them end with the span. -/
def time (g : Grid) (passed : Nat) : Float :=
  if passed = g.intervals then g.span.stop
  else g.span.start + Float.ofNat passed * g.stepSize

end Grid

/-- Steps over the intervals that are left, from the state behind those that are passed. A
model without states takes no steps. -/
def march (m : CompiledModel Float) (method : Method) (grid : Grid) :
    (left : Nat) → (time : Float) → Stepper m.dimension → Vector Float m.dimension → Samples →
      Except IntegrationError Samples
  | 0, _, _, _, samples => .ok samples
  | left + 1, time, stepper, x, samples =>
    let advance : Advance Float m.dimension (Stepper m.dimension) :=
      if m.dimension = 0 then ⟨time, x, stepper, none⟩
      else stepper.step m.flow time x grid.stepSize
    match advance.failure with
    | some cause => .error (.stepFailed method advance.time cause)
    | none =>
      let time := grid.time (grid.intervals - left)
      match (m.stateNames.zip advance.state.toList).find? fun (_, value) => !value.isFinite with
      | some (name, value) => .error (.diverged time name value)
      | none =>
        march m method grid left time advance.scratch advance.state
          (samples.push time (m.observe time advance.state))

/-- Runs a compiled model over a span. -/
def CompiledModel.integrate (m : CompiledModel Float) (span : TimeSpan) (solver : String)
    (settings : IntegratorSettings) : Except IntegrationError (Trajectory × RunStatistics) := do
  let requested ← (Method.ofToken solver).mapError .unknownSolver
  if !span.start.isFinite || !span.stop.isFinite then .error (.infiniteSpan span)
  else if span.stop < span.start then .error (.reversedSpan span)
  else
    let grid := Grid.ofSpan span settings.intervals
    let start := m.initialState
    let (method, ratio) := requested.choose m.flow settings span.start start grid.stepSize
    let first : Samples := ⟨#[span.start], #[m.observe span.start start]⟩
    let samples ← march m method grid grid.intervals span.start (.ofMethod settings method) start
      first
    let trajectory : Trajectory :=
      ⟨m.name, method.token, m.recorded, samples.times, samples.rows⟩
    return (trajectory, ⟨method, grid.intervals, grid.stepSize, ratio⟩)

end Acausal
