-- The backend on doubles: it compiles flat models to code and integrates them on a fixed grid.
import Acausal.Integrate
import Acausal.Session.Collaborator
import Acausal.System.Message

namespace Acausal

structure NumericBackend where
  settings : IntegratorSettings
  verbose : Bool

/-- Why the backend has no answer. -/
inductive NumericFailure where
  | compilation (cause : CompileError Float)
  | integration (cause : IntegrationError)

def NumericFailure.message : NumericFailure → String
  | compilation cause => cause.message
  | integration cause => cause.message

namespace NumericBackend

/-- A backend that writes no debug records. -/
def quiet (settings : IntegratorSettings) : NumericBackend := ⟨settings, false⟩

/-- Actions of the backend. -/
abbrev Act (β : Type) := Action NumericBackend NumericFailure β

/-- How a compilation is logged. -/
def compilationReport (model : String) (m : CompiledModel Float) : String :=
  "compiled " ++ model ++ ": " ++ toString m.states.length ++ " states, " ++
    toString m.algebraics.length ++ " algebraic variables, " ++ toString m.parameters.length ++
    " parameters"

def compile (model : String) (flat : FlatModel Float) : Act (CompiledModel Float) := do
  let b ← Action.get
  let compiled ← Action.ofExcept ((flat.compile model).mapError .compilation)
  Action.writeIf b.verbose .debug (compilationReport model compiled)
  return compiled

/-- How a run is logged. -/
def runReport (model : String) (s : RunStatistics) : String :=
  let ratio := match s.stiffnessRatio with
    | none => ""
    | some r => ", stiffness ratio " ++ roundedText 3 r
  "integrated " ++ model ++ " with " ++ s.method.token ++ ": " ++ toString s.steps ++
    " steps of " ++ plainText s.stepSize ++ ratio

def integrate (m : CompiledModel Float) (span : TimeSpan) (solver : String) : Act Trajectory := do
  let b ← Action.get
  let (trajectory, statistics) ←
    Action.ofExcept ((m.integrate span solver b.settings).mapError .integration)
  Action.writeIf b.verbose .debug (runReport m.name statistics)
  return trajectory

end NumericBackend

instance : Backend NumericBackend (FlatModel Float) where
  Artifact := CompiledModel Float
  Failure := NumericFailure
  message := NumericFailure.message
  compile := NumericBackend.compile
  integrate := NumericBackend.integrate
  setVerbose b := { b with verbose := true }

end Acausal
