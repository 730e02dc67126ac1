-- Sessions. A session drives a frontend and a backend and keeps what they made: the libraries
-- loaded and the models compiled, each under its name. Both change only where an operation gets
-- to its end, so an operation that fails leaves them as they were.
import Acausal.Number.Render
import Acausal.Session.Collaborator
import Acausal.Session.Error
import Acausal.Session.Request

namespace Acausal

structure Session (F B : Type) [Frontend F] [Backend B (Frontend.Flat F)] where
  frontend : F
  backend : B
  /-- The programs of loaded libraries by id. -/
  libraries : Table (Frontend.Program F)
  /-- The models compiled last under each name. -/
  registry : Table (Backend.Artifact B)
  diagnostics : Diagnostics
  configuration : Configuration

/-- What became of a run on a compiled model. -/
inductive Rerun where
  | simulated (trajectory : Trajectory)
  /-- The run failed as a matter of course; there are these compiled models. -/
  | recovered (model : String) (available : List String)

namespace Session

variable {F B : Type} [Frontend F] [Backend B (Frontend.Flat F)]

/-! ## Diagnostics -/

/-- From here on the frontend writes debug records. -/
def enableFrontendDiagnostics (s : Session F B) : Session F B :=
  { s with
    diagnostics := { s.diagnostics with frontend := true }
    frontend := Frontend.setVerbose s.frontend }

/-- From here on the backend writes debug records. -/
def enableBackendDiagnostics (s : Session F B) : Session F B :=
  { s with
    diagnostics := { s.diagnostics with backend := true }
    backend := Backend.setVerbose s.backend }

/-- A session that holds nothing yet, with the configured diagnostics. -/
def start (frontend : F) (backend : B) (configuration : Configuration) : Session F B :=
  let s : Session F B := ⟨frontend, backend, .empty, .empty, {}, configuration⟩
  let s := if configuration.diagnostics.frontend then s.enableFrontendDiagnostics else s
  if configuration.diagnostics.backend then s.enableBackendDiagnostics else s

/-! ## Steps of operations -/

variable (F B) in
/-- Failures of a session on these collaborators. -/
abbrev Failure := SessionError (Frontend.Failure F) (Backend.Failure B)

variable (F B) in
/-- Operations of a session on these collaborators. -/
abbrev Operation (β : Type) := Action (Session F B) (Failure F B) β

/-- An action of the frontend. -/
def onFrontend {β : Type} (wrap : Frontend.Failure F → Failure F B)
    (a : Action F (Frontend.Failure F) β) : Operation F B β :=
  Action.onPart (·.frontend) (fun s frontend => { s with frontend }) wrap a

/-- An action of the backend. -/
def onBackend {β : Type} (wrap : Backend.Failure B → Failure F B)
    (a : Action B (Backend.Failure B) β) : Operation F B β :=
  Action.onPart (·.backend) (fun s backend => { s with backend }) wrap a

/-! ## Libraries -/

/-- Loads a library and keeps it, over one that was loaded under the same id before. -/
def loadLibrary (id : String) : Operation F B Unit := do
  let program ← onFrontend (.libraryLoad id) (Frontend.loadLibrary id)
  let s ← Action.get
  Action.modify fun s => { s with libraries := s.libraries.insert id program }
  let verb := if s.libraries.contains id then "reloaded" else "loaded"
  Action.write .info (verb ++ " library " ++ id)

/-- The library loaded under an id. -/
def library (id : String) : Operation F B (Frontend.Program F) := do
  Action.ofExcept ((← Action.get).libraries.library id)

/-- The ids of the loaded libraries in order. -/
def loadedLibraries (s : Session F B) : List String := s.libraries.names

/-! ## Flattening -/

/-- The declarations of a source text. -/
def intermediate (path : String) : Operation F B (Frontend.Program F) := do
  return Frontend.toProgram (← onFrontend (.parse path) (Frontend.parse path))

/-- How a failure to flatten a source text with the standard library is told apart. -/
def flattenFailure (model path : String) (cause : Frontend.Failure F) : Failure F B :=
  if Frontend.isParseFailure cause then .parse path cause else .instantiation model cause

/-- The flat model of a model, and what its instantiation came across. -/
def flatten (request : FlattenRequest) :
    Operation F B (Frontend.Flat F × Frontend.Functions F) := do
  match request.library with
  | .none =>
    let program ← intermediate request.path
    onFrontend (.instantiation request.model)
      (Frontend.instantiate request.model program request.scalarize)
  | .cached id =>
    let program ← intermediate request.path
    let inFront ← library id
    onFrontend (.instantiation request.model)
      (Frontend.instantiate request.model (Frontend.prepend inFront program) request.scalarize)
  | .standard version =>
    onFrontend (.libraryLoad version) (Frontend.loadStandardLibrary version)
    onFrontend (flattenFailure request.model request.path)
      (Frontend.flattenWithStandardLibrary request.model request.path version request.scalarize)

/-! ## Compiled models -/

/-- Flattens and compiles a model and keeps it, over one compiled under the same name before. -/
def compile (model path : String) (source : LibrarySource) : Operation F B Unit := do
  let s ← Action.get
  let (flat, _) ← flatten ⟨model, path, source, s.configuration.scalarize⟩
  let artifact ← onBackend (.compilation model) (Backend.compile model flat)
  Action.modify fun s => { s with registry := s.registry.insert model artifact }
  Action.writeIf (s.registry.contains model) .warn ("replaced compiled model " ++ model)
  Action.write .info ("translated " ++ model ++ " from " ++ path)

/-- The names of the compiled models in order. -/
def compiledModels (s : Session F B) : List String := s.registry.names

/-- The model compiled under a name. -/
def compiled (model : String) : Operation F B (Backend.Artifact B) := do
  Action.ofExcept ((← Action.get).registry.compiled model)

/-! ## Runs -/

/-- Runs a compiled model. -/
def simulateCompiled (model : String) (span : TimeSpan) (solver : String) :
    Operation F B Trajectory := do
  let artifact ← compiled model
  Action.write .info ("simulating " ++ model ++ " over [" ++ plainText span.start ++ ", " ++
    plainText span.stop ++ "] with " ++ solver)
  onBackend (.integration model) (Backend.integrate artifact span solver)

/-- Runs a model; one of a source text is compiled first, whether or not it was before. -/
def simulate (request : RunRequest) : Operation F B Trajectory := do
  match request.source with
  | .file path source => compile request.model path source
  | .registry => pure ()
  let s ← Action.get
  simulateCompiled request.model (request.span.getD s.configuration.span)
    (request.solver.getD s.configuration.solver)

/-- Runs a compiled model again. Failures that the configured policy recovers from are logged
with the models there are, and are no failures of this operation. -/
def resimulate (model : String) (span : TimeSpan) (solver : String) : Operation F B Rerun := do
  match ← Action.attempt (simulateCompiled model span solver) with
  | .ok trajectory => return .simulated trajectory
  | .error failure =>
    let s ← Action.get
    if s.configuration.recovery.recovers failure then
      Action.write .error ("cannot resimulate " ++ model ++ ": " ++ failure.summary ++
        ". Translate the model before resimulating it.")
      Action.write .info ("compiled models: [" ++ ", ".intercalate s.compiledModels ++ "]")
      return .recovered model s.compiledModels
    else Action.fail failure

end Session

end Acausal
