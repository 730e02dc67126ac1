-- The two collaborators of a session. A frontend turns source texts into flat models, and a
-- backend turns flat models into something that runs; a session passes between them what they
-- make without looking inside.
import Acausal.Session.Action
import Acausal.Trajectory

namespace Acausal

/-- From source texts to flat models. -/
class Frontend (F : Type) where
  /-- The syntax tree of one source text. -/
  Parsed : Type
  /-- A list of declarations; libraries and models both take this form. -/
  Program : Type
  Flat : Type
  /-- What instantiation came across besides the flat model. -/
  Functions : Type
  Failure : Type
  /-- Whether a failure comes from reading or parsing a source text. -/
  isParseFailure : Failure → Bool
  message : Failure → String
  parse (path : String) : Action F Failure Parsed
  toProgram : Parsed → Program
  /-- A library in front of a model. -/
  prepend : Program → Program → Program
  instantiate (model : String) (program : Program) (scalar : Bool) :
    Action F Failure (Flat × Functions)
  loadLibrary (id : String) : Action F Failure Program
  loadStandardLibrary (version : String) : Action F Failure Unit
  /-- Parses a source text, puts a standard library in front, and instantiates a model. -/
  flattenWithStandardLibrary (model path version : String) (scalar : Bool) :
    Action F Failure (Flat × Functions)
  toText : Flat → String
  setVerbose : F → F

/-- From flat models to trajectories. -/
class Backend (B : Type) (Flat : outParam Type) where
  /-- A compiled model. -/
  Artifact : Type
  Failure : Type
  message : Failure → String
  compile (model : String) (flat : Flat) : Action B Failure Artifact
  integrate (artifact : Artifact) (span : TimeSpan) (solver : String) :
    Action B Failure Trajectory
  setVerbose : B → B

end Acausal
