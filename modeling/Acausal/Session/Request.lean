-- Requests to a session, and the options of a single call. What a request or a call leaves open
-- is taken from the configuration.
import Acausal.Configuration

namespace Acausal

/-! ## Requests -/

/-- Flatten a model of a source text. -/
structure FlattenRequest where
  model : String
  path : String
  library : LibrarySource := .none
  scalarize : Bool := true

/-- Where the model of a run comes from. -/
inductive ModelSource where
  /-- A source text, which is compiled first. -/
  | file (path : String) (library : LibrarySource)
  /-- The models compiled before. -/
  | registry
  deriving DecidableEq, Repr

/-- Run a model. -/
structure RunRequest where
  model : String
  source : ModelSource
  span : Option TimeSpan
  solver : Option String

/-! ## Options -/

/-- What a single call may choose for itself. -/
structure CallOptions where
  startTime : Option Float
  stopTime : Option Float
  solver : Option String
  /-- The id of a library loaded before. -/
  library : Option String
  useStandardLibrary : Bool
  /-- The version of the standard library. -/
  standardLibrary : Option String

namespace CallOptions

/-- The options that leave everything open. -/
def unset : CallOptions := ⟨none, none, none, none, false, none⟩

def spanIn (o : CallOptions) (c : Configuration) : TimeSpan :=
  ⟨o.startTime.getD c.startTime, o.stopTime.getD c.stopTime⟩

def solverIn (o : CallOptions) (c : Configuration) : String := o.solver.getD c.solver

/-- The library in front of the model; the standard one wins over a loaded one. -/
def libraryIn (o : CallOptions) (c : Configuration) : LibrarySource :=
  if o.useStandardLibrary then .standard (o.standardLibrary.getD c.standardLibrary)
  else match o.library with
    | some id => .cached id
    | none => .none

end CallOptions

end Acausal
