-- Settings of a session. A setting that is left out has its usual value and one that is not
-- known is passed over, but a known one of the wrong kind makes the whole configuration invalid.
import Acausal.Integrate
import Acausal.SourcePath
import Acausal.StandardLibrary
import Acausal.Table
import Acausal.Toml.Document

namespace Acausal

/-! ## The settings -/

/-- Which failures of a run on a compiled model are taken as a matter of course. -/
inductive RecoveryPolicy where
  /-- Only that there is no compiled model. -/
  | notCompiled
  | anyFailure
  | strict
  deriving DecidableEq, Repr

namespace RecoveryPolicy

def token : RecoveryPolicy → String
  | notCompiled => "not-compiled"
  | anyFailure => "any-failure"
  | strict => "strict"

def ofToken? (token : String) : Option RecoveryPolicy :=
  [notCompiled, anyFailure, strict].find? (·.token == token)

end RecoveryPolicy

/-- Which collaborators write debug records. -/
structure Diagnostics where
  frontend : Bool := false
  backend : Bool := false
  deriving DecidableEq, Repr

def Diagnostics.any (d : Diagnostics) : Bool := d.frontend || d.backend

/-- Where the declarations in front of a model come from. -/
inductive LibrarySource where
  /-- There are none. -/
  | none
  /-- A library loaded before, by its id. -/
  | cached (id : String)
  /-- A version of the standard library. -/
  | standard (version : String)
  deriving DecidableEq, Repr

structure Configuration where
  startTime : Float := 0.0
  stopTime : Float := 1.0
  solver : String := "ros2"
  standardLibrary : String := defaultVersion
  scalarize : Bool := true
  recovery : RecoveryPolicy := .notCompiled
  diagnostics : Diagnostics := {}
  integrator : IntegratorSettings := {}
  /-- Ids of libraries with the paths of their texts. -/
  libraries : Table String := .empty

namespace Configuration

def span (c : Configuration) : TimeSpan := ⟨c.startTime, c.stopTime⟩

/-- The configured standard library. -/
def standardSource (c : Configuration) : LibrarySource := .standard c.standardLibrary

end Configuration

/-! ## Settings of each kind -/

namespace Toml

def string? : Toml → Option String
  | string s => some s
  | _ => none

def flag? : Toml → Option Bool
  | flag b => some b
  | _ => none

/-- A number; integers count as numbers. -/
def number? : Toml → Option Float
  | float x => some x
  | integer n => some (Float.ofInt n)
  | _ => none

/-- An integer that is not negative. -/
def natural? : Toml → Option Nat
  | integer (.ofNat n) => some n
  | _ => none

/-- The name of the only entry that a date or a time has when it stands for a table. -/
def momentName : String := "$__toml_private_datetime"

/-- The entries of a table. -/
def entries? : Toml → Option Entries
  | table _ entries => some entries
  | moment spelling => some [(momentName, string spelling)]
  | _ => none

/-- The entries of a table, or the items of an array each with the name of its place. -/
def members? (names : List String) : Toml → Option Entries
  | array items => some (names.zip items)
  | rows earlier last => some (names.zip ((earlier ++ [last]).map (table .row)))
  | value => value.entries?

/-- Whether a value has nothing in it. -/
def isBare : Toml → Bool
  | array items => items.isEmpty
  | table _ entries => entries.isEmpty
  | _ => false

/-- A choice among names, or a table of a single name with nothing in it. -/
def choice? : Toml → Option String
  | string s => some s
  | table _ [(name, value)] => if value.isBare then some name else none
  | _ => none

/-- The setting of a name, or its usual value where it is left out. -/
def setting {β : Type} (entries : Entries) (name : String) (decode : Toml → Option β) (usual : β) :
    Option β :=
  match entries.lookup name with
  | none => some usual
  | some value => decode value

end Toml

/-! ## From a document to the settings -/

namespace Configuration

open Toml

def diagnostics? (value : Toml) : Option Diagnostics := do
  let entries ← value.members? ["frontend", "backend"]
  return {
    frontend := ← setting entries "frontend" flag? false
    backend := ← setting entries "backend" flag? false }

def integrator? (value : Toml) : Option IntegratorSettings := do
  let usual : IntegratorSettings := {}
  let entries ← value.members?
    ["intervals", "newton_tolerance", "newton_max_steps", "stiffness_threshold"]
  return {
    intervals := ← setting entries "intervals" natural? usual.intervals
    newtonTolerance := ← setting entries "newton_tolerance" number? usual.newtonTolerance
    newtonMaxSteps := ← setting entries "newton_max_steps" natural? usual.newtonMaxSteps
    stiffnessThreshold := ← setting entries "stiffness_threshold" number? usual.stiffnessThreshold }

def libraries? (value : Toml) : Option (Table String) := do
  let entries ← value.entries?
  return .ofList (← entries.mapM fun (id, path) => path.string?.map (id, ·))

def ofDocument? (document : Toml) : Option Configuration := do
  let usual : Configuration := {}
  let entries ← document.entries?
  return {
    startTime := ← setting entries "start_time" number? usual.startTime
    stopTime := ← setting entries "stop_time" number? usual.stopTime
    solver := ← setting entries "solver" string? usual.solver
    standardLibrary := ← setting entries "standard_library" string? usual.standardLibrary
    scalarize := ← setting entries "scalarize" flag? usual.scalarize
    recovery := ← setting entries "recovery" (·.choice?.bind RecoveryPolicy.ofToken?) usual.recovery
    diagnostics := ← setting entries "diagnostics" diagnostics? usual.diagnostics
    integrator := ← setting entries "integrator" integrator? usual.integrator
    libraries := ← setting entries "libraries" libraries? usual.libraries }

end Configuration

/-! ## From a text or a file -/

/-- Why there is no configuration. -/
inductive ConfigurationError where
  | unreadable (path : String) (cause : FileProblem)
  | malformed
  deriving DecidableEq, Repr

def ConfigurationError.message : ConfigurationError → String
  | unreadable path cause => "failed to read " ++ path ++ ": " ++ cause.message
  | malformed => "invalid configuration"

namespace Configuration

/-- The configuration that a text holds. -/
def ofText (text : String) : Except ConfigurationError Configuration :=
  match (Toml.document? text).bind ofDocument? with
  | some configuration => .ok configuration
  | none => .error .malformed

/-- The configuration in a file. -/
def ofFile (files : Files) (path : String) : Except ConfigurationError Configuration :=
  match files path with
  | .error cause => .error (.unreadable path cause)
  | .ok text => ofText text

end Configuration

end Acausal
