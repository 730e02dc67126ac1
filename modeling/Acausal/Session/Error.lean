-- Failures of a session. A failure names the stage that failed and carries the cause that the
-- collaborator gave, unchanged.
import Acausal.Configuration

namespace Acausal

/-- Why a session has no answer; causes of the frontend are of type `φ`, causes of the backend
of type `ψ`. -/
inductive SessionError (φ ψ : Type) where
  | parse (path : String) (cause : φ)
  | libraryNotLoaded (id : String)
  | libraryLoad (id : String) (cause : φ)
  | instantiation (model : String) (cause : φ)
  | compilation (model : String) (cause : ψ)
  | modelNotCompiled (model : String)
  | integration (model : String) (cause : ψ)

namespace SessionError

variable {φ ψ : Type}

def isNotCompiled : SessionError φ ψ → Bool
  | modelNotCompiled _ => true
  | _ => false

/-- The stage that failed, in words. -/
def summary : SessionError φ ψ → String
  | parse path _ => "failed to parse " ++ path
  | libraryNotLoaded id => "library `" ++ id ++ "` has not been loaded"
  | libraryLoad id _ => "failed to load library `" ++ id ++ "`"
  | instantiation model _ => "failed to instantiate model `" ++ model ++ "`"
  | compilation model _ => "failed to translate model `" ++ model ++ "`"
  | modelNotCompiled model => "model `" ++ model ++ "` has not been compiled"
  | integration model _ => "simulation of model `" ++ model ++ "` failed"

/-- The cause in words, if a collaborator gave one. -/
def cause? (ofFrontend : φ → String) (ofBackend : ψ → String) : SessionError φ ψ → Option String
  | parse _ cause => some (ofFrontend cause)
  | libraryLoad _ cause => some (ofFrontend cause)
  | instantiation _ cause => some (ofFrontend cause)
  | compilation _ cause => some (ofBackend cause)
  | integration _ cause => some (ofBackend cause)
  | libraryNotLoaded _ => none
  | modelNotCompiled _ => none

/-- The stage that failed and the cause. -/
def message (ofFrontend : φ → String) (ofBackend : ψ → String) (e : SessionError φ ψ) : String :=
  match e.cause? ofFrontend ofBackend with
  | some cause => e.summary ++ ": " ++ cause
  | none => e.summary

end SessionError

/-- Whether a policy takes a failure as a matter of course. -/
def RecoveryPolicy.recovers {φ ψ : Type} : RecoveryPolicy → SessionError φ ψ → Bool
  | notCompiled, e => e.isNotCompiled
  | anyFailure, _ => true
  | strict, _ => false

/-! ## Lookups -/

/-- The library loaded under an id. -/
def Table.library {φ ψ β : Type} (libraries : Table β) (id : String) :
    Except (SessionError φ ψ) β :=
  match libraries.get? id with
  | some program => .ok program
  | none => .error (.libraryNotLoaded id)

/-- The model compiled under a name. -/
def Table.compiled {φ ψ β : Type} (registry : Table β) (model : String) :
    Except (SessionError φ ψ) β :=
  match registry.get? model with
  | some artifact => .ok artifact
  | none => .error (.modelNotCompiled model)

end Acausal
