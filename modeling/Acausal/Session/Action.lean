-- Actions. An action on a state gives a result or fails, and either way leaves a state behind
-- and some log records. Of two actions in sequence the second sees the state the first left,
-- and is not reached when the first fails.

namespace Acausal

/-! ## Log records -/

inductive Level where
  | error
  | warn
  | info
  | debug
  deriving DecidableEq, Repr

def Level.name : Level → String
  | error => "error"
  | warn => "warn"
  | info => "info"
  | debug => "debug"

structure Record where
  level : Level
  text : String
  deriving DecidableEq, Repr

/-! ## Actions -/

/-- What an action comes to. -/
structure Outcome (σ ε β : Type) where
  result : Except ε β
  state : σ
  log : List Record

/-- An action on a state of type `σ` that may fail with `ε`. -/
def Action (σ ε β : Type) := σ → Outcome σ ε β

namespace Action

variable {σ τ ε δ β γ : Type}

def run (a : Action σ ε β) (s : σ) : Outcome σ ε β := a s

/-- Gives a result and changes nothing. -/
def done (b : β) : Action σ ε β := fun s => ⟨.ok b, s, []⟩

/-- Fails and changes nothing. -/
def fail (e : ε) : Action σ ε β := fun s => ⟨.error e, s, []⟩

/-- One action and then another that may use its result. -/
def andThen (a : Action σ ε β) (next : β → Action σ ε γ) : Action σ ε γ := fun s =>
  let first := a s
  match first.result with
  | .error e => ⟨.error e, first.state, first.log⟩
  | .ok b =>
    let second := next b first.state
    ⟨second.result, second.state, first.log ++ second.log⟩

instance : Monad (Action σ ε) where
  pure := done
  bind := andThen

/-- The state as it is. -/
def get : Action σ ε σ := fun s => ⟨.ok s, s, []⟩

def modify (change : σ → σ) : Action σ ε Unit := fun s => ⟨.ok (), change s, []⟩

/-- Writes a log record. -/
def write (level : Level) (text : String) : Action σ ε Unit := fun s => ⟨.ok (), s, [⟨level, text⟩]⟩

/-- Writes a log record where a flag is set. -/
def writeIf (flag : Bool) (level : Level) (text : String) : Action σ ε Unit :=
  if flag then write level text else done ()

/-- Takes over a result that is there already. -/
def ofExcept : Except ε β → Action σ ε β
  | .ok b => done b
  | .error e => fail e

/-- An action that does not fail but tells whether another one did. -/
def attempt (a : Action σ ε β) : Action σ ε (Except ε β) := fun s =>
  let outcome := a s
  ⟨.ok outcome.result, outcome.state, outcome.log⟩

/-- An action on a part of the state, with its failures seen from the whole. -/
def onPart (part : σ → τ) (replace : σ → τ → σ) (wrap : δ → ε) (a : Action τ δ β) :
    Action σ ε β := fun s =>
  let inner := a (part s)
  ⟨inner.result.mapError wrap, replace s inner.state, inner.log⟩

end Action

end Acausal
