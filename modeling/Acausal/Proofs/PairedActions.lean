-- Two actions side by side. They are in step if, wherever they start in related states, they give
-- the same result, come to related states and write related records. Of two sequences it is enough
-- that their parts are in step, so a long operation is compared with another one part by part.
import Acausal.Proofs.Actions

namespace Acausal

/-! ## Records worth noting -/

/-- The records of a log that are of interest to everyone, which debug records are not. -/
def notable (log : List Record) : List Record := log.filter (·.level ≠ .debug)

@[simp] theorem notable_nil : notable [] = [] := rfl

@[simp] theorem notable_append (log log' : List Record) :
    notable (log ++ log') = notable log ++ notable log' := List.filter_append ..

/-- Logs of which parts may be compared one after the other. -/
structure Compositional (logs : List Record → List Record → Prop) : Prop where
  refl : ∀ log, logs log log
  append : ∀ {a b a' b'}, logs a a' → logs b b' → logs (a ++ b) (a' ++ b')

theorem compositional_eq : Compositional Eq where
  refl _ := rfl
  append h h' := h ▸ h' ▸ rfl

namespace Action

variable {σ τ ε δ β γ : Type}

/-! ## Actions in step -/

/-- From related states two actions give the same result, come to related states and write
related records. -/
structure InStep (states : σ → σ → Prop) (logs : List Record → List Record → Prop)
    (a a' : Action σ ε β) : Prop where
  result_eq : ∀ s t, states s t → (a.run s).result = (a'.run t).result
  states_of : ∀ s t, states s t → states (a.run s).state (a'.run t).state
  logs_of : ∀ s t, states s t → logs (a.run s).log (a'.run t).log

namespace InStep

variable {states : σ → σ → Prop} {logs : List Record → List Record → Prop}

theorem done (compositional : Compositional logs) (b : β) :
    InStep states logs (pure b : Action σ ε β) (pure b) where
  result_eq _ _ _ := rfl
  states_of _ _ h := h
  logs_of _ _ _ := compositional.refl []

theorem fail (compositional : Compositional logs) (e : ε) :
    InStep states logs (Action.fail e : Action σ ε β) (Action.fail e) where
  result_eq _ _ _ := rfl
  states_of _ _ h := h
  logs_of _ _ _ := compositional.refl []

theorem write (compositional : Compositional logs) (level : Level) (text : String) :
    InStep states logs (Action.write level text : Action σ ε Unit) (Action.write level text) where
  result_eq _ _ _ := rfl
  states_of _ _ h := h
  logs_of _ _ _ := compositional.refl _

/-- Of a record that is written on one side only, the logs have to take no notice. -/
theorem writeIf {flag flag' : Bool} {level : Level} {text : String}
    (h : logs (if flag then [⟨level, text⟩] else []) (if flag' then [⟨level, text⟩] else [])) :
    InStep states logs (Action.writeIf flag level text : Action σ ε Unit)
      (Action.writeIf flag' level text) where
  result_eq s t _ := by rw [run_writeIf, run_writeIf]
  states_of s t related := by
    rw [run_writeIf, run_writeIf]
    exact related
  logs_of s t _ := by
    rw [run_writeIf, run_writeIf]
    exact h

theorem ofExcept (compositional : Compositional logs) (result : Except ε β) :
    InStep states logs (Action.ofExcept result : Action σ ε β) (Action.ofExcept result) := by
  cases result with
  | error e => exact fail compositional e
  | ok b => exact done compositional b

theorem modify (compositional : Compositional logs) {change change' : σ → σ}
    (h : ∀ s t, states s t → states (change s) (change' t)) :
    InStep states logs (Action.modify change : Action σ ε Unit) (Action.modify change') where
  result_eq _ _ _ := rfl
  states_of s t related := h s t related
  logs_of _ _ _ := compositional.refl []

/-- What follows a look at the state may depend on which of two related states there is. -/
theorem get_bind {next next' : σ → Action σ ε β}
    (h : ∀ s t, states s t → InStep states logs (next s) (next' t)) :
    InStep states logs (Action.get >>= next) (Action.get >>= next') where
  result_eq s t related := (h s t related).result_eq s t related
  states_of s t related := (h s t related).states_of s t related
  logs_of s t related := (h s t related).logs_of s t related

theorem bind (compositional : Compositional logs) {a a' : Action σ ε β}
    {next next' : β → Action σ ε γ} (first : InStep states logs a a')
    (second : ∀ b, InStep states logs (next b) (next' b)) :
    InStep states logs (a >>= next) (a' >>= next') := by
  refine ⟨fun s t related => ?_, fun s t related => ?_, fun s t related => ?_⟩
  all_goals
    have same := first.result_eq s t related
    have come := first.states_of s t related
    have written := first.logs_of s t related
    rcases run_bind_cases a next s with ⟨e, result, run⟩ | ⟨b, result, run⟩
  · rw [run, run_bind_error next' (same.symm.trans result)]
  · rw [run, run_bind_ok next' (same.symm.trans result)]
    exact (second b).result_eq _ _ come
  · rw [run, run_bind_error next' (same.symm.trans result)]
    exact come
  · rw [run, run_bind_ok next' (same.symm.trans result)]
    exact (second b).states_of _ _ come
  · rw [run, run_bind_error next' (same.symm.trans result)]
    exact written
  · rw [run, run_bind_ok next' (same.symm.trans result)]
    exact compositional.append written ((second b).logs_of _ _ come)

theorem attempt {a a' : Action σ ε β} (h : InStep states logs a a') :
    InStep states logs (Action.attempt a : Action σ ε (Except ε β)) (Action.attempt a') where
  result_eq s t related := congrArg Except.ok (h.result_eq s t related)
  states_of := h.states_of
  logs_of := h.logs_of

/-- Actions on a part of the state are in step where the parts are related throughout. -/
theorem onPart {parts : τ → τ → Prop} {part : σ → τ} {replace : σ → τ → σ} {wrap : δ → ε}
    {a a' : Action τ δ β} (h : InStep parts logs a a')
    (inner : ∀ s t, states s t → parts (part s) (part t))
    (outer : ∀ s t, states s t → ∀ p q, parts p q → states (replace s p) (replace t q)) :
    InStep states logs (Action.onPart part replace wrap a)
      (Action.onPart part replace wrap a') where
  result_eq s t related :=
    congrArg (Except.mapError wrap) (h.result_eq _ _ (inner s t related))
  states_of s t related := outer s t related _ _ (h.states_of _ _ (inner s t related))
  logs_of s t related := h.logs_of _ _ (inner s t related)

end InStep

end Action

end Acausal
