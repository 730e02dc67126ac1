-- What holds of a frontend throughout a session. A session changes its frontend only by what the
-- frontend does itself, so what the frontend maintains every operation of the session maintains,
-- and it holds after any calls if it held before them.
import Acausal.Proofs.SessionHistory

namespace Acausal

/-- What all actions of a frontend maintain. -/
structure Frontend.Keeps {F : Type} [Frontend F] (inv : F → Prop) : Prop where
  parse : ∀ path, (Frontend.parse path : Action F _ _).Maintains inv
  instantiate : ∀ model program scalar,
    (Frontend.instantiate model program scalar : Action F _ _).Maintains inv
  loadLibrary : ∀ id, (Frontend.loadLibrary id : Action F _ _).Maintains inv
  loadStandardLibrary : ∀ version, (Frontend.loadStandardLibrary version : Action F _ _).Maintains inv
  flattenWithStandardLibrary : ∀ model path version scalar,
    (Frontend.flattenWithStandardLibrary model path version scalar : Action F _ _).Maintains inv
  setVerbose : ∀ f : F, inv f → inv (Frontend.setVerbose f)

namespace Session

variable {F B : Type} [Frontend F] [Backend B (Frontend.Flat F)] {inv : F → Prop}

/-! ## Single steps -/

theorem run_onFrontend {β : Type} (wrap : Frontend.Failure F → Failure F B)
    (a : Action F (Frontend.Failure F) β) (s : Session F B) :
    (onFrontend wrap a).run s = ⟨(a.run s.frontend).result.mapError wrap,
      { s with frontend := (a.run s.frontend).state }, (a.run s.frontend).log⟩ := rfl

variable (inv) in
/-- An operation that maintains something of the frontend. -/
abbrev Upholds {β : Type} (a : Operation F B β) : Prop :=
  Action.Maintains (fun s => inv s.frontend) a

theorem upholds_onFrontend {β : Type} {wrap : Frontend.Failure F → Failure F B}
    {a : Action F (Frontend.Failure F) β} (h : a.Maintains inv) :
    Upholds inv (onFrontend wrap a) :=
  .onPart h fun _ _ => rfl

theorem upholds_onBackend {β : Type} {wrap : Backend.Failure B → Failure F B}
    {a : Action B (Backend.Failure B) β} : Upholds inv (onBackend wrap a) := fun _ h => h

/-! ## Operations -/

theorem upholds_library (id : String) : Upholds inv (library (F := F) (B := B) id) :=
  .bind .get fun _ => .ofExcept _

theorem upholds_compiled (model : String) : Upholds inv (compiled (F := F) (B := B) model) :=
  .bind .get fun _ => .ofExcept _

theorem upholds_loadLibrary (keeps : Frontend.Keeps inv) (id : String) :
    Upholds inv (loadLibrary (F := F) (B := B) id) := by
  refine .bind (upholds_onFrontend (keeps.loadLibrary id)) fun program => ?_
  exact .bind .get fun _ => .bind (.modify fun _ h => h) fun _ => .write _ _

theorem upholds_intermediate (keeps : Frontend.Keeps inv) (path : String) :
    Upholds inv (intermediate (F := F) (B := B) path) :=
  .bind (upholds_onFrontend (keeps.parse path)) fun _ => .done _

theorem upholds_flatten (keeps : Frontend.Keeps inv) (request : FlattenRequest) :
    Upholds inv (flatten (F := F) (B := B) request) := by
  obtain ⟨model, path, source, scalar⟩ := request
  cases source with
  | none =>
    exact .bind (upholds_intermediate keeps path) fun _ =>
      upholds_onFrontend (keeps.instantiate _ _ _)
  | cached id =>
    exact .bind (upholds_intermediate keeps path) fun _ => .bind (upholds_library id) fun _ =>
      upholds_onFrontend (keeps.instantiate _ _ _)
  | standard version =>
    exact .bind (upholds_onFrontend (keeps.loadStandardLibrary version)) fun _ =>
      upholds_onFrontend (keeps.flattenWithStandardLibrary _ _ _ _)

theorem upholds_compile (keeps : Frontend.Keeps inv) (model path : String)
    (source : LibrarySource) : Upholds inv (compile (F := F) (B := B) model path source) := by
  refine .bind .get fun _ => .bind (upholds_flatten keeps _) fun _ => ?_
  refine .bind upholds_onBackend fun _ => .bind (.modify fun _ h => h) fun _ => ?_
  exact .bind (.writeIf _ _ _) fun _ => .write _ _

theorem upholds_simulateCompiled (model : String) (span : TimeSpan) (solver : String) :
    Upholds inv (simulateCompiled (F := F) (B := B) model span solver) :=
  .bind (upholds_compiled model) fun _ => .bind (.write _ _) fun _ => upholds_onBackend

theorem upholds_simulate (keeps : Frontend.Keeps inv) (request : RunRequest) :
    Upholds inv (simulate (F := F) (B := B) request) := by
  obtain ⟨model, source, span, solver⟩ := request
  cases source with
  | file path source =>
    exact .bind (upholds_compile keeps model path source) fun _ =>
      .bind .get fun _ => upholds_simulateCompiled _ _ _
  | registry => exact .bind .get fun _ => upholds_simulateCompiled _ _ _

theorem upholds_resimulate (model : String) (span : TimeSpan) (solver : String) :
    Upholds inv (resimulate (F := F) (B := B) model span solver) := by
  refine .bind (.attempt (upholds_simulateCompiled _ _ _)) fun attempted => ?_
  cases attempted with
  | ok trajectory => exact .done _
  | error failure =>
    refine .bind .get fun s => ?_
    split
    · exact .bind (.write _ _) fun _ => .bind (.write _ _) fun _ => .done _
    · exact .fail _

/-! ## Calls -/

/-- A call that changes the frontend from outside does so in a way of the given kind. -/
def Call.Changes (kind : (F → F) → Prop) : Call F → Prop
  | .changeFrontend change => kind change
  | _ => True

theorem Call.upholds_perform (keeps : Frontend.Keeps inv) {kind : (F → F) → Prop}
    (kind_keeps : ∀ change, kind change → ∀ f, inv f → inv (change f)) {c : Call F}
    (h : c.Changes kind) : Upholds inv (c.perform : Operation F B Unit) := by
  have ignoring {β : Type} {a : Operation F B β} (h : Upholds inv a) :
      Upholds inv (ignoring a) := .bind h fun _ => .done _
  cases c with
  | changeFrontend change => exact .modify fun s => kind_keeps change h s.frontend
  | enableFrontendDiagnostics => exact .modify fun s => keeps.setVerbose s.frontend
  | enableBackendDiagnostics => exact .modify fun _ h => h
  | loadLibrary id => exact upholds_loadLibrary keeps id
  | library id => exact ignoring (upholds_library id)
  | intermediate path => exact ignoring (upholds_intermediate keeps path)
  | flatten request => exact ignoring (upholds_flatten keeps request)
  | compile model path source => exact upholds_compile keeps model path source
  | compiled model => exact ignoring (upholds_compiled model)
  | simulate request => exact ignoring (upholds_simulate keeps request)
  | resimulate model span solver => exact ignoring (upholds_resimulate model span solver)

/-- A new session does no more to the frontend it is given than to make it verbose. -/
theorem start_upholds (keeps : Frontend.Keeps inv) {frontend : F} (h : inv frontend) (backend : B)
    (configuration : Configuration) : inv (start frontend backend configuration).frontend := by
  unfold start
  dsimp only
  by_cases loud : configuration.diagnostics.frontend = true
  · rw [if_pos loud]
    split
    · exact keeps.setVerbose frontend h
    · exact keeps.setVerbose frontend h
  · rw [if_neg loud]
    split
    · exact h
    · exact h

/-- What every call maintains holds after any calls if it held before them. -/
theorem after_maintains {holds : Session F B → Prop} {calls : List (Call F)}
    (step : ∀ c ∈ calls, Action.Maintains holds (c.perform : Operation F B Unit))
    {s : Session F B} (h : holds s) : holds (after s calls) := by
  induction calls generalizing s with
  | nil => exact h
  | cons c calls ih =>
    exact ih (fun c' mem => step c' (List.mem_cons_of_mem c mem))
      (step c List.mem_cons_self s h)

end Session

end Acausal
