-- Sessions on source texts and doubles. Their frontend and their backend write debug records
-- only, so every warning in the log of such a session is one of the session's own.
import Acausal.Proofs.SessionHistory
import Acausal.Session.Numeric

namespace Acausal

/-- An action that writes debug records only. -/
abbrev Action.Discreet {σ ε β : Type} (a : Action σ ε β) : Prop :=
  a.Respects (fun _ => ()) (fun _ => True) (·.level = .debug)

theorem Action.discreet_ofExcept {σ ε β : Type} (result : Except ε β) :
    (Action.ofExcept result : Action σ ε β).Discreet :=
  .ofExcept fun _ _ => trivial

theorem Action.discreet_modify {σ ε : Type} (change : σ → σ) :
    (Action.modify change : Action σ ε Unit).Discreet :=
  ⟨fun _ => rfl, fun _ _ _ => trivial, nofun⟩

theorem Action.discreet_writeIf {σ ε : Type} (flag : Bool) (text : String) :
    (Action.writeIf flag .debug text : Action σ ε Unit).Discreet := by
  cases flag with
  | false => exact .done ()
  | true => exact .write rfl

open Acausal.Action

/-! ## The frontend -/

namespace SourceFrontend

theorem discreet_parse (path : String) : (parse path).Discreet :=
  .bind .get fun _ => discreet_ofExcept _

theorem discreet_standardProgram (version : String) : (standardProgram version).Discreet := by
  refine .bind .get fun f => ?_
  split
  · exact .done _
  · exact .bind (discreet_ofExcept _) fun _ => .bind (discreet_writeIf _ _) fun _ =>
      .bind (discreet_modify _) fun _ => .done _

theorem discreet_instantiate (model : String) (program : Program Float) (scalar : Bool) :
    (instantiate model program scalar).Discreet :=
  .bind .get fun _ => .bind (discreet_ofExcept _) fun _ =>
    .bind (discreet_writeIf _ _) fun _ => .done _

theorem discreet_loadLibrary (id : String) : (loadLibrary id).Discreet := by
  refine .bind .get fun f => ?_
  split
  · exact .bind (discreet_parse _) fun _ => .done _
  · split
    · exact discreet_standardProgram id
    · exact .fail trivial

theorem discreet_loadStandardLibrary (version : String) :
    (loadStandardLibrary version).Discreet :=
  .bind (discreet_standardProgram version) fun _ => .done _

theorem discreet_flattenWithStandardLibrary (model path version : String) (scalar : Bool) :
    (flattenWithStandardLibrary model path version scalar).Discreet :=
  .bind (discreet_standardProgram version) fun _ => .bind (discreet_parse path) fun _ =>
    discreet_instantiate ..

end SourceFrontend

/-! ## The backend -/

namespace NumericBackend

theorem discreet_compile (model : String) (flat : FlatModel Float) :
    (compile model flat).Discreet :=
  .bind .get fun _ => .bind (discreet_ofExcept _) fun _ =>
    .bind (discreet_writeIf _ _) fun _ => .done _

theorem discreet_integrate (m : CompiledModel Float) (span : TimeSpan) (solver : String) :
    (integrate m span solver).Discreet :=
  .bind .get fun _ => .bind (discreet_ofExcept _) fun _ =>
    .bind (discreet_writeIf _ _) fun _ => .done _

end NumericBackend

/-! ## Warnings of a session -/

namespace NumericSession

open Session

theorem debug_of_byCollaborator {r : Record} (h : ByCollaborator SourceFrontend NumericBackend r) :
    r.level = .debug := by
  cases h with
  | parse f path _ written => exact (SourceFrontend.discreet_parse path).record_of f r written
  | instantiate f model program scalar _ written =>
    exact (SourceFrontend.discreet_instantiate model program scalar).record_of f r written
  | loadLibrary f id _ written =>
    exact (SourceFrontend.discreet_loadLibrary id).record_of f r written
  | loadStandardLibrary f version _ written =>
    exact (SourceFrontend.discreet_loadStandardLibrary version).record_of f r written
  | flatten f model path version scalar _ written =>
    exact (SourceFrontend.discreet_flattenWithStandardLibrary model path version scalar).record_of
      f r written
  | compile b model flat _ written =>
    exact (NumericBackend.discreet_compile model flat).record_of b r written
  | integrate b artifact span solver _ written =>
    exact (NumericBackend.discreet_integrate artifact span solver).record_of b r written

/-- A routine record is no warning, for the collaborators give none. -/
theorem not_warn_of_routine {r : Record} (h : Routine SourceFrontend NumericBackend r) :
    r.level ≠ .warn := by
  intro warns
  rw [debug_of_byCollaborator (h warns)] at warns
  cases warns

/-- The warnings that a call gives are those that go with the model it compiles. -/
theorem warnings_of_call (s : NumericSession) (c : Call SourceFrontend) :
    (c.perform.run s).log.filter (·.level = .warn) = warnings s.compiledModels (c.model? s) := by
  obtain ⟨early, late, log, routine⟩ := (c.stores s).log_eq
  have quiet : ∀ {rs : List Record}, (∀ r ∈ rs, Routine SourceFrontend NumericBackend r) →
      rs.filter (·.level = .warn) = [] := by
    intro rs h
    rw [List.filter_eq_nil_iff]
    intro r hr
    simpa using not_warn_of_routine (h r hr)
  have loud : (warnings s.compiledModels (c.model? s)).filter (·.level = .warn) =
      warnings s.compiledModels (c.model? s) := by
    rw [List.filter_eq_self]
    intro r hr
    unfold warnings at hr
    split at hr
    · split at hr
      · rw [List.mem_singleton.1 hr]
        rfl
      · cases hr
    · cases hr
  rw [log, List.filter_append, List.filter_append, loud,
    quiet fun r hr => routine r (List.mem_append_left _ hr),
    quiet fun r hr => routine r (List.mem_append_right _ hr), List.nil_append, List.append_nil]

/-- A model compiled again after its text changed, the second time for a run that fails. -/
example : (modelsBuilt (.start (.fresh fun _ => .error .notFound) (.quiet {}) {} : NumericSession)
    [.changeFrontend (·.addSource "m.mo" "model M Real x; equation x = 1; end M;"),
      .compile "M" "m.mo" .none,
      .changeFrontend (·.addSource "m.mo" "model M Real x; equation x = 2; end M;"),
      .compile "N" "m.mo" .none,
      .simulate ⟨"M", .file "m.mo" .none, none, some "unknown"⟩]).map (·.1) = ["M", "M"] := by
  decide +kernel

end NumericSession

end Acausal
