-- Operations of a session that fail. What a session holds on to is stored as the last thing that
-- an operation does, so a failure leaves it alone. There is one exception: a run of a source
-- text stores the compiled model before the run itself, which may fail after that.
import Acausal.Proofs.SessionSteps
import Acausal.Session.Numeric

namespace Acausal

namespace Session

variable {F B : Type} [Frontend F] [Backend B (Frontend.Flat F)]

/-! ## Loading and compiling -/

theorem loadLibrary_failed {s : Session F B} {id : String} {e : Failure F B}
    (h : ((loadLibrary id).run s).result = .error e) :
    ((loadLibrary id).run s).state.holdings = s.holdings := by
  rw [loadLibrary_eq] at h ⊢
  rcases Action.run_bind_cases (fetched id) (keepLibrary id) s with
    ⟨cause, -, run⟩ | ⟨program, -, run⟩
  · rw [run]
    exact (harmless_fetched id).view_eq s
  · rw [run, run_keepLibrary] at h
    cases h

theorem compile_failed {s : Session F B} {model path : String} {source : LibrarySource}
    {e : Failure F B} (h : ((compile model path source).run s).result = .error e) :
    BeforeRun e ∧ ((compile model path source).run s).state.holdings = s.holdings := by
  rw [run_compile] at h ⊢
  rcases Action.run_bind_cases (made model path source) (keepModel model path _) s with
    ⟨cause, result, run⟩ | ⟨artifact, -, run⟩
  · rw [run] at h ⊢
    cases h
    exact ⟨(harmless_made model path source).failure_of s _ result,
      (harmless_made model path source).view_eq s⟩
  · rw [run, run_keepModel] at h
    cases h

/-- After a successful compilation the model is there. -/
theorem compile_succeeded {s : Session F B} {model path : String} {source : LibrarySource}
    (h : ((compile model path source).run s).result = .ok ()) :
    ∃ artifact, ((compile model path source).run s).state.registry.get? model = some artifact ∧
      ((compile model path source).run s).state.holdings =
        (s.libraries, s.registry.insert model artifact, s.diagnostics) := by
  rw [run_compile] at h ⊢
  rcases Action.run_bind_cases (made model path source) (keepModel model path _) s with
    ⟨cause, -, run⟩ | ⟨artifact, -, run⟩
  · rw [run] at h
    cases h
  · have same := (harmless_made model path source).view_eq s
    simp only [holdings, Prod.mk.injEq] at same
    rw [run, run_keepModel]
    refine ⟨artifact, Table.get?_insert_self .., ?_⟩
    simp only [holdings, same]

/-! ## Runs of source texts -/

theorem simulate_failed_early {s : Session F B} {model path : String} {source : LibrarySource}
    {span : Option TimeSpan} {solver : Option String} {e : Failure F B}
    (h : ((simulate ⟨model, .file path source, span, solver⟩).run s).result = .error e)
    (early : BeforeRun e) :
    ((simulate ⟨model, .file path source, span, solver⟩).run s).state.holdings = s.holdings := by
  rw [simulate_file] at h ⊢
  rcases Action.run_bind_cases (compile model path source)
      (fun _ => simulate ⟨model, .registry, span, solver⟩) s with
    ⟨cause, result, run⟩ | ⟨_, result, run⟩
  · rw [run]
    exact (compile_failed result).2
  · -- With the model compiled the run can only fail in its own course, which is excluded.
    obtain ⟨artifact, held, -⟩ := compile_succeeded result
    rw [run] at h
    obtain ⟨cause, rfl⟩ := failure_of_compiled held h
    exact absurd rfl (early model cause)

theorem simulate_failed_late {s : Session F B} {model path : String} {source : LibrarySource}
    {span : Option TimeSpan} {solver : Option String} {named : String}
    {cause : Backend.Failure B}
    (h : ((simulate ⟨model, .file path source, span, solver⟩).run s).result =
      .error (.integration named cause)) :
    ((compile model path source).run s).result = .ok () ∧
      ((simulate ⟨model, .file path source, span, solver⟩).run s).state.holdings =
        (s.libraries, ((compile model path source).run s).state.registry, s.diagnostics) := by
  rw [simulate_file] at h ⊢
  rcases Action.run_bind_cases (compile model path source)
      (fun _ => simulate ⟨model, .registry, span, solver⟩) s with
    ⟨e, result, run⟩ | ⟨_, result, run⟩
  · rw [run] at h
    cases h
    exact absurd rfl ((compile_failed result).1 named cause)
  · refine ⟨result, ?_⟩
    obtain ⟨artifact, -, holds⟩ := compile_succeeded result
    have after := (harmless_simulate_registry model span solver).view_eq
      ((compile model path source).run s).state
    rw [run, after]
    simp only [holdings, Prod.mk.injEq] at holds ⊢
    exact ⟨holds.1, trivial, holds.2.2⟩

/-! ## The law of failed operations -/

/-- An operation that fails leaves the libraries, the compiled models and the diagnostics of a
session as they were, unless it is a run of a source text that fails in its own course: then
the models are those that compiling the source text leaves, which succeeds. Flattening and
running a compiled model leave all of this alone in any case. -/
theorem failures_change_nothing (s : Session F B) :
    (∀ id e, ((loadLibrary id).run s).result = .error e →
      ((loadLibrary id).run s).state.holdings = s.holdings) ∧
    (∀ request, ((flatten request).run s).state.holdings = s.holdings) ∧
    (∀ model path source e, ((compile model path source).run s).result = .error e →
      ((compile model path source).run s).state.holdings = s.holdings) ∧
    (∀ model span solver, ((simulate ⟨model, .registry, span, solver⟩).run s).state.holdings =
      s.holdings) ∧
    (∀ model path source span solver e,
      ((simulate ⟨model, .file path source, span, solver⟩).run s).result = .error e →
      (∀ named cause, e ≠ .integration named cause) →
      ((simulate ⟨model, .file path source, span, solver⟩).run s).state.holdings = s.holdings) ∧
    (∀ model path source span solver named cause,
      ((simulate ⟨model, .file path source, span, solver⟩).run s).result =
        .error (.integration named cause) →
      ((compile model path source).run s).result = .ok () ∧
      ((simulate ⟨model, .file path source, span, solver⟩).run s).state.holdings =
        (s.libraries, ((compile model path source).run s).state.registry, s.diagnostics)) ∧
    (∀ model span solver, ((resimulate model span solver).run s).state.holdings = s.holdings) := by
  refine ⟨fun id e h => loadLibrary_failed h,
    fun request => (harmless_flatten request).view_eq s,
    fun model path source e h => (compile_failed h).2,
    fun model span solver => (harmless_simulate_registry model span solver).view_eq s,
    fun model path source span solver e h early => simulate_failed_early h early,
    fun model path source span solver named cause h => simulate_failed_late h,
    fun model span solver => (harmless_resimulate model span solver).view_eq s⟩

end Session

/-- A session that knows the text of a model that decays. -/
def decaySession : NumericSession :=
  NumericSession.addSource "decay.mo"
    ("model Decay parameter Real k = 1; Real x(start = 1);" ++
      " equation der(x) = -k * x; end Decay;")
    (.start (.fresh fun _ => .error .notFound) (.quiet {}) {})

/-- What each way to fail leaves of that session: a library that is not registered, a model that
is not in the text, and a run with a method that there is not. -/
theorem decay_session_after_failures :
    (∃ cause, ((Session.loadLibrary "Gears").run decaySession).result =
        .error (.libraryLoad "Gears" cause) ∧
      ((Session.loadLibrary "Gears").run decaySession).state.holdings = decaySession.holdings) ∧
    (∃ cause, ((Session.compile "Rise" "decay.mo" .none).run decaySession).result =
        .error (.instantiation "Rise" cause) ∧
      ((Session.compile "Rise" "decay.mo" .none).run decaySession).state.holdings =
        decaySession.holdings) ∧
    (∃ cause, ((Session.simulate ⟨"Rise", .file "decay.mo" .none, none, none⟩).run
        decaySession).result = .error (.instantiation "Rise" cause) ∧
      ((Session.simulate ⟨"Rise", .file "decay.mo" .none, none, none⟩).run
        decaySession).state.holdings = decaySession.holdings) ∧
    (∃ cause, ((Session.simulate ⟨"Decay", .file "decay.mo" .none, none, some "unknown"⟩).run
        decaySession).result = .error (.integration "Decay" cause) ∧
      ((Session.compile "Decay" "decay.mo" .none).run decaySession).result = .ok () ∧
      ((Session.simulate ⟨"Decay", .file "decay.mo" .none, none, some "unknown"⟩).run
        decaySession).state.holdings =
          (decaySession.libraries,
            ((Session.compile "Decay" "decay.mo" .none).run decaySession).state.registry,
            decaySession.diagnostics)) := by
  obtain ⟨loads, -, compiles, -, runs, stops, -⟩ := Session.failures_change_nothing decaySession
  refine ⟨?_, ?_, ?_, ?_⟩
  · have failed : (match ((Session.loadLibrary "Gears").run decaySession).result with
      | .error (.libraryLoad "Gears" _) => true
      | _ => false) = true := by decide +kernel
    split at failed
    · next cause result => exact ⟨cause, result, loads _ _ result⟩
    · cases failed
  · have failed : (match ((Session.compile "Rise" "decay.mo" .none).run decaySession).result with
      | .error (.instantiation "Rise" _) => true
      | _ => false) = true := by decide +kernel
    split at failed
    · next cause result => exact ⟨cause, result, compiles _ _ _ _ result⟩
    · cases failed
  · have failed : (match ((Session.simulate ⟨"Rise", .file "decay.mo" .none, none, none⟩).run
        decaySession).result with
      | .error (.instantiation "Rise" _) => true
      | _ => false) = true := by decide +kernel
    split at failed
    · next cause result => exact ⟨cause, result, runs _ _ _ _ _ _ result fun _ _ => nofun⟩
    · cases failed
  · have failed : (match ((Session.simulate ⟨"Decay", .file "decay.mo" .none, none,
        some "unknown"⟩).run decaySession).result with
      | .error (.integration "Decay" _) => true
      | _ => false) = true := by decide +kernel
    split at failed
    · next cause result => exact ⟨cause, result, stops _ _ _ _ _ _ _ result⟩
    · cases failed

end Acausal
