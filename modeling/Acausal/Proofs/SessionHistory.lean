-- What a session tells against the calls that were made on it. A call stores at most one library
-- and at most one compiled model, so after any calls the tables of a session are what these
-- calls stored, one after the other, and under each name there is what was stored last.
import Acausal.Proofs.SessionSteps
import Acausal.Proofs.Tables

namespace Acausal.Session

variable {F B : Type} [Frontend F] [Backend B (Frontend.Flat F)]

/-! ## What one operation stores -/

/-- The warning that goes with storing a compiled model where there are others already. -/
def warnings {β : Type} (names : List String) : Option (String × β) → List Record
  | some (model, _) => if model ∈ names then [replacement model] else []
  | none => []

theorem warnings_congr {β : Type} {names names' : List String}
    (same : ∀ name, name ∈ names ↔ name ∈ names') (model : Option (String × β)) :
    warnings names model = warnings names' model := by
  cases model with
  | none => rfl
  | some entry => simp only [warnings, same]

/-- An operation stores the given library and the given model, and it writes the warning that
goes with this model and no other of the session's own. -/
structure Stores {β : Type} (a : Operation F B β) (s : Session F B)
    (library : Option (String × Frontend.Program F))
    (model : Option (String × Backend.Artifact B)) : Prop where
  libraries_eq : (a.run s).state.libraries = s.libraries.insertAll library.toList
  registry_eq : (a.run s).state.registry = s.registry.insertAll model.toList
  log_eq : ∃ early late, (a.run s).log = early ++ warnings s.compiledModels model ++ late ∧
    ∀ r ∈ early ++ late, Routine F B r

namespace Stores

variable {β γ : Type} {failure : Failure F B → Prop} {a : Operation F B β}
  {next : β → Operation F B γ} {s : Session F B}

theorem congr {a' : Operation F B β} {library : Option (String × Frontend.Program F)}
    {model : Option (String × Backend.Artifact B)} (h : Stores a s library model)
    (same : a'.run s = a.run s) : Stores a' s library model := by
  refine ⟨?_, ?_, ?_⟩
  all_goals rw [same]
  · exact h.libraries_eq
  · exact h.registry_eq
  · exact h.log_eq

/-- Nothing is stored by an operation that leaves everything alone. -/
theorem of_harmless (h : Harmless failure a) : Stores a s none none where
  libraries_eq := congrArg (·.1) (h.view_eq s)
  registry_eq := congrArg (·.2.1) (h.view_eq s)
  log_eq := by
    refine ⟨(a.run s).log, [], by simp [warnings], fun r hr => ?_⟩
    rw [List.append_nil] at hr
    exact h.record_of s r hr

/-- A harmless operation that comes first may fail, and then nothing is stored. -/
theorem harmless_bind {library : β → Option (String × Frontend.Program F)}
    {model : β → Option (String × Backend.Artifact B)} (h : Harmless failure a)
    (stores : ∀ b t, t.holdings = s.holdings → Stores (next b) t (library b) (model b)) :
    Stores (a >>= next) s ((a.run s).result.toOption.bind library)
      ((a.run s).result.toOption.bind model) := by
  have same := h.view_eq s
  -- Whether a name is known already is asked after the harmless part, which changes no names.
  cases result : (a.run s).result with
  | error e =>
    have stopped := Action.run_bind_error next result
    have nothing : Stores a s none none := of_harmless h
    refine ⟨?_, ?_, ?_⟩
    all_goals rw [stopped]
    · exact nothing.libraries_eq
    · exact nothing.registry_eq
    · exact nothing.log_eq
  | ok b =>
    have on := Action.run_bind_ok next result
    obtain ⟨libraries, registry, early, late, log, routine⟩ := stores b _ same
    simp only [holdings, Prod.mk.injEq] at same
    refine ⟨?_, ?_, (a.run s).log ++ early, late, ?_, fun r hr => ?_⟩
    · rw [on, libraries, same.1]
      rfl
    · rw [on, registry, same.2.1]
      rfl
    · rw [on]
      simp only [log, compiledModels, same.2.1, Except.toOption, Option.bind_some,
        List.append_assoc]
    · rw [List.append_assoc] at hr
      rcases List.mem_append.1 hr with hr | hr
      · exact h.record_of s r hr
      · exact routine r hr

/-- A harmless operation that comes after stores nothing more. -/
theorem bind_harmless {library : Option (String × Frontend.Program F)}
    {model : Option (String × Backend.Artifact B)} (h : Stores a s library model)
    (harmless : ∀ b, Harmless failure (next b)) : Stores (a >>= next) s library model := by
  cases result : (a.run s).result with
  | error e =>
    have stopped := Action.run_bind_error next result
    refine ⟨?_, ?_, ?_⟩
    all_goals rw [stopped]
    · exact h.libraries_eq
    · exact h.registry_eq
    · exact h.log_eq
  | ok b =>
    have on := Action.run_bind_ok next result
    have same := (harmless b).view_eq (a.run s).state
    obtain ⟨libraries, registry, early, late, log, routine⟩ := h
    refine ⟨?_, ?_, early, late ++ ((next b).run (a.run s).state).log, ?_, fun r hr => ?_⟩
    · rw [on]
      exact (congrArg (·.1) same).trans libraries
    · rw [on]
      exact (congrArg (·.2.1) same).trans registry
    · rw [on, log, List.append_assoc]
    · rw [← List.append_assoc] at hr
      rcases List.mem_append.1 hr with hr | hr
      · exact routine r hr
      · exact (harmless b).record_of _ r hr

end Stores

/-- The library that loading stores, under its id. -/
def loaded? (id : String) (s : Session F B) : Option (String × Frontend.Program F) :=
  ((fetched id).run s).result.toOption.map (id, ·)

/-- The compiled model that compiling stores, under its name. -/
def built? (model path : String) (source : LibrarySource) (s : Session F B) :
    Option (String × Backend.Artifact B) :=
  ((made model path source).run s).result.toOption.map (model, ·)

theorem stores_loadLibrary (id : String) (s : Session F B) :
    Stores (loadLibrary id) s (loaded? id s) none := by
  have stored : ∀ program t, Stores (keepLibrary (F := F) (B := B) id program) t
      (some (id, program)) none := by
    intro program t
    refine ⟨rfl, rfl, [], _, by rw [run_keepLibrary]; rfl, fun r hr => ?_⟩
    rw [List.nil_append, List.mem_singleton] at hr
    exact hr ▸ nofun
  have stores := Stores.harmless_bind (harmless_fetched id) (s := s) fun program t _ =>
    stored program t
  rw [Option.bind_fun_none] at stores
  rwa [loadLibrary_eq, loaded?, Option.map_eq_bind]

theorem stores_compile (model path : String) (source : LibrarySource) (s : Session F B) :
    Stores (compile model path source) s none (built? model path source s) := by
  have stored : ∀ artifact t, t.holdings = s.holdings →
      Stores (keepModel (F := F) model path (s.registry.contains model) artifact) t none
        (some (model, artifact)) := by
    intro artifact t same
    simp only [holdings, Prod.mk.injEq] at same
    refine ⟨?_, ?_, [], [⟨.info, "translated " ++ model ++ " from " ++ path⟩], ?_, fun r hr => ?_⟩
    · rw [run_keepModel]
      rfl
    · rw [run_keepModel]
      rfl
    · have known : model ∈ s.registry.names ↔ s.registry.contains model := Table.mem_names_iff
      rw [run_keepModel, warnings, compiledModels, same.2.1, if_congr known rfl rfl]
      rfl
    · rw [List.nil_append, List.mem_singleton] at hr
      exact hr ▸ nofun
  have stores := Stores.harmless_bind (harmless_made model path source) (s := s) stored
  rw [Option.bind_fun_none] at stores
  rw [built?, Option.map_eq_bind]
  exact stores.congr (run_compile model path source s)

/-- Loading succeeds where it has a library to store. -/
theorem loadLibrary_ok_iff (id : String) (s : Session F B) :
    ((loadLibrary id).run s).result = .ok () ↔ (loaded? id s).isSome := by
  rw [loadLibrary_eq, loaded?]
  rcases Action.run_bind_cases (fetched id) (keepLibrary id) s with
    ⟨e, result, run⟩ | ⟨program, result, run⟩
  · rw [run, result]
    simp [Except.toOption]
  · rw [run, result, run_keepLibrary]
    simp [Except.toOption]

/-- Compiling succeeds where it has a model to store. -/
theorem compile_ok_iff (model path : String) (source : LibrarySource) (s : Session F B) :
    ((compile model path source).run s).result = .ok () ↔ (built? model path source s).isSome := by
  rw [run_compile, built?]
  rcases Action.run_bind_cases (made model path source) (keepModel model path _) s with
    ⟨e, result, run⟩ | ⟨artifact, result, run⟩
  · rw [run, result]
    simp [Except.toOption]
  · rw [run, result, run_keepModel]
    simp [Except.toOption]

/-- A run of a source text stores what compiling it stores, even if the run itself fails. -/
theorem stores_simulate_file (model path : String) (source : LibrarySource)
    (span : Option TimeSpan) (solver : Option String) (s : Session F B) :
    Stores (simulate ⟨model, .file path source, span, solver⟩) s none
      (built? model path source s) := by
  rw [simulate_file]
  exact (stores_compile model path source s).bind_harmless fun _ =>
    harmless_simulate_registry model span solver

/-! ## Calls -/

/-- A call on a session. Adding a source text and registering a library change the frontend. -/
inductive Call (F : Type) where
  | changeFrontend (change : F → F)
  | enableFrontendDiagnostics
  | enableBackendDiagnostics
  | loadLibrary (id : String)
  | library (id : String)
  | intermediate (path : String)
  | flatten (request : FlattenRequest)
  | compile (model path : String) (source : LibrarySource)
  | compiled (model : String)
  | simulate (request : RunRequest)
  | resimulate (model : String) (span : TimeSpan) (solver : String)

/-- An operation whose result is not looked at. -/
def ignoring {β : Type} (a : Operation F B β) : Operation F B Unit := a >>= fun _ => pure ()

namespace Call

/-- The operation that a call makes. -/
def perform : Call F → Operation F B Unit
  | changeFrontend change => Action.modify fun s => { s with frontend := change s.frontend }
  | enableFrontendDiagnostics => Action.modify Session.enableFrontendDiagnostics
  | enableBackendDiagnostics => Action.modify Session.enableBackendDiagnostics
  | loadLibrary id => Session.loadLibrary id
  | library id => ignoring (Session.library id)
  | intermediate path => ignoring (Session.intermediate path)
  | flatten request => ignoring (Session.flatten request)
  | compile model path source => Session.compile model path source
  | compiled model => ignoring (Session.compiled model)
  | simulate request => ignoring (Session.simulate request)
  | resimulate model span solver => ignoring (Session.resimulate model span solver)

/-- The library that a call loads, if it succeeds in that. -/
def library? (s : Session F B) : Call F → Option (String × Frontend.Program F)
  | loadLibrary id => loaded? id s
  | _ => none

/-- The model that a call compiles, if it gets as far as that. -/
def model? (s : Session F B) : Call F → Option (String × Backend.Artifact B)
  | compile model path source => built? model path source s
  | simulate ⟨model, .file path source, _, _⟩ => built? model path source s
  | _ => none

theorem stores (c : Call F) (s : Session F B) :
    Stores c.perform s (c.library? s) (c.model? s) := by
  have nothing : ∀ u, Harmless (fun _ => False) (pure u : Operation F B Unit) := .done
  have ignored {β : Type} {failure : Failure F B → Prop} {a : Operation F B β}
      (h : Harmless failure a) : Stores (ignoring a) s none none :=
    (Stores.of_harmless h).bind_harmless fun _ => nothing ()
  cases c with
  | changeFrontend change => exact ⟨rfl, rfl, [], [], rfl, nofun⟩
  | enableFrontendDiagnostics => exact ⟨rfl, rfl, [], [], rfl, nofun⟩
  | enableBackendDiagnostics => exact ⟨rfl, rfl, [], [], rfl, nofun⟩
  | loadLibrary id => exact stores_loadLibrary id s
  | library id => exact ignored (harmless_library id)
  | intermediate path => exact ignored (harmless_intermediate path)
  | flatten request => exact ignored (harmless_flatten request)
  | compile model path source => exact stores_compile model path source s
  | compiled model => exact ignored (harmless_compiled model)
  | simulate request =>
    obtain ⟨model, source, span, solver⟩ := request
    cases source with
    | registry => exact ignored (harmless_simulate_registry model span solver)
    | file path source =>
      exact (stores_simulate_file model path source span solver s).bind_harmless fun _ => nothing ()
  | resimulate model span solver => exact ignored (harmless_resimulate model span solver)

end Call

/-! ## Histories -/

/-- A session after some calls. -/
def after (s : Session F B) (calls : List (Call F)) : Session F B :=
  calls.foldl (fun s c => (c.perform.run s).state) s

/-- What calls give, each in the state where it is made. -/
def gathered {β : Type} (given : Session F B → Call F → Option β) :
    Session F B → List (Call F) → List β
  | _, [] => []
  | s, c :: calls => (given s c).toList ++ gathered given (c.perform.run s).state calls

/-- The libraries that calls load. -/
abbrev librariesLoaded (s : Session F B) (calls : List (Call F)) :
    List (String × Frontend.Program F) :=
  gathered Call.library? s calls

/-- The models that calls compile. -/
abbrev modelsBuilt (s : Session F B) (calls : List (Call F)) :
    List (String × Backend.Artifact B) :=
  gathered Call.model? s calls

theorem after_append (s : Session F B) (earlier later : List (Call F)) :
    after s (earlier ++ later) = after (after s earlier) later :=
  List.foldl_append

/-- The tables of a session are what the calls gave, stored one after the other. -/
theorem tables_after (s : Session F B) (calls : List (Call F)) :
    (after s calls).libraries = s.libraries.insertAll (librariesLoaded s calls) ∧
      (after s calls).registry = s.registry.insertAll (modelsBuilt s calls) := by
  induction calls generalizing s with
  | nil => exact ⟨rfl, rfl⟩
  | cons c calls ih =>
    obtain ⟨libraries, registry⟩ := ih (c.perform.run s).state
    have stores := c.stores s
    rw [stores.libraries_eq, ← Table.insertAll_append] at libraries
    rw [stores.registry_eq, ← Table.insertAll_append] at registry
    exact ⟨libraries, registry⟩

/-! ## What a session tells -/

/-- An answer from a table, or the failure of a name that is not there. -/
def answer {β : Type} (missing : Failure F B) : Option β → Except (Failure F B) β
  | some b => .ok b
  | none => .error missing

theorem result_library (id : String) (s : Session F B) :
    ((library id).run s).result = answer (.libraryNotLoaded id) (s.libraries.get? id) := by
  change ((Action.ofExcept (s.libraries.library id)).run s).result = _
  unfold Table.library
  cases s.libraries.get? id <;> rfl

theorem result_compiled (model : String) (s : Session F B) :
    ((compiled model).run s).result = answer (.modelNotCompiled model) (s.registry.get? model) := by
  change ((Action.ofExcept (s.registry.compiled model)).run s).result = _
  unfold Table.compiled
  cases s.registry.get? model <;> rfl

/-- All that a session tells after some calls follows from the calls. -/
structure Follows (s : Session F B) (calls : List (Call F)) : Prop where
  models_ordered : (after s calls).compiledModels.Pairwise (· < ·)
  /-- The compiled models are those that some call got as far as compiling. -/
  mem_models : ∀ model, model ∈ (after s calls).compiledModels ↔
    ∃ artifact, (model, artifact) ∈ modelsBuilt s calls
  /-- Under a name there is the model that was compiled last. -/
  compiled_eq : ∀ model, ((compiled model).run (after s calls)).result =
    answer (.modelNotCompiled model) (latest? (modelsBuilt s calls) model)
  /-- A model stays until one is compiled under its name again. -/
  models_kept : ∀ earlier later, calls = earlier ++ later → ∀ model,
    (∀ e ∈ modelsBuilt (after s earlier) later, e.1 ≠ model) →
      ((compiled model).run (after s calls)).result =
        ((compiled model).run (after s earlier)).result
  /-- A call warns of a replacement if it compiles a model under a name that a call before it
  compiled one under, and gives no other warning of the session's own. -/
  warned : ∀ earlier c later, calls = earlier ++ c :: later →
    ∃ early late, (c.perform.run (after s earlier)).log =
        early ++ warnings ((modelsBuilt s earlier).map (·.1)) (c.model? (after s earlier)) ++ late ∧
      ∀ r ∈ early ++ late, Routine F B r
  libraries_ordered : (after s calls).loadedLibraries.Pairwise (· < ·)
  /-- The loaded libraries are those that some call loaded with success. -/
  mem_libraries : ∀ id, id ∈ (after s calls).loadedLibraries ↔
    ∃ program, (id, program) ∈ librariesLoaded s calls
  /-- Under an id there is the library that was loaded last. -/
  library_eq : ∀ id, ((library id).run (after s calls)).result =
    answer (.libraryNotLoaded id) (latest? (librariesLoaded s calls) id)
  /-- A library stays until one is loaded under its id again. -/
  libraries_kept : ∀ earlier later, calls = earlier ++ later → ∀ id,
    (∀ e ∈ librariesLoaded (after s earlier) later, e.1 ≠ id) →
      ((library id).run (after s calls)).result = ((library id).run (after s earlier)).result

theorem start_tables (frontend : F) (backend : B) (configuration : Configuration) :
    (start frontend backend configuration).libraries = .empty ∧
      (start frontend backend configuration).registry = .empty := by
  unfold start
  dsimp only
  split <;> split <;> exact ⟨rfl, rfl⟩

/-- From a new session on, the libraries, the compiled models and the warnings follow from the
history of calls alone. -/
theorem caches_follow_calls (frontend : F) (backend : B) (configuration : Configuration)
    (calls : List (Call F)) : Follows (start frontend backend configuration) calls := by
  generalize fresh : start frontend backend configuration = s
  obtain ⟨noLibraries, noModels⟩ := fresh ▸ start_tables frontend backend configuration
  have libraries : ∀ calls, (after s calls).libraries =
      Table.empty.insertAll (librariesLoaded s calls) :=
    fun calls => noLibraries ▸ (tables_after s calls).1
  have registry : ∀ calls, (after s calls).registry =
      Table.empty.insertAll (modelsBuilt s calls) :=
    fun calls => noModels ▸ (tables_after s calls).2
  refine ⟨Table.names_ordered _, ?_, ?_, ?_, ?_, Table.names_ordered _, ?_, ?_, ?_⟩
  · intro model
    rw [compiledModels, registry]
    exact Table.mem_names_insertAll
  · intro model
    rw [result_compiled, registry, Table.get?_insertAll, Table.get?_empty, Option.or_none]
  · rintro earlier later rfl model untouched
    rw [result_compiled, result_compiled, after_append, (tables_after _ later).2,
      Table.get?_insertAll, latest?_eq_none untouched, Option.none_or]
  · rintro earlier c later -
    obtain ⟨early, late, log, routine⟩ := (c.stores (after s earlier)).log_eq
    refine ⟨early, late, ?_, routine⟩
    have names : ∀ name, name ∈ (after s earlier).compiledModels ↔
        name ∈ (modelsBuilt s earlier).map (·.1) := by
      intro name
      rw [compiledModels, registry, Table.mem_names_insertAll, List.mem_map]
      simp
    rw [log, warnings_congr names]
  · intro id
    rw [loadedLibraries, libraries]
    exact Table.mem_names_insertAll
  · intro id
    rw [result_library, libraries, Table.get?_insertAll, Table.get?_empty, Option.or_none]
  · rintro earlier later rfl id untouched
    rw [result_library, result_library, after_append, (tables_after _ later).1,
      Table.get?_insertAll, latest?_eq_none untouched, Option.none_or]

end Acausal.Session
