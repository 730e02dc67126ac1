-- What each operation of a session does to what the session holds on to: its libraries, its
-- compiled models and its diagnostics. Loading a library and compiling a model each make
-- something first, which leaves all of this alone, and store it once it is there. Every other
-- operation leaves it alone throughout.
import Acausal.Proofs.Actions
import Acausal.Session.Basic

namespace Acausal

namespace Session

variable {F B : Type} [Frontend F] [Backend B (Frontend.Flat F)]

/-! ## What operations respect -/

/-- What a session holds on to: its libraries, its compiled models and its diagnostics. -/
def holdings (s : Session F B) :
    Table (Frontend.Program F) × Table (Backend.Artifact B) × Diagnostics :=
  (s.libraries, s.registry, s.diagnostics)

/-- A failure of another stage than a run. -/
def BeforeRun (e : Failure F B) : Prop := ∀ model cause, e ≠ .integration model cause

variable (F B) in
/-- A record that a collaborator can write in the course of an operation. -/
inductive ByCollaborator : Record → Prop
  | parse (f : F) (path : String) (r : Record)
      (written : r ∈ ((Frontend.parse path).run f).log) : ByCollaborator r
  | instantiate (f : F) (model : String) (program : Frontend.Program F) (scalar : Bool)
      (r : Record) (written : r ∈ ((Frontend.instantiate model program scalar).run f).log) :
      ByCollaborator r
  | loadLibrary (f : F) (id : String) (r : Record)
      (written : r ∈ ((Frontend.loadLibrary id).run f).log) : ByCollaborator r
  | loadStandardLibrary (f : F) (version : String) (r : Record)
      (written : r ∈ ((Frontend.loadStandardLibrary version).run f).log) : ByCollaborator r
  | flatten (f : F) (model path version : String) (scalar : Bool) (r : Record)
      (written : r ∈ ((Frontend.flattenWithStandardLibrary model path version scalar).run f).log) :
      ByCollaborator r
  | compile (b : B) (model : String) (flat : Frontend.Flat F) (r : Record)
      (written : r ∈ ((Backend.compile model flat).run b).log) : ByCollaborator r
  | integrate (b : B) (artifact : Backend.Artifact B) (span : TimeSpan) (solver : String)
      (r : Record) (written : r ∈ ((Backend.integrate artifact span solver).run b).log) :
      ByCollaborator r

variable (F B) in
/-- A record that is no warning of the session itself. -/
def Routine (r : Record) : Prop := r.level = .warn → ByCollaborator F B r

/-- An operation that leaves what the session holds on to, fails in certain ways only, and gives
no warning of its own. -/
abbrev Harmless {β : Type} (failure : Failure F B → Prop) (a : Operation F B β) : Prop :=
  Action.Respects holdings failure (Routine F B) a

theorem harmless_onFrontend {β : Type} {failure : Failure F B → Prop}
    {wrap : Frontend.Failure F → Failure F B} {a : Action F (Frontend.Failure F) β}
    (failures : ∀ d, failure (wrap d)) (records : ∀ f r, r ∈ (a.run f).log → ByCollaborator F B r) :
    Harmless failure (onFrontend wrap a) :=
  .onPart (fun _ _ => rfl) failures fun f r h _ => records f r h

theorem harmless_onBackend {β : Type} {failure : Failure F B → Prop}
    {wrap : Backend.Failure B → Failure F B} {a : Action B (Backend.Failure B) β}
    (failures : ∀ d, failure (wrap d)) (records : ∀ b r, r ∈ (a.run b).log → ByCollaborator F B r) :
    Harmless failure (onBackend wrap a) :=
  .onPart (fun _ _ => rfl) failures fun b r h _ => records b r h

theorem harmless_note {failure : Failure F B → Prop} {level : Level} (text : String)
    (h : level ≠ .warn) : Harmless failure (Action.write level text : Operation F B Unit) :=
  .write fun warns => absurd warns h

/-! ## Operations that store nothing -/

theorem harmless_library (id : String) : Harmless BeforeRun (library (F := F) (B := B) id) := by
  refine .bind .get fun s => .ofExcept fun e h => ?_
  unfold Table.library at h
  split at h
  · cases h
  · cases h
    exact fun _ _ => nofun

theorem harmless_compiled (model : String) :
    Harmless BeforeRun (compiled (F := F) (B := B) model) := by
  refine .bind .get fun s => .ofExcept fun e h => ?_
  unfold Table.compiled at h
  split at h
  · cases h
  · cases h
    exact fun _ _ => nofun

theorem harmless_intermediate (path : String) :
    Harmless BeforeRun (intermediate (F := F) (B := B) path) := by
  refine .bind (harmless_onFrontend (fun _ _ _ => nofun) fun f r => ?_) fun _ => .done _
  exact .parse f path r

theorem harmless_instantiate (model : String) (program : Frontend.Program F) (scalar : Bool) :
    Harmless BeforeRun (onFrontend (B := B) (.instantiation model)
      (Frontend.instantiate model program scalar)) :=
  harmless_onFrontend (fun _ _ _ => nofun) fun f r => .instantiate f model program scalar r

theorem harmless_flatten (request : FlattenRequest) :
    Harmless BeforeRun (flatten (F := F) (B := B) request) := by
  obtain ⟨model, path, source, scalar⟩ := request
  cases source with
  | none =>
    exact .bind (harmless_intermediate path) fun _ => harmless_instantiate ..
  | cached id =>
    exact .bind (harmless_intermediate path) fun _ =>
      .bind (harmless_library id) fun _ => harmless_instantiate ..
  | standard version =>
    refine .bind (harmless_onFrontend (fun _ _ _ => nofun) fun f r => ?_) fun _ =>
      harmless_onFrontend (fun cause => ?_) fun f r => ?_
    · exact .loadStandardLibrary f version r
    · unfold flattenFailure
      split
      · exact fun _ _ => nofun
      · exact fun _ _ => nofun
    · exact .flatten f model path version scalar r

/-- A run once the compiled model is at hand. -/
def integrated (model : String) (span : TimeSpan) (solver : String)
    (artifact : Backend.Artifact B) : Operation F B Trajectory := do
  Action.write .info ("simulating " ++ model ++ " over [" ++ plainText span.start ++ ", " ++
    plainText span.stop ++ "] with " ++ solver)
  onBackend (.integration model) (Backend.integrate artifact span solver)

/-- A run at hand fails in the course of the run only. -/
theorem harmless_integrated (model : String) (span : TimeSpan) (solver : String)
    (artifact : Backend.Artifact B) :
    Harmless (fun e => ∃ cause, e = .integration model cause)
      (integrated (F := F) model span solver artifact) :=
  .bind (harmless_note _ nofun) fun _ =>
    harmless_onBackend (fun cause => ⟨cause, rfl⟩) fun b r => .integrate b artifact span solver r

theorem harmless_simulateCompiled (model : String) (span : TimeSpan) (solver : String) :
    Harmless (fun _ => True) (simulateCompiled (F := F) (B := B) model span solver) :=
  .bind ((harmless_compiled model).weaken (fun _ _ => trivial) fun _ h => h) fun artifact =>
    (harmless_integrated model span solver artifact).weaken (fun _ _ => trivial) fun _ h => h

theorem harmless_simulate_registry (model : String) (span : Option TimeSpan)
    (solver : Option String) :
    Harmless (fun _ => True) (simulate (F := F) (B := B) ⟨model, .registry, span, solver⟩) :=
  .bind .get fun _ => harmless_simulateCompiled ..

theorem harmless_resimulate (model : String) (span : TimeSpan) (solver : String) :
    Harmless (fun _ => True) (resimulate (F := F) (B := B) model span solver) := by
  refine .bind (.attempt (harmless_simulateCompiled model span solver)) fun attempted => ?_
  cases attempted with
  | ok trajectory => exact .done _
  | error failure =>
    refine .bind .get fun s => ?_
    split
    · exact .bind (harmless_note _ nofun) fun _ => .bind (harmless_note _ nofun) fun _ => .done _
    · exact .fail trivial

/-! ## Making and storing -/

/-- A model flattened and compiled, and not stored. -/
def made (model path : String) (source : LibrarySource) : Operation F B (Backend.Artifact B) := do
  let s ← Action.get
  let (flat, _) ← flatten ⟨model, path, source, s.configuration.scalarize⟩
  onBackend (.compilation model) (Backend.compile model flat)

/-- A library as the frontend returns it, and not stored. -/
def fetched (id : String) : Operation F B (Frontend.Program F) :=
  onFrontend (.libraryLoad id) (Frontend.loadLibrary id)

theorem harmless_made (model path : String) (source : LibrarySource) :
    Harmless BeforeRun (made (F := F) (B := B) model path source) := by
  refine .bind .get fun _ => .bind (harmless_flatten _) fun flat =>
    harmless_onBackend (fun _ _ _ => nofun) fun b r => ?_
  exact .compile b model flat.1 r

theorem harmless_fetched (id : String) : Harmless BeforeRun (fetched (F := F) (B := B) id) :=
  harmless_onFrontend (fun _ _ _ => nofun) fun f r => .loadLibrary f id r

/-- The warning that an earlier model of a name is gone. -/
def replacement (model : String) : Record := ⟨.warn, "replaced compiled model " ++ model⟩

/-- What loading does once a library is fetched. -/
def keepLibrary (id : String) (program : Frontend.Program F) : Operation F B Unit := do
  let s ← Action.get
  Action.modify fun s => { s with libraries := s.libraries.insert id program }
  let verb := if s.libraries.contains id then "reloaded" else "loaded"
  Action.write .info (verb ++ " library " ++ id)

/-- What compiling does once a model is made. -/
def keepModel (model path : String) (replaced : Bool) (artifact : Backend.Artifact B) :
    Operation F B Unit := do
  Action.modify fun s => { s with registry := s.registry.insert model artifact }
  Action.writeIf replaced .warn ("replaced compiled model " ++ model)
  Action.write .info ("translated " ++ model ++ " from " ++ path)

theorem run_keepLibrary (id : String) (program : Frontend.Program F) (s : Session F B) :
    (keepLibrary id program).run s =
      ⟨.ok (), { s with libraries := s.libraries.insert id program },
        [⟨.info, (if s.libraries.contains id then "reloaded" else "loaded") ++
          " library " ++ id⟩]⟩ :=
  rfl

theorem run_keepModel (model path : String) (replaced : Bool) (artifact : Backend.Artifact B)
    (s : Session F B) : (keepModel model path replaced artifact).run s =
      ⟨.ok (), { s with registry := s.registry.insert model artifact },
        (if replaced then [replacement model] else []) ++
          [⟨.info, "translated " ++ model ++ " from " ++ path⟩]⟩ := by
  cases replaced <;> rfl

/-- Loading a library fetches it and then stores it. -/
theorem loadLibrary_eq (id : String) :
    loadLibrary (F := F) (B := B) id = fetched id >>= keepLibrary id := rfl

/-- Compiling a model makes it and then stores it. -/
theorem run_compile (model path : String) (source : LibrarySource) (s : Session F B) :
    (compile model path source).run s =
      (made model path source >>= keepModel model path (s.registry.contains model)).run s := by
  unfold compile made
  -- Both sides look at the session first, and then differ in the grouping of their parts only.
  rw [Action.run_get_bind, Action.run_bind_assoc, Action.run_get_bind, Action.run_bind_assoc]
  rfl

/-! ## Runs of source texts -/

/-- A run of a source text compiles the model and then runs it like any compiled model. -/
theorem simulate_file (model path : String) (source : LibrarySource) (span : Option TimeSpan)
    (solver : Option String) :
    simulate (F := F) (B := B) ⟨model, .file path source, span, solver⟩ = (do
      compile model path source
      simulate ⟨model, .registry, span, solver⟩) := rfl

/-- A run of a compiled model fails in the course of the run only. -/
theorem failure_of_compiled {s : Session F B} {model : String} {artifact : Backend.Artifact B}
    {span : Option TimeSpan} {solver : Option String} {e : Failure F B}
    (held : s.registry.get? model = some artifact)
    (failed : ((simulate ⟨model, .registry, span, solver⟩).run s).result = .error e) :
    ∃ cause, e = .integration model cause := by
  have found : ((compiled model).run s : Outcome _ (Failure F B) _) = ⟨.ok artifact, s, []⟩ := by
    change (Action.ofExcept (s.registry.compiled model)) s = _
    unfold Table.compiled
    rw [held]
    rfl
  change ((compiled model >>= integrated model (span.getD s.configuration.span)
    (solver.getD s.configuration.solver)).run s).result = .error e at failed
  rw [Action.run_bind_ok _ (congrArg Outcome.result found)] at failed
  exact (harmless_integrated ..).failure_of _ e failed

end Session

end Acausal
