-- Sessions that differ in their diagnostics only. Whether debug records are asked for decides on
-- nothing but whether they are written: twins of this kind perform every operation in step, with
-- the same result, and stay twins.
import Acausal.Proofs.PairedActions
import Acausal.Session.Numeric

namespace Acausal

/-! ## Flags -/

/-- Where the first flags ask for debug records the second ones do too. -/
structure Diagnostics.Within (d d' : Diagnostics) : Prop where
  frontend : d.frontend → d'.frontend
  backend : d.backend → d'.backend

/-- Logs under two sets of flags: they differ in debug records only, and more flags only add
some. -/
structure Adds (d d' : Diagnostics) (log log' : List Record) : Prop where
  notable_eq : notable log = notable log'
  sublist : d.Within d' → log.Sublist log'

theorem compositional_adds (d d' : Diagnostics) : Compositional (Adds d d') where
  refl log := ⟨rfl, fun _ => .refl log⟩
  append h h' := by
    refine ⟨?_, fun within => (h.sublist within).append (h'.sublist within)⟩
    rw [notable_append, notable_append, h.notable_eq, h'.notable_eq]

/-- A debug record that flags decide on is one that flags may add. -/
theorem adds_debug {d d' : Diagnostics} {flag flag' : Bool}
    (more : d.Within d' → flag → flag') (text : String) :
    Adds d d' (if flag then [⟨.debug, text⟩] else []) (if flag' then [⟨.debug, text⟩] else []) := by
  constructor
  · cases flag <;> cases flag' <;> rfl
  · intro within
    cases flag with
    | false => exact List.nil_sublist _
    | true =>
      have heard : flag' = true := more within rfl
      subst heard
      exact .refl _

/-! ## Frontends -/

namespace SourceFrontend

open Action

/-- Two frontends that differ in their flags only. -/
def Twins (flag flag' : Bool) (f g : SourceFrontend) : Prop :=
  f.verbose = flag ∧ g = { f with verbose := flag' }

section
variable {logs : List Record → List Record → Prop} {flag flag' : Bool}
  (compositional : Compositional logs)
  (debug : ∀ text, logs (if flag then [⟨.debug, text⟩] else [])
    (if flag' then [⟨.debug, text⟩] else []))
include compositional

theorem inStep_parse (path : String) :
    InStep (Twins flag flag') logs (parse path) (parse path) := by
  refine .get_bind ?_
  rintro f _ ⟨rfl, rfl⟩
  exact .ofExcept compositional _

include debug

theorem inStep_standardProgram (version : String) :
    InStep (Twins flag flag') logs (standardProgram version) (standardProgram version) := by
  refine .get_bind ?_
  rintro f _ ⟨rfl, rfl⟩
  dsimp only
  cases f.standard.get? (taggedVersion version) with
  | some program => exact .done compositional _
  | none =>
    refine .bind compositional (.ofExcept compositional _) fun program => ?_
    refine .bind compositional (.writeIf (debug _)) fun _ => ?_
    refine .bind compositional (.modify compositional ?_) fun _ => .done compositional _
    rintro g _ ⟨same, rfl⟩
    exact ⟨same, rfl⟩

theorem inStep_instantiate (model : String) (program : Program Float) (scalar : Bool) :
    InStep (Twins flag flag') logs (instantiate model program scalar)
      (instantiate model program scalar) := by
  refine .get_bind ?_
  rintro f _ ⟨rfl, rfl⟩
  refine .bind compositional (.ofExcept compositional _) fun made => ?_
  exact .bind compositional (.writeIf (debug _)) fun _ => .done compositional _

theorem inStep_loadLibrary (id : String) :
    InStep (Twins flag flag') logs (loadLibrary id) (loadLibrary id) := by
  refine .get_bind ?_
  rintro f _ ⟨rfl, rfl⟩
  dsimp only
  cases f.libraries.get? id with
  | some path =>
    exact .bind compositional (inStep_parse compositional path) fun _ => .done compositional _
  | none =>
    dsimp only
    split
    · exact inStep_standardProgram compositional debug id
    · exact .fail compositional _

theorem inStep_loadStandardLibrary (version : String) :
    InStep (Twins flag flag') logs (loadStandardLibrary version) (loadStandardLibrary version) :=
  .bind compositional (inStep_standardProgram compositional debug version) fun _ =>
    .done compositional _

theorem inStep_flattenWithStandardLibrary (model path version : String) (scalar : Bool) :
    InStep (Twins flag flag') logs (flattenWithStandardLibrary model path version scalar)
      (flattenWithStandardLibrary model path version scalar) :=
  .bind compositional (inStep_standardProgram compositional debug version) fun _ =>
    .bind compositional (inStep_parse compositional path) fun _ =>
      inStep_instantiate compositional debug ..

end

/-! ## Changes from outside -/

/-- A change of a frontend that takes no notice of whether debug records are asked for. -/
def Blind (change : SourceFrontend → SourceFrontend) : Prop :=
  ∀ f flag, change { f with verbose := flag } = { change f with verbose := flag }

theorem blind_addSource (path text : String) : Blind (·.addSource path text) := fun _ _ => rfl

theorem blind_registerLibrary (id path : String) : Blind (·.registerLibrary id path) :=
  fun _ _ => rfl

theorem Blind.twins {change : SourceFrontend → SourceFrontend} (blind : Blind change)
    {flag flag' : Bool} {f g : SourceFrontend} (h : Twins flag flag' f g) :
    Twins flag flag' (change f) (change g) := by
  obtain ⟨rfl, rfl⟩ := h
  have kept : change f = { change f with verbose := f.verbose } := blind f f.verbose
  refine ⟨?_, blind f flag'⟩
  rw [kept]

end SourceFrontend

/-! ## Backends -/

namespace NumericBackend

open Action

/-- Two backends that differ in their flags only. -/
def Twins (flag flag' : Bool) (b c : NumericBackend) : Prop :=
  b.verbose = flag ∧ c = { b with verbose := flag' }

section
variable {logs : List Record → List Record → Prop} {flag flag' : Bool}
  (compositional : Compositional logs)
  (debug : ∀ text, logs (if flag then [⟨.debug, text⟩] else [])
    (if flag' then [⟨.debug, text⟩] else []))
include compositional debug

theorem inStep_compile (model : String) (flat : FlatModel Float) :
    InStep (Twins flag flag') logs (compile model flat) (compile model flat) := by
  refine .get_bind ?_
  rintro b _ ⟨rfl, rfl⟩
  refine .bind compositional (.ofExcept compositional _) fun compiled => ?_
  exact .bind compositional (.writeIf (debug _)) fun _ => .done compositional _

theorem inStep_integrate (m : CompiledModel Float) (span : TimeSpan) (solver : String) :
    InStep (Twins flag flag') logs (integrate m span solver) (integrate m span solver) := by
  refine .get_bind ?_
  rintro b _ ⟨rfl, rfl⟩
  refine .bind compositional (.ofExcept compositional _) fun made => ?_
  exact .bind compositional (.writeIf (debug _)) fun _ => .done compositional _

end

end NumericBackend

/-! ## Sessions -/

namespace NumericSession

open Session Action

/-- Two sessions that differ in their diagnostics only. Their collaborators write debug records
where their flags ask for it and where they did so when the sessions began. -/
structure Twins (given d d' : Diagnostics) (s t : NumericSession) : Prop where
  frontend : SourceFrontend.Twins (given.frontend || d.frontend) (given.frontend || d'.frontend)
    s.frontend t.frontend
  backend : NumericBackend.Twins (given.backend || d.backend) (given.backend || d'.backend)
    s.backend t.backend
  libraries : s.libraries = t.libraries
  registry : s.registry = t.registry
  configuration : ∃ flags, t.configuration = { s.configuration with diagnostics := flags }
  first : s.diagnostics = d
  second : t.diagnostics = d'

/-- An operation that twins perform in step. -/
abbrev Steady (given d d' : Diagnostics) {β : Type}
    (a : Act β) : Prop :=
  InStep (Twins given d d') (Adds d d') a a

section
variable {given d d' : Diagnostics}

theorem adds_frontend (text : String) :
    Adds d d' (if given.frontend || d.frontend then [⟨.debug, text⟩] else [])
      (if given.frontend || d'.frontend then [⟨.debug, text⟩] else []) := by
  apply adds_debug
  intro within
  simp only [Bool.or_eq_true]
  exact Or.imp_right within.frontend

theorem adds_backend (text : String) :
    Adds d d' (if given.backend || d.backend then [⟨.debug, text⟩] else [])
      (if given.backend || d'.backend then [⟨.debug, text⟩] else []) := by
  apply adds_debug
  intro within
  simp only [Bool.or_eq_true]
  exact Or.imp_right within.backend

theorem steady_onFrontend {β : Type} {wrap : SourceFailure → Failure}
    {a : SourceFrontend.Act β}
    (h : InStep (SourceFrontend.Twins (given.frontend || d.frontend)
      (given.frontend || d'.frontend)) (Adds d d') a a) :
    Steady given d d' (onFrontend wrap a) :=
  .onPart h (fun _ _ twins => twins.frontend) fun _ _ twins _ _ parts =>
    ⟨parts, twins.backend, twins.libraries, twins.registry, twins.configuration, twins.first,
      twins.second⟩

theorem steady_onBackend {β : Type} {wrap : NumericFailure → Failure}
    {a : NumericBackend.Act β}
    (h : InStep (NumericBackend.Twins (given.backend || d.backend) (given.backend || d'.backend))
      (Adds d d') a a) :
    Steady given d d' (onBackend wrap a) :=
  .onPart h (fun _ _ twins => twins.backend) fun _ _ twins _ _ parts =>
    ⟨twins.frontend, parts, twins.libraries, twins.registry, twins.configuration, twins.first,
      twins.second⟩

theorem steady_done {β : Type} (b : β) : Steady given d d' (pure b) :=
  .done (compositional_adds d d') b

theorem steady_write (level : Level) (text : String) :
    Steady given d d' (Action.write level text) :=
  .write (compositional_adds d d') level text

theorem Steady.bind {β γ : Type} {a : Act β}
    {next : β → Act γ} (first : Steady given d d' a)
    (second : ∀ b, Steady given d d' (next b)) : Steady given d d' (a >>= next) :=
  InStep.bind (compositional_adds d d') first second

/-! ## Operations -/

theorem steady_library (id : String) : Steady given d d' (library id) := by
  refine .get_bind fun s t twins => ?_
  rw [twins.libraries]
  exact .ofExcept (compositional_adds d d') _

theorem steady_compiled (model : String) : Steady given d d' (compiled model) := by
  refine .get_bind fun s t twins => ?_
  rw [twins.registry]
  exact .ofExcept (compositional_adds d d') _

theorem steady_loadLibrary (id : String) : Steady given d d' (loadLibrary id) := by
  refine Steady.bind (steady_onFrontend ?_) fun program => .get_bind fun s t twins => ?_
  · exact SourceFrontend.inStep_loadLibrary (compositional_adds d d') adds_frontend id
  · rw [twins.libraries]
    refine Steady.bind (.modify (compositional_adds d d') ?_) fun _ => steady_write _ _
    intro s t twins
    exact ⟨twins.frontend, twins.backend, congrArg (·.insert id program) twins.libraries,
      twins.registry, twins.configuration, twins.first, twins.second⟩

theorem steady_intermediate (path : String) : Steady given d d' (intermediate path) :=
  Steady.bind (steady_onFrontend (SourceFrontend.inStep_parse (compositional_adds d d') path))
    fun _ => steady_done _

theorem steady_instantiate (model : String) (program : Program Float) (scalar : Bool) :
    Steady given d d' (onFrontend (.instantiation model)
      (SourceFrontend.instantiate model program scalar)) :=
  steady_onFrontend (SourceFrontend.inStep_instantiate (compositional_adds d d')
    adds_frontend model program scalar)

theorem steady_flatten (request : FlattenRequest) : Steady given d d' (flatten request) := by
  obtain ⟨model, path, source, scalar⟩ := request
  cases source with
  | none => exact (steady_intermediate path).bind fun _ => steady_instantiate ..
  | cached id =>
    exact (steady_intermediate path).bind fun _ => (steady_library id).bind fun _ =>
      steady_instantiate ..
  | standard version =>
    refine Steady.bind (steady_onFrontend ?_) fun _ => steady_onFrontend ?_
    · exact SourceFrontend.inStep_loadStandardLibrary (compositional_adds d d')
        adds_frontend version
    · exact SourceFrontend.inStep_flattenWithStandardLibrary (compositional_adds d d')
        adds_frontend model path version scalar

theorem steady_compile (model path : String) (source : LibrarySource) :
    Steady given d d' (Session.compile model path source) := by
  refine .get_bind fun s t twins => ?_
  obtain ⟨flags, same⟩ := twins.configuration
  rw [same, twins.registry]
  refine (steady_flatten _).bind fun flat => ?_
  refine Steady.bind (steady_onBackend (NumericBackend.inStep_compile (compositional_adds d d')
    adds_backend model flat.1)) fun artifact => ?_
  refine Steady.bind (.modify (compositional_adds d d') ?_) fun _ => ?_
  · intro s t twins
    exact ⟨twins.frontend, twins.backend, twins.libraries,
      congrArg (·.insert model artifact) twins.registry, twins.configuration, twins.first,
      twins.second⟩
  · exact Steady.bind (.writeIf ((compositional_adds d d').refl _)) fun _ => steady_write _ _

theorem steady_simulateCompiled (model : String) (span : TimeSpan) (solver : String) :
    Steady given d d' (simulateCompiled model span solver) :=
  (steady_compiled model).bind fun artifact => (steady_write _ _).bind fun _ =>
    steady_onBackend (NumericBackend.inStep_integrate (compositional_adds d d')
      adds_backend artifact span solver)

theorem steady_simulate (request : RunRequest) : Steady given d d' (simulate request) := by
  obtain ⟨model, source, span, solver⟩ := request
  have runs : Steady given d d' (simulate ⟨model, .registry, span, solver⟩) := by
    refine .get_bind fun s t twins => ?_
    obtain ⟨flags, same⟩ := twins.configuration
    rw [same]
    exact steady_simulateCompiled ..
  cases source with
  | registry => exact runs
  | file path source => exact (steady_compile model path source).bind fun _ => runs

theorem steady_resimulate (model : String) (span : TimeSpan) (solver : String) :
    Steady given d d' (resimulate model span solver) := by
  refine Steady.bind (.attempt (steady_simulateCompiled model span solver)) fun attempted => ?_
  cases attempted with
  | ok trajectory => exact steady_done _
  | error failure =>
    refine .get_bind fun s t twins => ?_
    obtain ⟨flags, same⟩ := twins.configuration
    have names : s.compiledModels = t.compiledModels := by
      unfold compiledModels
      rw [twins.registry]
    rw [same, names]
    split
    · exact (steady_write _ _).bind fun _ => (steady_write _ _).bind fun _ => steady_done _
    · exact .fail (compositional_adds d d') _

end

end NumericSession

end Acausal
