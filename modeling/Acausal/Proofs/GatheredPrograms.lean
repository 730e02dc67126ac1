-- How a session makes a flat model and a compiled model of a source text: it gathers the program
-- that the text and its library come to, makes an instance of the model, and compiles that. Only
-- the first of these steps depends on what the session holds.
import Acausal.Proofs.PairedActions
import Acausal.Proofs.StandardEditions
import Acausal.Session.Numeric

namespace Acausal

/-! ## Frontends -/

namespace SourceFrontend

/-- A standard library that was asked for is there when it is asked for again. -/
theorem run_standardProgram_again {version : String} {f : SourceFrontend}
    {program : Program Float} (h : ((standardProgram version).run f).result = .ok program) :
    (standardProgram version).run ((standardProgram version).run f).state =
      ⟨.ok program, ((standardProgram version).run f).state, []⟩ := by
  -- It is enough that the first run leaves the program in the memo.
  suffices kept : ((standardProgram version).run f).state.standard.get? (taggedVersion version) =
      some program by
    generalize ((standardProgram version).run f).state = later at kept
    unfold standardProgram
    rw [Action.run_get_bind, kept]
    rfl
  unfold standardProgram at h ⊢
  rw [Action.run_get_bind] at h ⊢
  cases kept : f.standard.get? (taggedVersion version) with
  | some earlier =>
    rw [kept] at h
    cases h
    exact kept
  | none =>
    rw [kept] at h
    simp only at h ⊢
    cases read : editionProgram (taggedVersion version) with
    | error cause =>
      rw [read] at h
      cases h
    | ok found =>
      rw [read] at h
      rw [Action.run_bind_ok _ (by rw [Action.run_ofExcept]), Action.run_ofExcept,
        Action.run_bind_ok _ (by rw [Action.run_writeIf]), Action.run_writeIf] at h ⊢
      cases h
      exact Table.get?_insert_self ..

/-- Instantiating a model leaves the frontend as it is and writes debug records only. -/
theorem run_instantiate (model : String) (program : Program Float) (scalar : Bool)
    (f : SourceFrontend) : ((instantiate model program scalar).run f).state = f ∧
      notable ((instantiate model program scalar).run f).log = [] := by
  unfold instantiate
  rw [Action.run_get_bind]
  cases program.instantiate model scalar with
  | error cause => exact ⟨rfl, rfl⟩
  | ok made => cases f.verbose <;> exact ⟨rfl, rfl⟩

end SourceFrontend

/-- Compiling a model leaves the backend as it is and writes debug records only. -/
theorem NumericBackend.run_compile (model : String) (flat : FlatModel Float) (b : NumericBackend) :
    ((NumericBackend.compile model flat).run b).result =
        (flat.compile model).mapError .compilation ∧
      ((NumericBackend.compile model flat).run b).state = b ∧
      notable ((NumericBackend.compile model flat).run b).log = [] := by
  unfold NumericBackend.compile
  rw [Action.run_get_bind]
  cases flat.compile model with
  | error cause => exact ⟨rfl, rfl, rfl⟩
  | ok made => cases b.verbose <;> exact ⟨rfl, rfl, rfl⟩

namespace NumericSession

open Session

/-! ## Compiled models -/

/-- The compiled model that a session makes of a model of a program. -/
def artifact (model : String) (program : Program Float) (scalar : Bool) :
    Except Failure (CompiledModel Float) := do
  let (flat, _) ← (SourceFrontend.instantiated model program scalar).mapError (.instantiation model)
  (flat.compile model).mapError fun cause => .compilation model (.compilation cause)

/-! ## Operations -/

/-- The program that a model is instantiated from: a source text, behind its library. -/
def gather (path : String) :
    LibrarySource → Act (Program Float)
  | .none => intermediate path
  | .cached id => do
    let program ← intermediate path
    let inFront ← library id
    return inFront.prepend program
  | .standard version => do
    let library ← onFrontend (.libraryLoad version) (SourceFrontend.standardProgram version)
    let source ← onFrontend (.parse path) (SourceFrontend.parse path)
    return library.prepend (.ofSource source)

/-- The flat model of a model of a program. -/
def flattened (model : String) (program : Program Float) (scalar : Bool) :
    Act (FlatModel Float × FunctionCache) :=
  onFrontend (.instantiation model) (SourceFrontend.instantiate model program scalar)

/-- The compiled model of a model of a program. -/
def build (model : String) (program : Program Float) (scalar : Bool) :
    Act (CompiledModel Float) := do
  let (flat, _) ← flattened model program scalar
  onBackend (.compilation model) (NumericBackend.compile model flat)

/-- An action of the frontend may be told apart at any of its parts. -/
theorem onFrontend_bind {β γ : Type} (wrap : SourceFailure → Failure)
    (a : SourceFrontend.Act β) (next : β → SourceFrontend.Act γ) :
    (onFrontend wrap (a >>= next) : Act γ) =
      onFrontend wrap a >>= fun b => onFrontend wrap (next b) := by
  funext s
  change (onFrontend wrap (a >>= next)).run s =
    (onFrontend wrap a >>= fun b => onFrontend wrap (next b)).run s
  have part := run_onFrontend (B := NumericBackend) wrap a s
  rw [run_onFrontend]
  cases result : (a.run s.frontend).result with
  | error e =>
    rw [result] at part
    rw [Action.run_bind_error next result, Action.run_bind_error _ (congrArg Outcome.result part),
      part]
    rfl
  | ok b =>
    rw [result] at part
    rw [Action.run_bind_ok next result, Action.run_bind_ok _ (congrArg Outcome.result part), part]
    rfl

/-- Only the failures of an action that there are matter to how they are seen. -/
theorem onFrontend_congr {β : Type} {wrap wrap' : SourceFailure → Failure}
    {a : SourceFrontend.Act β}
    (same : ∀ f e, (a.run f).result = .error e → wrap e = wrap' e) :
    (onFrontend wrap a : Act β) = onFrontend wrap' a := by
  funext s
  change (onFrontend wrap a).run s = (onFrontend wrap' a).run s
  rw [run_onFrontend, run_onFrontend]
  cases result : (a.run s.frontend).result with
  | error e =>
    change Outcome.mk (Except.error (wrap e)) _ _ = Outcome.mk (Except.error (wrap' e)) _ _
    rw [same _ _ result]
  | ok b => rfl

/-- Asking twice for a standard library is asking once. -/
theorem standardProgram_again {γ : Type} (version : String) (wrap wrap' : SourceFailure → Failure)
    (next : Program Float → Act γ) :
    (onFrontend wrap (SourceFrontend.standardProgram version) >>= fun _ =>
        onFrontend wrap' (SourceFrontend.standardProgram version) >>= next) =
      onFrontend wrap (SourceFrontend.standardProgram version) >>= next := by
  funext s
  have first := run_onFrontend (B := NumericBackend) wrap
    (SourceFrontend.standardProgram version) s
  cases result : ((SourceFrontend.standardProgram version).run s.frontend).result with
  | error e =>
    rw [result] at first
    have stops := congrArg Outcome.result first
    exact (Action.run_bind_error _ stops).trans (Action.run_bind_error next stops).symm
  | ok program =>
    rw [result] at first
    have on := congrArg Outcome.result first
    have second : (onFrontend wrap' (SourceFrontend.standardProgram version)).run
        ((onFrontend wrap (SourceFrontend.standardProgram version)).run s).state =
        ⟨.ok program, ((onFrontend wrap (SourceFrontend.standardProgram version)).run s).state,
          []⟩ := by
      rw [first, run_onFrontend, SourceFrontend.run_standardProgram_again result]
      rfl
    refine (Action.run_bind_ok _ on).trans ((Action.run_bind_ok next on).trans ?_).symm
    rw [Action.run_bind_ok next (congrArg Outcome.result second), second]
    rfl

/-- Flattening gathers a program and then makes an instance. -/
theorem flatten_eq (model path : String) (source : LibrarySource) (scalar : Bool) :
    (flatten ⟨model, path, source, scalar⟩ : Act _) =
      gather path source >>= fun program => flattened model program scalar := by
  cases source with
  | none => rfl
  | cached id =>
    unfold gather
    simp only [bind_assoc, pure_bind]
    rfl
  | standard version =>
    have reads : (onFrontend (flattenFailure model path) (SourceFrontend.parse path) :
        Act _) =
        onFrontend (.parse path) (SourceFrontend.parse path) := by
      apply onFrontend_congr
      intro f e h
      rw [SourceFrontend.run_parse] at h
      unfold flattenFailure
      exact if_pos (SourceFrontend.isParseFailure_of_parsed h)
    have makes (program : Program Float) : (onFrontend (flattenFailure model path)
        (SourceFrontend.instantiate model program scalar) :
          Act _) = flattened model program scalar := by
      apply onFrontend_congr
      intro f e h
      rw [SourceFrontend.result_instantiate] at h
      unfold SourceFrontend.instantiated at h
      split at h
      · cases h
        rfl
      · cases h
    change (onFrontend (.libraryLoad version) (SourceFrontend.loadStandardLibrary version) >>=
      fun _ => onFrontend (flattenFailure model path)
        (SourceFrontend.flattenWithStandardLibrary model path version scalar)) = _
    unfold gather SourceFrontend.loadStandardLibrary SourceFrontend.flattenWithStandardLibrary
    simp only [onFrontend_bind, reads, makes, bind_assoc, pure_bind]
    exact standardProgram_again version _ _ _

theorem compile_eq (model path : String) (source : LibrarySource) :
    (Session.compile model path source : Act Unit) =
      Action.get >>= fun s => gather path source >>= fun program =>
        build model program s.configuration.scalarize >>=
          keepModel (F := SourceFrontend) (B := NumericBackend) model path
            (s.registry.contains model) := by
  unfold Session.compile build
  simp only [flatten_eq, bind_assoc]
  rfl

/-- Making a compiled model changes nothing that a session holds, and writes debug records only. -/
theorem run_build (model : String) (program : Program Float) (scalar : Bool)
    (s : NumericSession) : ((build model program scalar).run s).result =
        artifact model program scalar ∧
      ((build model program scalar).run s).state = s ∧
      notable ((build model program scalar).run s).log = [] := by
  have flat : (flattened model program scalar).run s =
      ⟨(SourceFrontend.instantiated model program scalar).mapError (.instantiation model), s,
        ((SourceFrontend.instantiate model program scalar).run s.frontend).log⟩ := by
    change (onFrontend _ _).run s = _
    rw [run_onFrontend, SourceFrontend.result_instantiate,
      (SourceFrontend.run_instantiate model program scalar s.frontend).1]
  have silent := (SourceFrontend.run_instantiate model program scalar s.frontend).2
  unfold build artifact
  cases result : SourceFrontend.instantiated model program scalar with
  | error cause =>
    rw [result] at flat
    rw [Action.run_bind_error _ (congrArg Outcome.result flat), flat]
    exact ⟨rfl, rfl, silent⟩
  | ok made =>
    obtain ⟨compiled, same, quiet⟩ := NumericBackend.run_compile model made.1 s.backend
    have coded : (onBackend (.compilation model) (NumericBackend.compile model made.1) :
        Act _).run s =
        ⟨(made.1.compile model).mapError fun cause => .compilation model (.compilation cause), s,
          ((NumericBackend.compile model made.1).run s.backend).log⟩ := by
      change Outcome.mk (((NumericBackend.compile model made.1).run s.backend).result.mapError _)
        { s with backend := ((NumericBackend.compile model made.1).run s.backend).state } _ = _
      rw [compiled, same]
      cases made.1.compile model <;> rfl
    rw [result] at flat
    rw [Action.run_bind_ok _ (congrArg Outcome.result flat), flat]
    refine ⟨congrArg Outcome.result coded, congrArg Outcome.state coded, ?_⟩
    rw [notable_append, silent]
    exact (congrArg (fun o => notable o.log) coded).trans quiet

end NumericSession

end Acausal
