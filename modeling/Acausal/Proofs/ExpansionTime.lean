-- When arrays are expanded. A session expands the arrays of a model right after its instantiation
-- or leaves them to its compilation. Both give the same compiled model, for expanding twice is
-- expanding once; all that shows is the stage which reports two arrays of different sizes.
import Acausal.Proofs.GatheredPrograms
import Acausal.Proofs.RepeatedExpansion
import Acausal.Proofs.UnexpandedInstances

namespace Acausal

namespace NumericSession

open Session

/-! ## Compiled models -/

/-- A failure as it is where the expansion of arrays is left to compilations. -/
def postponed : Failure → Failure
  | .instantiation model (.instantiation (.shape cause)) =>
    .compilation model (.compilation (.shape cause))
  | failure => failure

theorem postponed_of_ne {model : String} {cause : InstanceError Float}
    (h : ∀ inner, cause ≠ .shape inner) :
    postponed (.instantiation model (.instantiation cause)) =
      .instantiation model (.instantiation cause) := by
  unfold postponed
  split
  · next same =>
    cases same
    exact absurd rfl (h _)
  · rfl

section
variable {model : String} {program : Program Float}

/-- What a session makes of an instance that is there before its arrays are expanded. -/
theorem artifact_of_instance {i : Instance Float}
    (made : program.instantiate model false = .ok i) :
    artifact model program false =
        (i.model.compile model).mapError (fun cause => .compilation model (.compilation cause)) ∧
      artifact model program true = match i.model.scalarize with
        | .error cause => .error (.instantiation model (.instantiation (.shape cause)))
        | .ok scalars => (scalars.compile model).mapError
            fun cause => .compilation model (.compilation cause) := by
  unfold artifact SourceFrontend.instantiated
  rw [Program.instantiate_true, made]
  refine ⟨rfl, ?_⟩
  rcases i.expanded_cases with ⟨cause, expansion, unexpanded⟩ | ⟨scalars, expansion, expanded⟩
  · rw [expansion, show (Except.ok i >>= Instance.expanded) = _ from unexpanded]
    rfl
  · rw [expansion, show (Except.ok i >>= Instance.expanded) = _ from expanded]
    rfl

theorem artifact_of_error {cause : InstanceError Float}
    (failed : program.instantiate model false = .error cause) (scalar : Bool) :
    artifact model program scalar = .error (.instantiation model (.instantiation cause)) := by
  unfold artifact SourceFrontend.instantiated
  cases scalar with
  | false =>
    rw [failed]
    rfl
  | true =>
    rw [Program.instantiate_true, failed]
    rfl

/-- Left to compilations, the expansion of arrays changes no compiled model. -/
theorem artifact_false (model : String) (program : Program Float) :
    artifact model program false = (artifact model program true).mapError postponed := by
  cases made : program.instantiate model false with
  | error cause =>
    have kept : postponed (.instantiation model (.instantiation cause)) =
        .instantiation model (.instantiation cause) := by
      apply postponed_of_ne
      rintro inner rfl
      exact program.instantiate_false_ne_shape model inner made
    rw [artifact_of_error made, artifact_of_error made]
    exact congrArg Except.error kept.symm
  | ok i =>
    obtain ⟨late, early⟩ := artifact_of_instance made
    rw [late, early]
    cases expansion : i.model.scalarize with
    | error cause =>
      have fails : i.model.compile model = .error (.shape cause) := by
        unfold FlatModel.compile
        rw [expansion]
        rfl
      rw [fails]
      rfl
    | ok scalars =>
      rw [← FlatModel.compile_scalarize expansion]
      change _ = ((scalars.compile model).mapError _).mapError postponed
      cases scalars.compile model with
      | error cause => rfl
      | ok compiled => rfl

/-- Where arrays are expanded early, a compilation meets none. -/
theorem artifact_true_ne (name : String) (cause : ShapeError Float) :
    artifact model program true ≠ .error (.compilation name (.compilation (.shape cause))) := by
  intro h
  cases made : program.instantiate model false with
  | error _ =>
    rw [artifact_of_error made] at h
    cases h
  | ok i =>
    rw [(artifact_of_instance made).2] at h
    cases expansion : i.model.scalarize with
    | error _ =>
      rw [expansion] at h
      cases h
    | ok scalars =>
      rw [expansion] at h
      obtain ⟨inner, fails, same⟩ := mapError_eq_error.1 h
      cases same
      exact FlatModel.compile_ne_shape (FlatModel.scalarize_scalarize expansion) fails

/-- An instance cannot be expanded where arrays of different sizes meet in an equation, and only
there. -/
theorem sizes_of_artifact {name : String} {cause : ShapeError Float}
    (h : artifact model program true =
      .error (.instantiation name (.instantiation (.shape cause)))) :
    ∃ first other e, first ≠ other ∧ cause = .sizes first other e := by
  unfold artifact SourceFrontend.instantiated at h
  cases made : program.instantiate model true with
  | error inner =>
    rw [made] at h
    cases h
    exact Program.sizes_of_instantiate made
  | ok i =>
    rw [made] at h
    obtain ⟨_, -, same⟩ := mapError_eq_error.1 h
    cases same

end

/-! ## Gathering -/

/-- A failure of a stage before the instantiation. -/
def BeforeInstance (e : Failure) : Prop :=
  (∀ model cause, e ≠ .instantiation model cause) ∧ ∀ model cause, e ≠ .compilation model cause

theorem BeforeInstance.postponed_eq {e : Failure} (h : BeforeInstance e) : postponed e = e := by
  unfold postponed
  split
  · exact absurd rfl (h.1 _ _)
  · rfl

/-- Gathering a program fails before the instantiation. -/
theorem respects_gather (path : String) (source : LibrarySource) :
    Action.Respects (fun _ => ()) BeforeInstance (fun _ => True) (gather path source) := by
  have front {β : Type} {wrap : SourceFailure → Failure} {a : SourceFrontend.Act β}
      (early : ∀ cause, BeforeInstance (wrap cause)) :
      Action.Respects (fun _ => ()) BeforeInstance (fun _ => True)
        (onFrontend wrap a : Act β) :=
    .onPart (fun _ _ => rfl) early fun _ _ _ => trivial
  have reads : Action.Respects (fun _ => ()) BeforeInstance (fun _ => True)
      (intermediate path : Act _) :=
    .bind (front fun _ => ⟨nofun, nofun⟩) fun _ => .done _
  cases source with
  | none => exact reads
  | cached id =>
    refine .bind reads fun _ => .bind (.bind .get fun s => .ofExcept fun e h => ?_) fun _ => .done _
    unfold Table.library at h
    split at h
    · cases h
    · cases h
      exact ⟨nofun, nofun⟩
  | standard version =>
    exact .bind (front fun _ => ⟨nofun, nofun⟩) fun _ =>
      .bind (front fun _ => ⟨nofun, nofun⟩) fun _ => .done _

/-! ## Early and late -/

/-- A session that expands arrays early, or leaves them to compilations. -/
def expanding (early : Bool) (s : NumericSession) : NumericSession :=
  { s with configuration := { s.configuration with scalarize := early } }

/-- Gathering a program takes no notice of when arrays are expanded. -/
theorem gather_inStep (early : Bool) (path : String) (source : LibrarySource) :
    Action.InStep (fun s t : NumericSession => t = s.expanding early) Eq
      (gather path source) (gather path source) := by
  have self {σ : Type} {ε β : Type} (a : Action σ ε β) : Action.InStep Eq Eq a a := by
    refine ⟨?_, ?_, ?_⟩
    all_goals
      rintro s _ rfl
      rfl
  have front {β : Type} (wrap : SourceFailure → Failure) (a : SourceFrontend.Act β) :
      Action.InStep (fun s t : NumericSession => t = s.expanding early) Eq
        (onFrontend wrap a) (onFrontend wrap a) := by
    refine .onPart (self a) ?_ ?_
    · rintro s _ rfl
      rfl
    · rintro s _ rfl p _ rfl
      rfl
  have reads : Action.InStep (fun s t : NumericSession => t = s.expanding early) Eq
      (intermediate path) (intermediate path) :=
    .bind compositional_eq (front _ _) fun _ => .done compositional_eq _
  cases source with
  | none => exact reads
  | cached id =>
    refine .bind compositional_eq reads fun _ => .bind compositional_eq ?_ fun _ =>
      .done compositional_eq _
    refine .get_bind ?_
    rintro s _ rfl
    exact .ofExcept compositional_eq _
  | standard version =>
    exact .bind compositional_eq (front _ _) fun _ => .bind compositional_eq (front _ _) fun _ =>
      .done compositional_eq _

/-- What expanding arrays late comes to, beside expanding them early: another stage reports arrays
of different sizes, and nothing else is different. -/
structure Postpones (early late : Outcome NumericSession Failure Unit) : Prop where
  result_eq : late.result = early.result.mapError postponed
  /-- The arrays that cannot be expanded are of different sizes. -/
  sizes : ∀ name cause,
    early.result = .error (.instantiation name (.instantiation (.shape cause))) →
    ∃ first other e, first ≠ other ∧ cause = .sizes first other e
  /-- A failure of this kind is not one of a compilation. -/
  expanded : ∀ name cause,
    early.result ≠ .error (.compilation name (.compilation (.shape cause)))
  state_eq : late.state = early.state.expanding false
  notable_eq : notable late.log = notable early.log

/-- Compiling a model of a gathered program. -/
theorem postpones_of_program (model path : String) (program : Program Float) (replaced : Bool)
    (s : NumericSession) : Postpones
      ((build model program true >>= keepModel (F := SourceFrontend) (B := NumericBackend) model
        path replaced).run s)
      ((build model program false >>= keepModel (F := SourceFrontend) (B := NumericBackend) model
        path replaced).run (s.expanding false)) := by
  obtain ⟨early, same, silent⟩ := run_build model program true s
  obtain ⟨late, same', silent'⟩ := run_build model program false (s.expanding false)
  rw [artifact_false] at late
  cases result : artifact model program true with
  | error e =>
    rw [result] at early late
    rw [Action.run_bind_error _ early, Action.run_bind_error _ late, same, same']
    refine ⟨rfl, fun name cause h => ?_, fun name cause h => ?_, rfl, ?_⟩
    · cases h
      exact sizes_of_artifact result
    · cases h
      exact artifact_true_ne name cause result
    · exact silent'.trans silent.symm
  | ok compiled =>
    rw [result] at early late
    rw [Action.run_bind_ok _ early, Action.run_bind_ok _ late, same, same', run_keepModel,
      run_keepModel]
    refine ⟨rfl, fun name cause h => (nomatch h), fun name cause h => (nomatch h), rfl, ?_⟩
    have written {log : List Record} (quiet : notable log = []) (kept : List Record) :
        notable (log ++ kept) = notable kept := by
      rw [notable_append, quiet, List.nil_append]
    exact (written silent' _).trans (written silent _).symm

theorem postpones (model path : String) (source : LibrarySource) (s : NumericSession) :
    Postpones ((Session.compile model path source).run (s.expanding true))
      ((Session.compile model path source).run (s.expanding false)) := by
  rw [compile_eq, Action.run_get_bind, Action.run_get_bind]
  have related : s.expanding false = (s.expanding true).expanding false := rfl
  have gathered := gather_inStep false path source
  have same := gathered.result_eq _ _ related
  have states := gathered.states_of _ _ related
  have logs := gathered.logs_of _ _ related
  cases result : ((gather path source).run (s.expanding true)).result with
  | error e =>
    rw [Action.run_bind_error _ result, Action.run_bind_error _ (same.symm.trans result)]
    have early := (respects_gather path source).failure_of _ e result
    refine ⟨congrArg Except.error early.postponed_eq.symm, fun name cause h => ?_,
      fun name cause h => ?_, states, congrArg notable logs.symm⟩
    · exact absurd (Except.error.inj h) (early.1 _ _)
    · exact early.2 _ _ (Except.error.inj h)
  | ok program =>
    rw [Action.run_bind_ok _ result, Action.run_bind_ok _ (same.symm.trans result), states, ← logs]
    obtain ⟨result_eq, sizes, expanded, state_eq, notable_eq⟩ := postpones_of_program model path
      program (s.registry.contains model) ((gather path source).run (s.expanding true)).state
    refine ⟨result_eq, sizes, expanded, state_eq, ?_⟩
    rw [notable_append, notable_append]
    exact congrArg _ notable_eq

/-- Expanding arrays early or late makes no difference. A scalar form is its own scalar form and
compiles like the model, and so a session comes to the same compiled models with either setting. -/
theorem expansion_time_is_immaterial :
    (∀ {α : Type} [Zero α] [Add α] [Sub α] [Mul α] [Div α] [Neg α] [Elementary α]
      (m scalars : FlatModel α), m.scalarize = .ok scalars →
        scalars.scalarize = .ok scalars ∧ ∀ name, m.compile name = scalars.compile name) ∧
    ∀ (s : NumericSession) (model path : String) (source : LibrarySource),
      Postpones ((Session.compile model path source).run (s.expanding true))
        ((Session.compile model path source).run (s.expanding false)) := by
  refine ⟨fun m scalars h => ?_, fun s model path source => postpones model path source s⟩
  exact ⟨FlatModel.scalarize_scalarize h, fun name => (FlatModel.compile_scalarize h name).symm⟩

/-- Two tanks as arrays. -/
def tanks : FlatModel Float where
  name := "Tanks"
  parameters := []
  unknowns := [⟨"level", some 2, some (.number 1)⟩]
  equations := [⟨.der ⟨"level", none⟩, .neg (.ref ⟨"level", none⟩)⟩]

/-- A session that knows the text of a model in which arrays of different sizes meet. -/
def unevenSession : NumericSession :=
  NumericSession.addSource "uneven.mo"
    "model Uneven Real x[2]; Real y[3]; equation der(x) = y; der(y) = x; end Uneven;"
    (.start (.fresh fun _ => .error .notFound) (.quiet {}) {})

/-- The tanks compile like their scalar form, and the uneven arrays are reported by either
stage. -/
theorem tanks_and_uneven_arrays :
    (∃ scalars, tanks.scalarize = .ok scalars ∧ scalars.scalarize = .ok scalars ∧
      tanks.compile "Tanks" = scalars.compile "Tanks") ∧
    ∃ cause,
      ((Session.compile "Uneven" "uneven.mo" .none).run (unevenSession.expanding true)).result =
        .error (.instantiation "Uneven" (.instantiation (.shape cause))) ∧
      ((Session.compile "Uneven" "uneven.mo" .none).run (unevenSession.expanding false)).result =
        .error (.compilation "Uneven" (.compilation (.shape cause))) := by
  obtain ⟨models, sessions⟩ := expansion_time_is_immaterial
  constructor
  · have expands : tanks.scalarize.toOption.isSome = true := by decide +kernel
    obtain ⟨scalars, expands⟩ := Option.isSome_iff_exists.1 expands
    rw [toOption_eq_some] at expands
    obtain ⟨again, compiles⟩ := models tanks scalars expands
    exact ⟨scalars, expands, again, compiles "Tanks"⟩
  · have early : (match ((Session.compile "Uneven" "uneven.mo" .none).run
        (unevenSession.expanding true)).result with
      | .error (.instantiation "Uneven" (.instantiation (.shape _))) => true
      | _ => false) = true := by decide +kernel
    split at early
    · next cause result =>
      have late := (sessions unevenSession "Uneven" "uneven.mo" .none).result_eq
      rw [result] at late
      exact ⟨cause, result, late⟩
    · cases early

end NumericSession

end Acausal
