-- The errors of compiling an instance. In a closed model every name is declared, every subscript
-- lies in its array and every call applies a builtin, so a compilation can only fail over what the
-- equations and bindings say: sizes, dependencies, misplaced derivatives, and definitions that are
-- missing, doubled or circular. The instances of a parsed program are closed models.
import Acausal.Proofs.Acceptance
import Acausal.Proofs.ClosedInstances
import Acausal.Proofs.CompilationErrors
import Acausal.Proofs.RepeatedExpansion

namespace Acausal

open Relation

variable {α : Type}

/-! ## What an error tells of a model -/

namespace FlatModel

/-- A parameter whose binding reads a variable. -/
def ReadsVariable (m : FlatModel α) (name : String) : Prop :=
  ∃ p ∈ m.parameters, p.name = name ∧ ∃ r ∈ p.binding.refs, r.name ∈ m.declared

/-- A parameter that depends, be it through others, on a variable or on a parameter that depends
on itself. -/
def Unresolvable (m : FlatModel α) (name : String) : Prop :=
  ∃ last, ReflTransGen m.bindings.Reads name last ∧
    (m.ReadsVariable last ∨ TransGen m.bindings.Reads last last)

end FlatModel

namespace CompileError

/-- The errors that the equations and bindings of a model account for, with what accounts for
them. Equations are those of the scalar form wherever there is one. -/
inductive Expected (m : FlatModel α) : CompileError α → Prop
  | sizes {first other : Nat} {e : Equation α} (listed : e ∈ m.equations)
      (one : first ∈ FlatModel.wholeSizes m.arraySize? e)
      (another : other ∈ FlatModel.wholeSizes m.arraySize? e) (differ : first ≠ other) :
      Expected m (.shape (.sizes first other e))
  | unresolved {names : List String} (some_left : names ≠ [])
      (stuck : ∀ name ∈ names, m.Unresolvable name) :
      Expected m (.parameters (.unresolved names))
  | derivativeInBinding {p : FlatParameter α} {r : Ref} (listed : p ∈ m.parameters)
      (mentions : r ∈ p.binding.derivatives) :
      Expected m (.parameters (.inBinding p.name (.derivative r)))
  | derivativeInStart {s : FlatModel α} {v : FlatVariable α} {start : Expr α} {r : Ref}
      (scalar : m.scalarize = .ok s) (listed : v ∈ s.unknowns) (starts : v.start = some start)
      (mentions : r ∈ start.derivatives) : Expected m (.inStart v.name (.derivative r))
  | variableInStart {s : FlatModel α} {v : FlatVariable α} {start : Expr α} {r : Ref}
      (scalar : m.scalarize = .ok s) (listed : v ∈ s.unknowns) (starts : v.start = some start)
      (reads : r ∈ start.refs) (declared : r.name ∈ m.declared) :
      Expected m (.inStart v.name (.unknownName r.flatName))
  | definesNothing {s : FlatModel α} {e : Equation α} (scalar : m.scalarize = .ok s)
      (listed : e ∈ s.equations) (nothing : e.definition? s.declared = none) :
      Expected m (.definesNothing e)
  | parameterDerivative {s : FlatModel α} {e : Equation α} {name : String} {value : Expr α}
      (scalar : m.scalarize = .ok s) (listed : e ∈ s.equations)
      (defines : e.definition? s.declared = some (.derivative name value))
      (parameter : name ∈ m.parameters.map (·.name)) : Expected m (.undeclaredDerivative name)
  | definedTwice {s : FlatModel α} {name : String} (scalar : m.scalarize = .ok s)
      (declared : name ∈ s.declared)
      (twice : 2 ≤ (s.rates.map (·.1)).count name ∨ 2 ≤ (s.values.map (·.1)).count name) :
      Expected m (.definedTwice name)
  | definedBothWays {s : FlatModel α} {name : String} (scalar : m.scalarize = .ok s)
      (declared : name ∈ s.declared) (rate : s.rates.defines name)
      (value : s.values.defines name) : Expected m (.definedBothWays name)
  | undetermined {s : FlatModel α} {name : String} (scalar : m.scalarize = .ok s)
      (declared : name ∈ s.declared) (no_rate : ¬ s.rates.defines name)
      (no_value : ¬ s.values.defines name) : Expected m (.undetermined name)
  | loop {s : FlatModel α} {cause : Loop} (scalar : m.scalarize = .ok s)
      (genuine : cause.Genuine s.values) : Expected m (.loop cause)
  | derivativeInEquation {s : FlatModel α} {name : String} {value : Expr α} {r : Ref}
      (scalar : m.scalarize = .ok s) (defines : s.values.lookup name = some value)
      (mentions : r ∈ value.derivatives) : Expected m (.inEquation name (.derivative r))
  | derivativeInRate {s : FlatModel α} {name : String} {value : Expr α} {r : Ref}
      (scalar : m.scalarize = .ok s) (defines : s.rates.lookup name = some value)
      (mentions : r ∈ value.derivatives) : Expected m (.inDerivative name (.derivative r))

/-- The errors over names, calls and subscripts that the frontend should have stopped: a
subscript that no array has, a name without a place outside a start value, and a call that is
not of a builtin with one argument. -/
def Dangling : CompileError α → Prop
  | shape (.outOfRange _ _) | shape (.notArray _) => True
  | parameters (.inBinding _ cause) | inEquation _ cause | inDerivative _ cause =>
    ∀ r, cause ≠ .derivative r
  | inStart _ (.unknownFunction _) | inStart _ (.argumentCount _ _) => True
  | _ => False

theorem Expected.not_dangling {m : FlatModel α} {e : CompileError α} (h : e.Expected m) :
    ¬ e.Dangling := by
  cases h <;> simp [Dangling]

end CompileError

/-! ## Names and definitions -/

/-- What an equation defines is named in it, and defined by one of its sides. -/
theorem Equation.parts_of_definition {declared : List String} {e : Equation α}
    {d : Definition α} (h : e.definition? declared = some d) :
    (d.value = e.lhs ∨ d.value = e.rhs) ∧
      ∃ r ∈ e.lhs.refs ++ e.rhs.refs, r.flatName = d.name := by
  have side {a b : Expr α} (turned : Acausal.definition? declared a b = some d) :
      d.value = b ∧ ∃ r ∈ a.refs, r.flatName = d.name := by
    unfold Acausal.definition? at turned
    split at turned
    · cases turned
      exact ⟨rfl, _, by simp [Expr.refs], rfl⟩
    · split at turned
      · cases turned
        exact ⟨rfl, _, by simp [Expr.refs], rfl⟩
      · cases turned
    · cases turned
  rcases sides_of_definition h with turned | turned
  · obtain ⟨value, r, hr, name⟩ := side turned
    exact ⟨.inr value, r, List.mem_append_left _ hr, name⟩
  · obtain ⟨value, r, hr, name⟩ := side turned
    exact ⟨.inl value, r, List.mem_append_right _ hr, name⟩

namespace FlatModel

variable {m s : FlatModel α}

/-- What is read in a closed model is a parameter or belongs to a variable. -/
theorem Fits.parameter_or_variable {r : Ref} (fits : m.Fits r) :
    r.flatName ∈ m.parameters.map (·.name) ∨ r.name ∈ m.declared := by
  cases index : r.index with
  | none =>
    have flat : r.flatName = r.name := by
      unfold Ref.flatName
      rw [index]
    rw [flat]
    exact List.mem_append.1 fits.1
  | some i =>
    obtain ⟨v, hv, same, -⟩ := fits.2 i index
    exact .inr (same ▸ List.mem_map_of_mem hv)

/-- A model with distinct names, references that fit and calls of builtins, together with its
scalar form, which is what is compiled. -/
structure Prepared (m s : FlatModel α) : Prop where
  distinct : m.names.Nodup
  closed : m.Closed
  expanded : m.scalarize = .ok s
  parameters : s.parameters = m.parameters
  starts : ∀ v ∈ s.unknowns, ∀ e, v.start = some e → e ∈ m.expressions
  applied : ∀ e ∈ s.expressions, e.Applied
  references : ∀ e ∈ s.equations, ∀ r ∈ e.lhs.refs ++ e.rhs.refs,
    r.index = none ∧ r.name ∈ s.names

theorem prepared_of_scalarize (h : m.scalarize = .ok s) (distinct : m.names.Nodup)
    (closed : m.Closed) {cache : FunctionCache}
    (covered : ∀ e ∈ m.expressions, cache.Covers e) : Prepared m s := by
  have covered' := scalarize_covered h covered
  refine ⟨distinct, closed, h, ?_, ?_, fun e he c hc => (covered' e he c hc).1,
    scalarize_refs h (List.nodup_append.1 distinct).2.1 closed⟩
  · obtain ⟨_, -, rfl⟩ := scalarize_eq_ok.1 h
    rfl
  · obtain ⟨_, -, rfl⟩ := scalarize_eq_ok.1 h
    intro w hw e start
    obtain ⟨v, hv, inside⟩ := List.mem_flatMap.1 hw
    refine List.mem_append_left _ (List.mem_append_right _ (List.mem_filterMap.2 ⟨v, hv, ?_⟩))
    rcases mem_scalarVariables.1 inside with ⟨-, rfl⟩ | ⟨_, _, _, _, _, rfl⟩
    · exact start
    · exact start

namespace Prepared

theorem side_mem {e : Equation α} (he : e ∈ s.equations) {side : Expr α}
    (hside : side = e.lhs ∨ side = e.rhs) : side ∈ s.expressions := by
  refine List.mem_append_right _ (List.mem_flatMap.2 ⟨e, he, ?_⟩)
  simpa using hside

/-- What defines a variable or a rate calls builtins only and reads declared names. -/
theorem definition (h : Prepared m s) {e : Equation α} (he : e ∈ s.equations)
    {d : Definition α} (defines : e.definition? s.declared = some d) :
    d.value.Applied ∧ d.name ∈ s.names ∧ ∀ r ∈ d.value.refs, r.flatName ∈ s.names := by
  have flat : ∀ r ∈ e.lhs.refs ++ e.rhs.refs, r.flatName ∈ s.names := by
    intro r hr
    obtain ⟨index, inside⟩ := h.references e he r hr
    unfold Ref.flatName
    rwa [index]
  obtain ⟨value, r, hr, name⟩ := Equation.parts_of_definition defines
  refine ⟨h.applied _ (side_mem he value), name ▸ flat r hr, fun r hr => flat r ?_⟩
  rcases value with value | value
  · exact List.mem_append_left _ (value ▸ hr)
  · exact List.mem_append_right _ (value ▸ hr)

/-! ## Steps of a compilation -/

/-- The definitions of a scalar form are missing for a reason that its equations give. -/
theorem ofEquations_error (h : Prepared m s) {failure : CompileError α}
    (fails : Causality.ofEquations s.declared s.equations = .error failure) :
    failure.Expected m := by
  unfold Causality.ofEquations at fails
  rcases bind_eq_error.1 fails with folding | ⟨c, folded, fails⟩
  · rcases Causality.foldlM_add_error folding with ⟨e, he, nothing, rfl⟩ |
      ⟨e, he, name, value, defines, undeclared, rfl⟩ | ⟨name, declared, rfl, twice⟩
    · exact .definesNothing h.expanded he nothing
    · have listed := (h.definition he defines).2.1
      rw [names, h.parameters] at listed
      exact .parameterDerivative h.expanded he defines
        ((List.mem_append.1 listed).resolve_right undeclared)
    · exact .definedTwice h.expanded declared twice
  · obtain ⟨rfl, -⟩ := (Causality.foldlM_add_eq_ok (by simp) (by simp)).1 folded
    rcases bind_eq_error.1 fails with checking | ⟨_, -, done⟩
    · obtain ⟨name, declared, fails⟩ := forM_error checking
      rcases Causality.checkDetermined_error fails with ⟨rfl, rate, value⟩ | ⟨rfl, rate, value⟩
      · exact .definedBothWays h.expanded declared rate value
      · exact .undetermined h.expanded declared rate value
    · cases done

variable [Zero α] [Add α] [Sub α] [Mul α] [Div α] [Neg α] [Elementary α]
  {known : Valuation α} {failure : CompileError α}

/-- Parameters have no values because they depend on variables or on each other in a circle, or
because a binding mentions a derivative. -/
theorem evaluateParameters_error (h : Prepared m s) {cause : ParameterError}
    (fails : s.evaluateParameters = .error cause) : (CompileError.parameters cause).Expected m := by
  unfold evaluateParameters at fails
  rw [h.parameters] at fails
  have bound {p : FlatParameter α} (hp : p ∈ m.parameters) : p.binding ∈ m.expressions :=
    List.mem_append_left _ (List.mem_append_left _ (List.mem_map_of_mem hp))
  rcases FlatParameter.passes_error .start fails with ⟨p, hp, known, c, ready, valueless, rfl⟩ |
    ⟨known, waiting, stands, some_left, waits, rfl⟩
  · have applied : p.binding.Applied := by
      refine h.applied _ (List.mem_append_left _ (List.mem_append_left _ ?_))
      exact List.mem_map_of_mem (h.parameters ▸ hp)
    rcases applied.evaluate_error valueless with ⟨r, hr, -, unknown⟩ | ⟨r, hr, rfl⟩
    · exact absurd (FlatParameter.isReady_iff.1 ready r hr) unknown
    · exact .derivativeInBinding hp hr
  · refine .unresolved (by simpa using some_left) fun name inside => ?_
    refine blocked_or_loop (fun n hn => ?_) inside
    -- What a binding that has to wait reads is a variable, or a parameter that waits too.
    obtain ⟨p, hp, rfl⟩ := List.mem_map.1 hn
    have listed : p ∈ m.parameters := stands.left hp
    have unready : ∃ r ∈ p.binding.refs, ¬ Known known r.flatName := by
      simpa [FlatParameter.isReady_iff] using waits p hp
    obtain ⟨r, hr, unknown⟩ := unready
    rcases (h.closed _ (bound listed) r hr).parameter_or_variable with parameter | belongs
    · refine .inr ⟨r.flatName, (stands.known_or_left parameter).resolve_left unknown, ?_⟩
      refine Definitions.mem_reads.2 ⟨p.binding, ?_, ⟨r, hr, rfl⟩, ?_⟩
      · exact FlatParameter.lookup_bindings (List.nodup_append.1 h.distinct).1 listed
      · rw [Definitions.defines_iff, bindings, FlatParameter.bindings_names]
        exact parameter
    · exact .inl ⟨p, listed, rfl, r, hr, belongs⟩

/-- A start value cannot be computed because it reads a variable or mentions a derivative. -/
theorem startValue_error (h : Prepared m s) (evaluated : s.evaluateParameters = .ok known)
    {name : String} (fails : s.startValue known name = .error failure) : failure.Expected m := by
  unfold startValue at fails
  cases found : s.variableNamed? name with
  | none => simp [found] at fails
  | some v =>
    have listed : v ∈ s.unknowns := List.mem_of_find?_eq_some found
    have same : v.name = name := by simpa using List.find?_some found
    cases start : v.start with
    | none => simp [found, start] at fails
    | some e =>
      simp only [found, Option.bind_some, start] at fails
      obtain ⟨cause, valueless, rfl⟩ := mapError_eq_error.1 fails
      subst same
      have applied : e.Applied := by
        refine h.applied e (List.mem_append_left _ (List.mem_append_right _ ?_))
        exact List.mem_filterMap.2 ⟨v, listed, start⟩
      rcases applied.evaluate_error valueless with ⟨r, hr, rfl, unknown⟩ | ⟨r, hr, rfl⟩
      · rw [known_iff_of_evaluateParameters evaluated, h.parameters] at unknown
        have fits := h.closed e (h.starts v listed e start) r hr
        exact .variableInStart h.expanded listed start hr
          (fits.parameter_or_variable.resolve_left unknown)
      · exact .derivativeInStart h.expanded listed start hr

/-- A definition has no code only because it mentions a derivative. -/
theorem compile_error (h : Prepared m s) (evaluated : s.evaluateParameters = .ok known)
    (determinate : Determinate s.declared s.equations) {order : List String}
    (ordered : s.values.sorted s.declared = .ok order) {e : Equation α} (he : e ∈ s.equations)
    {d : Definition α} (defines : e.definition? s.declared = some d) {cause : CodeError}
    (fails : d.value.compile (slotOf? (s.stateNames ++ order)) known = .error cause) :
    ∃ r ∈ d.value.derivatives, cause = .derivative r := by
  obtain ⟨applied, -, declared⟩ := h.definition he defines
  rcases applied.compile_error fails with ⟨r, hr, rfl, unplaced⟩ | found
  · refine absurd ?_ unplaced
    rw [HasPlace, slotOf?_isSome_iff, mem_recorded determinate ordered,
      known_iff_of_evaluateParameters evaluated]
    exact (List.mem_append.1 (declared r hr)).symm
  · exact found

/-- A scalar form fails to compile for an expected reason. -/
theorem compileScalar_error (h : Prepared m s) {title : String}
    (stopped : s.compileScalar title = .error failure) : failure.Expected m := by
  cases stops_of_compileScalar stopped with
  | parameters fails => exact h.evaluateParameters_error fails
  | equations fails => exact h.ofEquations_error fails
  | order fails => exact .loop h.expanded (Definitions.sorted_eq_error fails)
  | start evaluated fails => exact h.startValue_error evaluated fails
  | value evaluated determinate ordered listed fails =>
    have defined := (Definitions.sorted_eq_ok ordered).2.1 _ listed
    obtain ⟨value, found⟩ := Option.isSome_iff_exists.1 defined
    obtain ⟨e, he, defines⟩ := mem_valueDefinitions.1 (mem_of_lookup found)
    unfold Definitions.compile at fails
    rw [found] at fails
    obtain ⟨r, hr, rfl⟩ := h.compile_error evaluated determinate ordered he defines fails
    exact .derivativeInEquation h.expanded found hr
  | rate evaluated determinate ordered listed fails =>
    obtain ⟨value, found⟩ := Option.isSome_iff_exists.1 (List.mem_filter.1 listed).2
    obtain ⟨e, he, defines⟩ := mem_rateDefinitions.1 (mem_of_lookup found)
    unfold Definitions.compile at fails
    rw [found] at fails
    obtain ⟨r, hr, rfl⟩ := h.compile_error evaluated determinate ordered he defines fails
    exact .derivativeInRate h.expanded found hr

end Prepared

/-- A model with distinct names, references that fit and calls of builtins fails to compile for
an expected reason. -/
theorem Closed.compile_error [Zero α] [Add α] [Sub α] [Mul α] [Div α] [Neg α] [Elementary α]
    (closed : m.Closed) (distinct : m.names.Nodup) {cache : FunctionCache}
    (covered : ∀ e ∈ m.expressions, cache.Covers e) {title : String} {failure : CompileError α}
    (fails : m.compile title = .error failure) : failure.Expected m := by
  unfold compile at fails
  rcases bind_eq_error.1 fails with expanding | ⟨s, expanded, fails⟩
  · obtain ⟨cause, unshaped, rfl⟩ := mapError_eq_error.1 expanding
    obtain ⟨e, he, first, one, other, another, differ, rfl⟩ :=
      closed.scalarize_error (List.nodup_append.1 distinct).2.1 unshaped
    exact .sizes he one another differ
  · rw [mapError_eq_ok] at expanded
    exact (prepared_of_scalarize expanded distinct closed covered).compileScalar_error fails

end FlatModel

/-! ## The law -/

/-- Whatever is instantiated from a parsed program, with its arrays expanded or not, compiles or
fails to for a reason that its equations and bindings give as they are before arrays are
expanded; it never fails over a name, a call or a subscript. -/
theorem instances_fail_as_expected {p : Program Float} (parsed : p.Parsed) {name : String}
    {scalar : Bool} {i : Instance Float} (h : p.instantiate name scalar = .ok i)
    (title : String) :
    ∃ j, p.instantiate name false = .ok j ∧
      ((∃ c, i.model.compile title = .ok c) ∨
        ∃ e, i.model.compile title = .error e ∧ e.Expected j.model ∧ ¬ e.Dangling) := by
  obtain ⟨j, whole, sound, closed, expansion⟩ := parsed.exists_unexpanded h
  refine ⟨j, whole, ?_⟩
  have same : i.model.compile title = j.model.compile title := by
    rcases expansion with rfl | expanded
    · rfl
    · exact FlatModel.compile_scalarize expanded title
  rw [same]
  cases compiled : j.model.compile title with
  | ok c => exact .inl ⟨c, rfl⟩
  | error e =>
    have expected := closed.compile_error sound.distinct sound.covered compiled
    exact .inr ⟨e, rfl, expected, expected.not_dangling⟩

/-- A tank whose level starts where its inflow is, which is a variable. -/
def tankText : String :=
  "model Tank parameter Real k = 0.5; Real q; Real h(start = q);" ++
    " equation q = 1.0 - k * h; der(h) = q; end Tank;"

theorem tank_fails_as_expected :
    ∃ file i j e, parseSource "Tank.mo" tankText = .ok file ∧
      (Program.ofSource file).instantiate "Tank" true = .ok i ∧
      (Program.ofSource file).instantiate "Tank" false = .ok j ∧
      i.model.compile "Tank" = .error e ∧ e.Expected j.model ∧ ¬ e.Dangling := by
  have made : ((parseSource "Tank.mo" tankText).toOption.bind fun file =>
      ((Program.ofSource file).instantiate "Tank" true).toOption.filter fun i =>
        (i.model.compile "Tank").toOption.isNone).isSome := by
    decide +kernel
  obtain ⟨i, made⟩ := Option.isSome_iff_exists.1 made
  obtain ⟨file, parsed, made⟩ := Option.bind_eq_some_iff.1 made
  obtain ⟨made, uncompiled⟩ := Option.filter_eq_some_iff.1 made
  rw [toOption_eq_some] at parsed made
  obtain ⟨j, whole, ⟨c, compiled⟩ | ⟨e, fails, expected⟩⟩ :=
    instances_fail_as_expected (.source parsed) made "Tank"
  · simp [compiled, Except.toOption] at uncompiled
  · exact ⟨file, i, j, e, parsed, made, whole, fails, expected⟩

end Acausal
