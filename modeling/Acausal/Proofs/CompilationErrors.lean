-- What stands behind a failure to compile. An expression that calls builtins only has no code
-- because of a name without a place or a derivative; parameters without values wait for names
-- that are no parameters or for each other; and an error of a compilation is that of the first
-- step that cannot be made.
import Acausal.Proofs.ClosedModels
import Acausal.Proofs.CompiledModels

namespace Acausal

variable {α : Type}

/-! ## Code -/

section
variable {slot? : String → Option Nat} {known : Valuation α} {e : Expr α} {cause : CodeError}

/-- An expression that calls builtins only has no code because it reads a name without a place
or mentions a derivative. -/
theorem Expr.Applied.compile_error (applied : e.Applied)
    (h : e.compile slot? known = .error cause) :
    (∃ r ∈ e.refs, cause = .unknownName r.flatName ∧ ¬ HasPlace slot? known r.flatName) ∨
      ∃ r ∈ e.derivatives, cause = .derivative r := by
  induction e with
  | number value => cases h
  | time => cases h
  | der r =>
    cases h
    exact .inr ⟨r, by simp [derivatives], rfl⟩
  | ref r =>
    unfold compile at h
    cases hs : slot? r.flatName with
    | some slot => simp [hs] at h
    | none =>
      cases hk : known.lookup r.flatName with
      | some value => simp [hs, hk] at h
      | none =>
        simp only [hs, hk] at h
        cases h
        exact .inl ⟨r, by simp [refs], rfl, by simp [HasPlace, Known, hs, hk]⟩
  | neg operand ih =>
    unfold compile at h
    rcases bind_eq_error.1 h with inner | ⟨_, -, done⟩
    · exact ih applied inner
    · cases done
  | binary lhs op rhs ihl ihr =>
    unfold compile at h
    have left : lhs.Applied := fun c hc => applied c (List.mem_append_left _ hc)
    have right : rhs.Applied := fun c hc => applied c (List.mem_append_right _ hc)
    simp only [refs, derivatives, List.mem_append]
    rcases bind_eq_error.1 h with inner | ⟨a, -, rest⟩
    · rcases ihl left inner with ⟨r, hr, unplaced⟩ | ⟨r, hr, same⟩
      · exact .inl ⟨r, .inl hr, unplaced⟩
      · exact .inr ⟨r, .inl hr, same⟩
    · rcases bind_eq_error.1 rest with inner | ⟨b, -, done⟩
      · rcases ihr right inner with ⟨r, hr, unplaced⟩ | ⟨r, hr, same⟩
        · exact .inl ⟨r, .inr hr, unplaced⟩
        · exact .inr ⟨r, .inr hr, same⟩
      · cases done
  | call function args ih =>
    obtain ⟨f, arg, builtin, rfl⟩ := wellApplied_iff.1 (applied _ List.mem_cons_self)
    have inside : arg.Applied := fun c hc =>
      applied c (List.mem_cons_of_mem _ (mem_applicationsAll.2 ⟨arg, List.mem_singleton_self arg, hc⟩))
    unfold compile at h
    simp only [builtin] at h
    simp only [refs, derivatives, refsAll, derivativesAll, List.append_nil]
    rcases bind_eq_error.1 h with inner | ⟨_, -, done⟩
    · exact ih arg (List.mem_singleton_self arg) inside inner
    · cases done

variable [Zero α] [Add α] [Sub α] [Mul α] [Div α] [Neg α] [Elementary α]

/-- An expression of known values has no value because it reads an unknown name or mentions a
derivative. -/
theorem Expr.Applied.evaluate_error (applied : e.Applied) (h : e.evaluate known = .error cause) :
    (∃ r ∈ e.refs, cause = .unknownName r.flatName ∧ ¬ Known known r.flatName) ∨
      ∃ r ∈ e.derivatives, cause = .derivative r := by
  rcases bind_eq_error.1 h with uncoded | ⟨_, -, done⟩
  · refine (applied.compile_error uncoded).imp_left ?_
    rintro ⟨r, hr, same, unplaced⟩
    exact ⟨r, hr, same, fun found => unplaced (.inr found)⟩
  · cases done

end

/-! ## Shapes -/

/-- A replacement fails at one of the references. -/
theorem Expr.mapRefs_error {ε : Type} {f : Ref → Except ε Ref} {e : Expr α} {cause : ε}
    (h : e.mapRefs f = .error cause) : ∃ r ∈ e.refs, f r = .error cause := by
  induction e with
  | number value => cases h
  | time => cases h
  | ref r =>
    rw [mapRefs] at h
    rcases bind_eq_error.1 h with fails | ⟨_, -, done⟩
    · exact ⟨r, by simp [refs], fails⟩
    · cases done
  | der r =>
    rw [mapRefs] at h
    rcases bind_eq_error.1 h with fails | ⟨_, -, done⟩
    · exact ⟨r, by simp [refs], fails⟩
    · cases done
  | neg operand ih =>
    rw [mapRefs] at h
    rcases bind_eq_error.1 h with fails | ⟨_, -, done⟩
    · exact ih fails
    · cases done
  | binary lhs op rhs ihl ihr =>
    rw [mapRefs] at h
    simp only [refs, List.mem_append]
    rcases bind_eq_error.1 h with fails | ⟨_, -, rest⟩
    · obtain ⟨r, hr, fails⟩ := ihl fails
      exact ⟨r, .inl hr, fails⟩
    · rcases bind_eq_error.1 rest with fails | ⟨_, -, done⟩
      · obtain ⟨r, hr, fails⟩ := ihr fails
        exact ⟨r, .inr hr, fails⟩
      · cases done
  | call function args ih =>
    rw [mapRefs, mapRefsAll_eq_mapM] at h
    rcases bind_eq_error.1 h with fails | ⟨_, -, done⟩
    · obtain ⟨arg, harg, fails⟩ := mapM_error fails
      obtain ⟨r, hr, fails⟩ := ih arg harg fails
      exact ⟨r, mem_refsAll.2 ⟨arg, harg, hr⟩, fails⟩
    · cases done

namespace FlatModel

variable {m : FlatModel α}

/-- There is a scalar behind every reference that fits. -/
theorem Fits.scalarRef_ne_error {r : Ref} (fits : m.Fits r) (distinct : m.declared.Nodup)
    (element : Option Nat) (cause : ShapeError α) :
    scalarRef m.arraySize? element r ≠ .error cause := by
  unfold scalarRef
  cases index : r.index with
  | none => cases m.arraySize? r.name <;> nofun
  | some i =>
    obtain ⟨v, hv, same, n, size, -, high⟩ := fits.2 i index
    have known : m.arraySize? r.name = some n := by
      rw [← same, arraySize?_eq distinct hv, size]
    simp only [known]
    rw [if_neg (Nat.not_lt.2 high)]
    nofun

/-- An equation has no width where arrays of two sizes meet in it. -/
theorem width?_error {size? : String → Option Nat} {e : Equation α} {cause : ShapeError α}
    (h : width? size? e = .error cause) :
    ∃ first ∈ wholeSizes size? e, ∃ other ∈ wholeSizes size? e,
      first ≠ other ∧ cause = .sizes first other e := by
  unfold width? at h
  split at h
  · cases h
  · next n more sizes =>
    split at h
    · cases h
    · next other search =>
      cases h
      have differ : other ≠ n := by simpa using List.find?_some search
      have later : other ∈ more := by simpa using List.mem_of_find?_eq_some search
      rw [sizes]
      exact ⟨n, List.mem_cons_self, other, List.mem_cons_of_mem n later, differ.symm, rfl⟩

/-- Where all references fit, there is a scalar equation for every element. -/
theorem Closed.scalarEquation_ne_error (closed : m.Closed) (distinct : m.declared.Nodup)
    {e : Equation α} (he : e ∈ m.equations) (element : Option Nat) (cause : ShapeError α) :
    scalarEquation m.arraySize? element e ≠ .error cause := by
  have made : ∀ side ∈ [e.lhs, e.rhs],
      side.mapRefs (scalarRef m.arraySize? element) ≠ .error cause := by
    intro side hside fails
    obtain ⟨r, hr, fails⟩ := Expr.mapRefs_error fails
    have listed : side ∈ m.expressions :=
      List.mem_append_right _ (List.mem_flatMap.2 ⟨e, he, hside⟩)
    exact (closed side listed r hr).scalarRef_ne_error distinct element cause fails
  intro h
  rcases bind_eq_error.1 h with left | ⟨_, -, h⟩
  · exact made e.lhs (by simp) left
  · rcases bind_eq_error.1 h with right | ⟨_, -, done⟩
    · exact made e.rhs (by simp) right
    · cases done

/-- Where all references fit, the only arrays that cannot be expanded are those of different
sizes in one equation. -/
theorem Closed.scalarize_error (closed : m.Closed) (distinct : m.declared.Nodup)
    {cause : ShapeError α} (h : m.scalarize = .error cause) :
    ∃ e ∈ m.equations, ∃ first ∈ wholeSizes m.arraySize? e, ∃ other ∈ wholeSizes m.arraySize? e,
      first ≠ other ∧ cause = .sizes first other e := by
  rcases bind_eq_error.1 h with walk | ⟨_, -, done⟩
  · obtain ⟨e, he, fails⟩ := mapM_error walk
    rcases bind_eq_error.1 fails with unequal | ⟨width, -, fails⟩
    · exact ⟨e, he, width?_error unequal⟩
    · have made := fun element => closed.scalarEquation_ne_error distinct he element cause
      cases width with
      | none =>
        rcases bind_eq_error.1 fails with single | ⟨_, -, done⟩
        · exact absurd single (made none)
        · cases done
      | some n =>
        obtain ⟨i, -, fails⟩ := mapM_error fails
        exact absurd fails (made (some i))
  · cases done

end FlatModel

/-! ## Parameters -/

namespace FlatParameter

variable [Zero α] [Add α] [Sub α] [Mul α] [Div α] [Neg α] [Elementary α]
  {ps pending : List (FlatParameter α)} {known : Valuation α} {cause : ParameterError}

/-- A pass fails at a binding for which all is known but which has no value. -/
theorem pass_error (h : pass known pending = .error cause) :
    ∃ p ∈ pending, ∃ known c, p.isReady known ∧ p.binding.evaluate known = .error c ∧
      cause = .inBinding p.name c := by
  induction pending generalizing known with
  | nil => cases h
  | cons p rest ih =>
    have later : ∀ known, pass known rest = .error cause → ∃ q ∈ p :: rest, ∃ known c,
        q.isReady known ∧ q.binding.evaluate known = .error c ∧ cause = .inBinding q.name c := by
      intro known fails
      obtain ⟨q, hq, found⟩ := ih fails
      exact ⟨q, List.mem_cons_of_mem p hq, found⟩
    unfold pass at h
    split at h
    · next ready =>
      cases value : p.binding.evaluate known with
      | error c =>
        simp only [value] at h
        cases h
        exact ⟨p, List.mem_cons_self, known, c, ready, value, rfl⟩
      | ok v =>
        simp only [value] at h
        exact later _ h
    · cases rest' : pass known rest with
      | error c =>
        simp only [rest'] at h
        cases h
        exact later _ rest'
      | ok result => simp [rest'] at h

/-- A pass over bindings none of which is ready changes nothing. -/
theorem pass_eq_of_none_ready (waits : ∀ p ∈ pending, ¬ p.isReady known) :
    pass known pending = .ok (known, pending) := by
  induction pending with
  | nil => rfl
  | cons p rest ih =>
    rw [List.forall_mem_cons] at waits
    unfold pass
    rw [if_neg waits.1, ih waits.2]

/-- Passes fail at a binding that is ready but has no value, or with some bindings left none of
which is ready. -/
theorem passes_error (stands : Progress ps known pending)
    (h : passes known pending = .error cause) :
    (∃ p ∈ ps, ∃ known c, p.isReady known ∧ p.binding.evaluate known = .error c ∧
      cause = .inBinding p.name c) ∨
    ∃ known waiting, Progress ps known waiting ∧ waiting ≠ [] ∧
      (∀ p ∈ waiting, ¬ p.isReady known) ∧ cause = .unresolved (waiting.map (·.name)) := by
  induction known, pending using passes.induct with
  | case1 known pending empty =>
    rw [passes, if_pos empty] at h
    cases h
  | case2 known pending more e failed =>
    rw [passes, if_neg more, failed] at h
    cases h
    obtain ⟨p, hp, found⟩ := pass_error failed
    exact .inl ⟨p, stands.left hp, found⟩
  | case3 known pending more known₁ waiting passed fewer ih =>
    rw [passes, if_neg more] at h
    simp only [passed, dif_pos fewer] at h
    have kept := pass_keeps [] passed (by simpa using stands)
    exact ih (by simpa using kept) h
  | case4 known pending more known₁ waiting passed stuck =>
    rw [passes, if_neg more] at h
    simp only [passed, dif_neg stuck] at h
    cases h
    have waits : ∀ p ∈ pending, ¬ p.isReady known :=
      fun p hp ready => stuck ((pass_length passed).2 ⟨p, hp, ready⟩)
    rw [pass_eq_of_none_ready waits] at passed
    cases passed
    exact .inr ⟨known, pending, stands, by simpa using more, waits, rfl⟩

end FlatParameter

/-! ## Equations -/

namespace Causality

variable {declared : List String} {equations : List (Equation α)} {c : Causality α}
  {failure : CompileError α}

theorem one_le_count_of_defines {d : Definitions α} {name : String} (h : d.defines name) :
    1 ≤ (d.map (·.1)).count name :=
  List.count_pos_iff.2 (lookup_isSome_iff_mem.1 h)

/-- An equation cannot be added because it defines nothing, because it defines the derivative of
what is no variable, or because it defines again a variable that others did. -/
theorem add_error {q : Equation α} (h : c.add declared q = .error failure) :
    (q.definition? declared = none ∧ failure = .definesNothing q) ∨
    (∃ name value, q.definition? declared = some (.derivative name value) ∧
      name ∉ declared ∧ failure = .undeclaredDerivative name) ∨
    ∃ name ∈ declared, failure = .definedTwice name ∧
      (2 ≤ ((c.derivatives ++ rateDefinitions declared [q]).map (·.1)).count name ∨
        2 ≤ ((c.algebraics ++ valueDefinitions declared [q]).map (·.1)).count name) := by
  unfold add at h
  rcases defines : q.definition? declared with _ | ⟨name, value⟩ | ⟨name, value⟩
  · simp only [defines] at h
    cases h
    exact .inl ⟨rfl, rfl⟩
  · simp only [defines] at h
    by_cases inside : name ∈ declared
    · rw [if_neg (not_not_intro inside)] at h
      split at h
      · next twice =>
        cases h
        refine .inr (.inr ⟨name, inside, rfl, .inl ?_⟩)
        have first := one_le_count_of_defines twice
        simp only [rateDefinitions, List.filterMap_cons, defines, List.filterMap_nil,
          List.map_append, List.map_cons, List.count_append, List.count_cons_self]
        omega
      · cases h
    · rw [if_pos inside] at h
      cases h
      exact .inr (.inl ⟨name, value, rfl, inside, rfl⟩)
  · simp only [defines] at h
    split at h
    · next twice =>
      cases h
      refine .inr (.inr ⟨name, declared_of_algebraic defines, rfl, .inr ?_⟩)
      have first := one_le_count_of_defines twice
      simp only [valueDefinitions, List.filterMap_cons, defines, List.filterMap_nil,
        List.map_append, List.map_cons, List.count_append, List.count_cons_self]
      omega
    · cases h

/-- The equations of a model fail to define it at one that cannot be added to those before. -/
theorem foldlM_add_error (h : equations.foldlM (add declared) c = .error failure) :
    (∃ q ∈ equations, q.definition? declared = none ∧ failure = .definesNothing q) ∨
    (∃ q ∈ equations, ∃ name value, q.definition? declared = some (.derivative name value) ∧
      name ∉ declared ∧ failure = .undeclaredDerivative name) ∨
    ∃ name ∈ declared, failure = .definedTwice name ∧
      (2 ≤ ((c.derivatives ++ rateDefinitions declared equations).map (·.1)).count name ∨
        2 ≤ ((c.algebraics ++ valueDefinitions declared equations).map (·.1)).count name) := by
  induction equations generalizing c with
  | nil => cases h
  | cons q equations ih =>
    rw [List.foldlM_cons] at h
    rw [rateDefinitions_cons, valueDefinitions_cons, ← List.append_assoc, ← List.append_assoc]
    rcases bind_eq_error.1 h with here | ⟨c', added, later⟩
    · rcases add_error here with found | found | ⟨name, inside, same, twice⟩
      · exact .inl ⟨q, List.mem_cons_self, found⟩
      · exact .inr (.inl ⟨q, List.mem_cons_self, found⟩)
      · refine .inr (.inr ⟨name, inside, same, ?_⟩)
        -- The definitions of the equations behind this one only add to the count.
        have more : ∀ d d' : Definitions α, 2 ≤ (d.map (·.1)).count name →
            2 ≤ ((d ++ d').map (·.1)).count name := by
          intro d d' two
          rw [List.map_append, List.count_append]
          omega
        exact twice.imp (more _ _) (more _ _)
    · obtain ⟨-, -, -, rfl⟩ := add_eq_ok.1 added
      rcases ih later with ⟨q', hq', found⟩ | ⟨q', hq', found⟩ | twice
      · exact .inl ⟨q', List.mem_cons_of_mem q hq', found⟩
      · exact .inr (.inl ⟨q', List.mem_cons_of_mem q hq', found⟩)
      · exact .inr (.inr twice)

/-- A variable that is not determined is defined in both ways or in none. -/
theorem checkDetermined_error {name : String} (h : c.checkDetermined name = .error failure) :
    (failure = .definedBothWays name ∧ c.derivatives.defines name ∧ c.algebraics.defines name) ∨
      (failure = .undetermined name ∧ ¬ c.derivatives.defines name ∧
        ¬ c.algebraics.defines name) := by
  unfold checkDetermined at h
  cases rate : c.derivatives.defines name <;> cases value : c.algebraics.defines name <;>
    simp only [rate, value] at h <;> cases h
  · exact .inr ⟨rfl, nofun, nofun⟩
  · exact .inl ⟨rfl, rfl, rfl⟩

end Causality

/-! ## Compilations -/

section
variable [Zero α] [Add α] [Sub α] [Mul α] [Div α] [Neg α] [Elementary α]
  {m : FlatModel α} {failure : CompileError α}

namespace FlatModel

/-- The steps of a compilation, each with an error that stops it there. -/
inductive Stops (m : FlatModel α) : CompileError α → Prop
  | parameters {cause : ParameterError} (fails : m.evaluateParameters = .error cause) :
      Stops m (.parameters cause)
  | equations {failure : CompileError α}
      (fails : Causality.ofEquations m.declared m.equations = .error failure) : Stops m failure
  | order {cause : Loop} (fails : m.values.sorted m.declared = .error cause) :
      Stops m (.loop cause)
  | start {known : Valuation α} {name : String} {failure : CompileError α}
      (evaluated : m.evaluateParameters = .ok known)
      (fails : m.startValue known name = .error failure) : Stops m failure
  | value {known : Valuation α} {order : List String} {name : String} {cause : CodeError}
      (evaluated : m.evaluateParameters = .ok known)
      (determinate : Determinate m.declared m.equations)
      (ordered : m.values.sorted m.declared = .ok order) (listed : name ∈ order)
      (fails : m.values.compile (slotOf? (m.stateNames ++ order)) known name = .error cause) :
      Stops m (.inEquation name cause)
  | rate {known : Valuation α} {order : List String} {name : String} {cause : CodeError}
      (evaluated : m.evaluateParameters = .ok known)
      (determinate : Determinate m.declared m.equations)
      (ordered : m.values.sorted m.declared = .ok order) (listed : name ∈ m.stateNames)
      (fails : m.rates.compile (slotOf? (m.stateNames ++ order)) known name = .error cause) :
      Stops m (.inDerivative name cause)

/-- A compilation fails with the error of one of its steps. -/
theorem stops_of_compileScalar {title : String} (h : m.compileScalar title = .error failure) :
    m.Stops failure := by
  unfold compileScalar at h
  rcases bind_eq_error.1 h with stopped | ⟨known, evaluated, h⟩
  · obtain ⟨cause, fails, rfl⟩ := mapError_eq_error.1 stopped
    exact .parameters fails
  rw [mapError_eq_ok] at evaluated
  rcases bind_eq_error.1 h with stopped | ⟨c, oriented, h⟩
  · exact .equations stopped
  obtain ⟨rfl, determinate⟩ := Causality.ofEquations_eq_ok.1 oriented
  rcases bind_eq_error.1 h with stopped | ⟨order, ordered, h⟩
  · obtain ⟨cause, fails, rfl⟩ := mapError_eq_error.1 stopped
    exact .order fails
  rw [mapError_eq_ok] at ordered
  rcases bind_eq_error.1 h with stopped | ⟨starts, -, h⟩
  · obtain ⟨name, -, fails⟩ := mapM_error stopped
    exact .start evaluated fails
  rcases bind_eq_error.1 h with stopped | ⟨algebraics, -, h⟩
  · obtain ⟨name, listed, fails⟩ := mapM_error stopped
    rcases bind_eq_error.1 fails with coding | ⟨_, -, done⟩
    · obtain ⟨cause, uncoded, rfl⟩ := mapError_eq_error.1 coding
      exact .value evaluated determinate ordered listed uncoded
    · cases done
  rcases bind_eq_error.1 h with stopped | ⟨_, -, done⟩
  · obtain ⟨⟨name, start⟩, listed, fails⟩ := mapM_error stopped
    rcases bind_eq_error.1 fails with coding | ⟨_, -, done⟩
    · obtain ⟨cause, uncoded, rfl⟩ := mapError_eq_error.1 coding
      exact .rate evaluated determinate ordered (List.of_mem_zip listed).1 uncoded
    · cases done
  · cases done

theorem Stops.ne_shape {failure : CompileError α} (h : m.Stops failure)
    (cause : ShapeError α) : failure ≠ .shape cause := by
  rintro rfl
  cases h with
  | equations fails =>
    unfold Causality.ofEquations at fails
    rcases bind_eq_error.1 fails with added | ⟨c, -, fails⟩
    · rcases Causality.foldlM_add_error added with ⟨_, -, -, same⟩ | ⟨_, -, _, _, -, -, same⟩ |
        ⟨_, -, same, -⟩
      · cases same
      · cases same
      · cases same
    · rcases bind_eq_error.1 fails with checked | ⟨_, -, done⟩
      · obtain ⟨name, -, fails⟩ := forM_error checked
        rcases Causality.checkDetermined_error fails with ⟨same, -⟩ | ⟨same, -⟩
        · cases same
        · cases same
      · cases done
  | start evaluated fails =>
    unfold FlatModel.startValue at fails
    split at fails
    · cases fails
    · obtain ⟨_, -, same⟩ := mapError_eq_error.1 fails
      cases same

/-- A model that is its own scalar form does not fail for the shapes of arrays. -/
theorem compile_ne_shape (scalar : m.scalarize = .ok m) {title : String}
    {cause : ShapeError α} : m.compile title ≠ .error (.shape cause) := by
  intro h
  unfold compile at h
  rw [scalar] at h
  exact (stops_of_compileScalar h).ne_shape cause rfl

end FlatModel

end

end Acausal
