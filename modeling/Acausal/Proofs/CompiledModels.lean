-- What a compiled model is made of. A model in scalar form compiles exactly when its parameters
-- have values, its equations determine its variables, the algebraic ones can be put in an order
-- and every piece of code can be generated; the compiled model then holds just these pieces.
import Acausal.Proofs.Orientation
import Acausal.Proofs.ParameterValues
import Acausal.Proofs.ScalarForm

namespace Acausal

variable {α : Type}

namespace FlatModel

/-! ## The definitions of a model -/

/-- The rates that the equations of a model define. -/
def rates (m : FlatModel α) : Definitions α := rateDefinitions m.declared m.equations

/-- The values that the equations of a model define. -/
def values (m : FlatModel α) : Definitions α := valueDefinitions m.declared m.equations

/-- The variables with a rate. -/
def stateNames (m : FlatModel α) : List String := m.declared.filter m.rates.defines

/-- The known values of the parameters of a model, in its order. -/
def parameterValues (m : FlatModel α) (known : Valuation α) : Valuation α :=
  m.parameters.filterMap fun p => (known.lookup p.name).map fun v => (p.name, v)

/-- A known value of a parameter is found under its name. -/
theorem lookup_parameterValues {m : FlatModel α} {known : Valuation α}
    (parameters : ∀ name, Known known name → name ∈ m.parameters.map (·.name)) (name : String) :
    (m.parameterValues known).lookup name = known.lookup name := by
  have found (ps : List (FlatParameter α)) (hname : name ∈ ps.map (·.name)) :
      (ps.filterMap fun p => (known.lookup p.name).map fun v => (p.name, v)).lookup name =
        known.lookup name := by
    induction ps with
    | nil => simp at hname
    | cons p ps ih =>
      rw [List.filterMap_cons]
      by_cases same : p.name = name
      · subst same
        cases hv : known.lookup p.name with
        | none =>
          rw [List.lookup_eq_none_iff]
          simp only [Option.map_none, List.mem_filterMap, Option.map_eq_some_iff]
          rintro _ ⟨q, _, v, hq, rfl⟩
          have differs : p.name ≠ q.name := by
            intro same
            rw [← same, hv] at hq
            cases hq
          simpa using differs
        | some v => simp
      · have later : name ∈ ps.map (·.name) := by simpa [Ne.symm same] using hname
        cases hv : known.lookup p.name with
        | none => exact ih later
        | some v =>
          simp only [Option.map_some]
          rw [List.lookup_cons, beq_eq_false_iff_ne.2 (Ne.symm same)]
          exact ih later
  by_cases hname : name ∈ m.parameters.map (·.name)
  · exact found m.parameters hname
  · have unknown : known.lookup name = none := by
      rw [← Option.not_isSome_iff_eq_none]
      exact fun h => hname (parameters name h)
    rw [unknown, List.lookup_eq_none_iff]
    intro p hp
    obtain ⟨q, hq, hqv⟩ := List.mem_filterMap.1 hp
    obtain ⟨v, _, rfl⟩ := Option.map_eq_some_iff.1 hqv
    have differs : name ≠ q.name := fun same => hname (same ▸ List.mem_map_of_mem hq)
    simpa using differs

/-- The code of a definition is that of the expression it gives. -/
theorem compile_eq_ok {d : Definitions α} {slot? : String → Option Nat} {known : Valuation α}
    {name : String} {code : Code α} :
    d.compile slot? known name = .ok code ↔
      ∃ e, d.lookup name = some e ∧ e.compile slot? known = .ok code := by
  unfold Definitions.compile
  cases d.lookup name <;> simp

variable [Zero α] [Add α] [Sub α] [Mul α] [Div α] [Neg α] [Elementary α]

/-! ## Assembly -/

/-- The steps of a compilation that succeeds. -/
theorem compileScalar_eq_ok {m : FlatModel α} {name : String} {c : CompiledModel α} :
    m.compileScalar name = .ok c ↔
      ∃ known, m.evaluateParameters = .ok known ∧ Determinate m.declared m.equations ∧
        ∃ order, m.values.sorted m.declared = .ok order ∧
          ∃ starts, List.Forall₂ (fun n v => m.startValue known n = .ok v) m.stateNames starts ∧
            ∃ algebraics, List.Forall₂ (fun n a => ∃ code,
                m.values.compile (slotOf? (m.stateNames ++ order)) known n = .ok code ∧
                  AlgebraicVariable.mk n code = a) order algebraics ∧
              ∃ states, List.Forall₂ (fun n s => ∃ code,
                  m.rates.compile (slotOf? (m.stateNames ++ order)) known n.1 = .ok code ∧
                    StateVariable.mk n.1 n.2 code = s) (m.stateNames.zip starts) states ∧
                ⟨name, states, algebraics, m.parameterValues known⟩ = c := by
  unfold compileScalar
  simp only [bind_eq_ok, mapError_eq_ok, pure_eq_ok, mapM_eq_ok, Causality.ofEquations_eq_ok]
  constructor
  · rintro ⟨known, evaluated, _, ⟨rfl, determinate⟩, order, ordered, rest⟩
    exact ⟨known, evaluated, determinate, order, ordered, rest⟩
  · rintro ⟨known, evaluated, determinate, order, ordered, rest⟩
    exact ⟨known, evaluated, _, ⟨rfl, determinate⟩, order, ordered, rest⟩

/-- A compiled model with the pieces that its model compiles to, given the known values of the
parameters. -/
structure Assembled (m : FlatModel α) (known : Valuation α) (c : CompiledModel α) : Prop where
  evaluated : m.evaluateParameters = .ok known
  determinate : Determinate m.declared m.equations
  ordered : m.values.sorted m.declared = .ok c.algebraicNames
  stateNames : c.stateNames = m.stateNames
  starts : ∀ s ∈ c.states, m.startValue known s.name = .ok s.start
  values : ∀ a ∈ c.algebraics, m.values.compile (slotOf? c.recorded) known a.name = .ok a.code
  rates : ∀ s ∈ c.states, m.rates.compile (slotOf? c.recorded) known s.name = .ok s.rate
  parameters : c.parameters = m.parameterValues known

theorem assembled_of_compileScalar {m : FlatModel α} {name : String} {c : CompiledModel α}
    (h : m.compileScalar name = .ok c) : ∃ known, m.Assembled known c := by
  obtain ⟨known, evaluated, determinate, order, ordered, starts, hstarts, algebraics,
    halgebraics, states, hstates, rfl⟩ := compileScalar_eq_ok.1 h
  have orderNames : algebraics.map (·.name) = order := by
    have same := map_eq_of_forall₂ (f := id) (g := (·.name)) halgebraics
      fun _ _ ⟨_, _, h⟩ => h ▸ rfl
    rwa [List.map_id] at same
  have stateNames : states.map (·.name) = m.stateNames := by
    have same := map_eq_of_forall₂ (f := Prod.fst) (g := (·.name)) hstates
      fun _ _ ⟨_, _, h⟩ => h ▸ rfl
    rwa [List.map_fst_zip (Nat.le_of_eq hstarts.length_eq)] at same
  subst orderNames
  refine ⟨known, evaluated, determinate, ordered, stateNames, fun s hs => ?_, fun a ha => ?_,
    fun s hs => ?_, rfl⟩
  · obtain ⟨⟨name, start⟩, hpair, code, _, rfl⟩ := exists_of_forall₂_right hstates s hs
    exact List.forall₂_zip hstarts hpair
  · obtain ⟨name, _, code, hcode, rfl⟩ := exists_of_forall₂_right halgebraics a ha
    rw [← stateNames] at hcode
    exact hcode
  · obtain ⟨⟨name, start⟩, _, code, hcode, rfl⟩ := exists_of_forall₂_right hstates s hs
    rw [← stateNames] at hcode
    exact hcode

/-- What a model compiles to is assembled from its scalar form. -/
theorem assembled_of_compile {m : FlatModel α} {name : String} {c : CompiledModel α}
    (h : m.compile name = .ok c) :
    ∃ s known, m.scalarize = .ok s ∧ s.Assembled known c := by
  unfold compile at h
  simp only [bind_eq_ok, mapError_eq_ok] at h
  obtain ⟨s, scalar, assembles⟩ := h
  obtain ⟨known, assembled⟩ := assembled_of_compileScalar assembles
  exact ⟨s, known, scalar, assembled⟩

namespace Assembled

variable {m : FlatModel α} {known : Valuation α} {c : CompiledModel α} {e : Equation α}
  {name : String} {value : Expr α}

/-- A rate that an equation gives is that of a state. -/
theorem rate_of_equation (h : m.Assembled known c) (he : e ∈ m.equations)
    (hd : e.definition? m.declared = some (.derivative name value)) :
    m.rates.lookup name = some value ∧ name ∈ c.stateNames := by
  have found : m.rates.lookup name = some value :=
    lookup_of_mem h.determinate.rates_distinct (mem_rateDefinitions.2 ⟨e, he, hd⟩)
  have defined : m.rates.defines name := by
    rw [Definitions.defines, found]
    rfl
  refine ⟨found, ?_⟩
  rw [h.stateNames]
  exact List.mem_filter.2 ⟨h.determinate.declared_of_rate defined, defined⟩

/-- A value that an equation gives is that of an algebraic variable. -/
theorem value_of_equation (h : m.Assembled known c) (he : e ∈ m.equations)
    (hd : e.definition? m.declared = some (.algebraic name value)) :
    m.values.lookup name = some value ∧ name ∈ c.algebraicNames := by
  have found : m.values.lookup name = some value :=
    lookup_of_mem h.determinate.values_distinct (mem_valueDefinitions.2 ⟨e, he, hd⟩)
  have defined : m.values.defines name := by
    rw [Definitions.defines, found]
    rfl
  exact ⟨found,
    (Definitions.sorted_eq_ok h.ordered).2.2 name (declared_of_algebraic hd) defined⟩

end Assembled

/-- A model compiles when every step of its compilation can be made. -/
theorem exists_compileScalar_eq_ok {m : FlatModel α} {name : String} {known : Valuation α}
    {order : List String} (evaluated : m.evaluateParameters = .ok known)
    (determinate : Determinate m.declared m.equations)
    (ordered : m.values.sorted m.declared = .ok order)
    (starts : ∀ n ∈ m.stateNames, ∃ v, m.startValue known n = .ok v)
    (values : ∀ n ∈ order, ∃ code,
      m.values.compile (slotOf? (m.stateNames ++ order)) known n = .ok code)
    (rates : ∀ n ∈ m.stateNames, ∃ code,
      m.rates.compile (slotOf? (m.stateNames ++ order)) known n = .ok code) :
    ∃ c, m.compileScalar name = .ok c := by
  simp only [compileScalar_eq_ok]
  obtain ⟨startValues, hstarts⟩ := exists_forall₂ starts
  have algebraic (n : String) (hn : n ∈ order) : ∃ a, ∃ code,
      m.values.compile (slotOf? (m.stateNames ++ order)) known n = .ok code ∧
        AlgebraicVariable.mk n code = a := by
    obtain ⟨code, hcode⟩ := values n hn
    exact ⟨_, code, hcode, rfl⟩
  have state (n : String × α) (hn : n ∈ m.stateNames.zip startValues) : ∃ s, ∃ code,
      m.rates.compile (slotOf? (m.stateNames ++ order)) known n.1 = .ok code ∧
        StateVariable.mk n.1 n.2 code = s := by
    obtain ⟨code, hcode⟩ := rates n.1 (List.of_mem_zip hn).1
    exact ⟨_, code, hcode, rfl⟩
  obtain ⟨algebraics, halgebraics⟩ := exists_forall₂ algebraic
  obtain ⟨states, hstates⟩ := exists_forall₂ state
  exact ⟨_, known, evaluated, determinate, order, ordered, startValues, hstarts, algebraics,
    halgebraics, states, hstates, rfl⟩

end FlatModel

end Acausal
