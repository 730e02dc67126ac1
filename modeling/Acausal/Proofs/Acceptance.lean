-- Which models compile. A model does exactly when its scalar form is determined: parameters can
-- be computed from parameters, each variable is defined once, and no loop is left among the
-- algebraic ones. Then every declared variable is recorded, and none twice.
import Acausal.Proofs.EquationsHold

namespace Acausal

variable {α : Type}

namespace FlatModel

/-! ## Determined models -/

/-- A model in scalar form that determines its variables: its parameters can be computed from
each other without a loop, each equation defines a declared variable or its derivative and each
variable is defined by one equation, the algebraic variables do not read themselves through
others, states start from what can be computed from parameters, and all that is defined can be
computed from declared names. -/
structure Determined (m : FlatModel α) : Prop where
  bindings : m.BindingsComputable
  bindings_acyclic : m.bindings.Acyclic
  determinate : Determinate m.declared m.equations
  values_acyclic : m.values.Acyclic
  starts : ∀ v ∈ m.unknowns, m.rates.defines v.name → ∀ e, v.start = some e →
    e.ComputableFrom (· ∈ m.parameters.map (·.name))
  sides : ∀ e ∈ m.equations, ∀ d, e.definition? m.declared = some d →
    d.value.ComputableFrom (· ∈ m.names)

/-! ## What is recorded -/

variable {m : FlatModel α}

theorem variableNamed?_eq (distinct : m.declared.Nodup) {v : FlatVariable α}
    (hv : v ∈ m.unknowns) : m.variableNamed? v.name = some v := by
  unfold variableNamed?
  cases h : m.unknowns.find? (·.name == v.name) with
  | none =>
    rw [List.find?_eq_none] at h
    exact absurd (beq_self_eq_true v.name) (h v hv)
  | some w =>
    have same : w.name = v.name := by simpa using List.find?_some h
    rw [List.inj_on_of_nodup_map distinct (List.mem_of_find?_eq_some h) hv same]

/-- The states and the ordered algebraic variables are the declared variables. -/
theorem mem_recorded (determinate : Determinate m.declared m.equations) {order : List String}
    (ordered : m.values.sorted m.declared = .ok order) {name : String} :
    name ∈ m.stateNames ++ order ↔ name ∈ m.declared := by
  obtain ⟨_, defined, inside⟩ := Definitions.sorted_eq_ok ordered
  rw [List.mem_append, stateNames, List.mem_filter]
  constructor
  · rintro (⟨declared, _⟩ | inOrder)
    · exact declared
    · exact declared_of_value (defined name inOrder)
  · intro declared
    have one : m.rates.defines name ≠ m.values.defines name := determinate.rate_xor_value declared
    by_cases rate : m.rates.defines name
    · exact .inl ⟨declared, rate⟩
    · refine .inr (inside name declared ?_)
      rw [Bool.eq_false_iff.2 rate] at one
      simpa using one.symm

theorem recorded_nodup (distinct : m.declared.Nodup)
    (determinate : Determinate m.declared m.equations) {order : List String}
    (ordered : m.values.sorted m.declared = .ok order) : (m.stateNames ++ order).Nodup := by
  obtain ⟨layers, defined, _⟩ := Definitions.sorted_eq_ok ordered
  refine List.nodup_append.2 ⟨distinct.filter _, layers.nodup, fun a ha b hb same => ?_⟩
  subst same
  obtain ⟨declared, rate⟩ := List.mem_filter.1 ha
  exact determinate.rate_xor_value declared (rate.trans (defined a hb).symm)

/-- There are as many equations as declared variables. -/
theorem length_equations (distinct : m.declared.Nodup)
    (determinate : Determinate m.declared m.equations) :
    m.equations.length = m.declared.length := by
  have same : (m.rates.map (·.1) ++ m.values.map (·.1)).Perm m.declared := by
    rw [List.perm_iff_count]
    intro name
    rw [List.count_append, distinct.count]
    have count := definitionCount_eq m.declared m.equations name
    split
    · rename_i declared
      exact count.symm.trans (determinate.once name declared)
    · rename_i other
      rw [List.count_eq_zero.2, List.count_eq_zero.2]
      · intro h
        exact other (declared_of_value (lookup_isSome_iff_mem.2 h))
      · intro h
        exact other (determinate.declared_of_rate (lookup_isSome_iff_mem.2 h))
  rw [← length_definitions determinate.orientable, ← same.length_eq]
  simp [rates, values]

variable [Zero α] [Add α] [Sub α] [Mul α] [Div α] [Neg α] [Elementary α]

/-! ## Acceptance -/

/-- What compiles is determined. -/
theorem Assembled.determined {known : Valuation α} {c : CompiledModel α}
    (h : m.Assembled known c) (parameters : (m.parameters.map (·.name)).Nodup)
    (unknowns : m.declared.Nodup) : m.Determined := by
  obtain ⟨bindings, bindings_acyclic⟩ :=
    (exists_evaluateParameters_eq_ok parameters).1 ⟨known, h.evaluated⟩
  have knownNames (name : String) : Known known name ↔ name ∈ m.parameters.map (·.name) :=
    known_iff_of_evaluateParameters h.evaluated
  have recorded : c.recorded = m.stateNames ++ c.algebraicNames := by
    rw [CompiledModel.recorded, h.stateNames]
  have placed (name : String) (place : HasPlace (slotOf? c.recorded) known name) :
      name ∈ m.names := by
    rw [HasPlace, slotOf?_isSome_iff, knownNames, recorded,
      mem_recorded h.determinate h.ordered] at place
    exact List.mem_append.2 place.symm
  refine ⟨bindings, bindings_acyclic, h.determinate, ?_, fun v hv rate e he => ?_,
    fun e he d hd => ?_⟩
  · exact (Definitions.exists_sorted_eq_ok fun _ => declared_of_value).1 ⟨_, h.ordered⟩
  · have state : v.name ∈ c.stateNames := by
      rw [h.stateNames]
      exact List.mem_filter.2 ⟨List.mem_map_of_mem hv, rate⟩
    obtain ⟨s, hs, sameName⟩ := List.mem_map.1 state
    have start := h.starts s hs
    rw [sameName, startValue, variableNamed?_eq unknowns hv, Option.bind_some, he,
      mapError_eq_ok] at start
    exact ((exists_evaluate_eq_ok e).1 ⟨_, start⟩).mono fun r _ => (knownNames _).1
  · cases d with
    | derivative name value =>
      obtain ⟨defined, state⟩ := h.rate_of_equation he hd
      obtain ⟨s, hs, rfl⟩ := List.mem_map.1 state
      obtain ⟨e', he', code⟩ := compile_eq_ok.1 (h.rates s hs)
      rw [defined] at he'
      cases he'
      exact ((exists_compile_eq_ok value).1 ⟨_, code⟩).mono fun r _ => placed _
    | algebraic name value =>
      obtain ⟨defined, inOrder⟩ := h.value_of_equation he hd
      obtain ⟨a, ha, rfl⟩ := List.mem_map.1 inOrder
      obtain ⟨e', he', code⟩ := compile_eq_ok.1 (h.values a ha)
      rw [defined] at he'
      cases he'
      exact ((exists_compile_eq_ok value).1 ⟨_, code⟩).mono fun r _ => placed _

/-- What is determined compiles. -/
theorem Determined.compiles (h : m.Determined) (parameters : (m.parameters.map (·.name)).Nodup)
    (unknowns : m.declared.Nodup) (name : String) : ∃ c, m.compileScalar name = .ok c := by
  obtain ⟨known, evaluated⟩ :=
    (exists_evaluateParameters_eq_ok parameters).2 ⟨h.bindings, h.bindings_acyclic⟩
  obtain ⟨order, ordered⟩ :=
    (Definitions.exists_sorted_eq_ok fun _ => declared_of_value).2 h.values_acyclic
  have knownNames (name : String) : Known known name ↔ name ∈ m.parameters.map (·.name) :=
    known_iff_of_evaluateParameters evaluated
  have placed (name : String) (declared : name ∈ m.names) :
      HasPlace (slotOf? (m.stateNames ++ order)) known name := by
    rw [HasPlace, slotOf?_isSome_iff, knownNames, mem_recorded h.determinate ordered]
    exact (List.mem_append.1 declared).symm
  refine exists_compileScalar_eq_ok evaluated h.determinate ordered (fun n hn => ?_)
    (fun n hn => ?_) fun n hn => ?_
  · obtain ⟨declared, rate⟩ := List.mem_filter.1 hn
    obtain ⟨v, hv, rfl⟩ := List.mem_map.1 declared
    rw [startValue, variableNamed?_eq unknowns hv, Option.bind_some]
    cases he : v.start with
    | none => exact ⟨0, rfl⟩
    | some e =>
      obtain ⟨start, hstart⟩ := (exists_evaluate_eq_ok e).2 <|
        (h.starts v hv rate e he).mono fun r _ => (knownNames _).2
      exact ⟨start, mapError_eq_ok.2 hstart⟩
  · have defined := (Definitions.sorted_eq_ok ordered).2.1 n hn
    obtain ⟨value, hvalue⟩ := Option.isSome_iff_exists.1 defined
    obtain ⟨e, he, hd⟩ := mem_valueDefinitions.1 (mem_of_lookup hvalue)
    obtain ⟨code, hcode⟩ := (exists_compile_eq_ok value).2 <|
      (h.sides e he _ hd).mono fun r _ => placed _
    exact ⟨code, compile_eq_ok.2 ⟨value, hvalue, hcode⟩⟩
  · obtain ⟨value, hvalue⟩ := Option.isSome_iff_exists.1 (List.mem_filter.1 hn).2
    obtain ⟨e, he, hd⟩ := mem_rateDefinitions.1 (mem_of_lookup hvalue)
    obtain ⟨code, hcode⟩ := (exists_compile_eq_ok value).2 <|
      (h.sides e he _ hd).mono fun r _ => placed _
    exact ⟨code, compile_eq_ok.2 ⟨value, hvalue, hcode⟩⟩

end FlatModel

/-! ## The law -/

section
variable [Zero α] [Add α] [Sub α] [Mul α] [Div α] [Neg α] [Elementary α]

/-- A model with distinct names, none of which is spelled like an element of an array, compiles
exactly when its scalar form is determined. Its states and algebraic variables are then the
declared variables, each once, and there are as many equations as variables. -/
theorem compiles_iff_determined {m : FlatModel α} (distinct : m.names.Nodup)
    (apart : m.ElementsApart) (name : String) :
    ((∃ c, m.compile name = .ok c) ↔ ∃ s, m.scalarize = .ok s ∧ s.Determined) ∧
      ∀ c, m.compile name = .ok c → ∃ s, m.scalarize = .ok s ∧
        (c.stateNames ++ c.algebraicNames).Perm s.declared ∧
        s.equations.length = s.declared.length := by
  have compile_eq_ok (c : CompiledModel α) :
      m.compile name = .ok c ↔ ∃ s, m.scalarize = .ok s ∧ s.compileScalar name = .ok c := by
    unfold FlatModel.compile
    simp only [bind_eq_ok, mapError_eq_ok]
  -- Expanding arrays leaves the parameters as they are, and the names apart.
  have scalarNames (s : FlatModel α) (hs : m.scalarize = .ok s) :
      (s.parameters.map (·.name)).Nodup ∧ s.declared.Nodup := by
    obtain ⟨parameters, unknowns, _⟩ := List.nodup_append.1 distinct
    refine ⟨?_, FlatModel.declared_scalarize_nodup hs unknowns apart⟩
    obtain ⟨_, _, rfl⟩ := FlatModel.scalarize_eq_ok.1 hs
    exact parameters
  simp only [compile_eq_ok]
  refine ⟨⟨?_, ?_⟩, ?_⟩
  · rintro ⟨c, s, hs, compiled⟩
    obtain ⟨known, assembled⟩ := FlatModel.assembled_of_compileScalar compiled
    obtain ⟨parameters, unknowns⟩ := scalarNames s hs
    exact ⟨s, hs, assembled.determined parameters unknowns⟩
  · rintro ⟨s, hs, determined⟩
    obtain ⟨parameters, unknowns⟩ := scalarNames s hs
    obtain ⟨c, compiled⟩ := determined.compiles parameters unknowns name
    exact ⟨c, s, hs, compiled⟩
  · rintro c ⟨s, hs, compiled⟩
    obtain ⟨known, assembled⟩ := FlatModel.assembled_of_compileScalar compiled
    obtain ⟨_, unknowns⟩ := scalarNames s hs
    refine ⟨s, hs, ?_, FlatModel.length_equations unknowns assembled.determinate⟩
    rw [assembled.stateNames, List.perm_ext_iff_of_nodup
      (FlatModel.recorded_nodup unknowns assembled.determinate assembled.ordered) unknowns]
    exact fun _ => FlatModel.mem_recorded assembled.determinate assembled.ordered

end

theorem spring_compiles_iff_determined :
    (spring.names.Nodup ∧ spring.ElementsApart) ∧
      ((∃ c, spring.compile "Spring" = .ok c) ↔ ∃ s, spring.scalarize = .ok s ∧ s.Determined) ∧
      ∀ c, spring.compile "Spring" = .ok c → ∃ s, spring.scalarize = .ok s ∧
        (c.stateNames ++ c.algebraicNames).Perm s.declared ∧
        s.equations.length = s.declared.length := by
  have distinct : spring.names.Nodup := by decide
  have apart : spring.ElementsApart := by simp [FlatModel.ElementsApart, spring]
  exact ⟨⟨distinct, apart⟩, compiles_iff_determined distinct apart "Spring"⟩

/-- A scalar that is named like the one element of an array next to it. -/
def overlapping : FlatModel Float where
  name := "Overlapping"
  parameters := []
  unknowns := [⟨"x[1]", none, none⟩, ⟨"x", some 1, none⟩]
  equations := [⟨.ref ⟨"x", none⟩, .number 1⟩]

/-- Where a name is spelled like an element, a model may compile although two of its scalar
variables are recorded as one. -/
theorem overlapping_names_are_recorded_once :
    overlapping.names.Nodup ∧ ∃ c s, overlapping.compile "Overlapping" = .ok c ∧
      overlapping.scalarize = .ok s ∧ ¬ (c.stateNames ++ c.algebraicNames).Perm s.declared := by
  have scalar : overlapping.scalarize = .ok
      ⟨"Overlapping", [], [⟨"x[1]", none, none⟩, ⟨"x[1]", none, none⟩],
        [⟨.ref ⟨"x[1]", none⟩, .number 1⟩]⟩ := by
    with_unfolding_all rfl
  have compiled : overlapping.compile "Overlapping" = .ok
      ⟨"Overlapping", [], [⟨"x[1]", [.const 1]⟩], []⟩ := by
    with_unfolding_all rfl
  exact ⟨by decide, _, _, compiled, scalar, fun same => absurd same.length_eq (by decide)⟩

end Acausal
