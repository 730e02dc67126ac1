-- Which way equations are turned. The equations of a model give its definitions exactly when
-- each one defines a declared variable or its derivative, and each declared variable is defined
-- by one equation in all.
import Acausal.System.Compile
import Acausal.Proofs.Names
import Acausal.Proofs.Success

namespace Acausal

variable {α : Type} {declared : List String}

/-! ## What equations define -/

/-- The variable whose derivative or value is defined. -/
def Definition.name : Definition α → String
  | derivative name _ => name
  | algebraic name _ => name

/-- The expression by which it is defined. -/
def Definition.value : Definition α → Expr α
  | derivative _ value => value
  | algebraic _ value => value

/-- An equation that defines a declared variable or its derivative. -/
def Equation.Orientable (declared : List String) (e : Equation α) : Prop :=
  ∃ d, e.definition? declared = some d ∧ d.name ∈ declared

/-- How many equations define a variable, be it by its derivative or its value. -/
def definitionCount (declared : List String) (equations : List (Equation α)) (name : String) :
    Nat :=
  equations.countP fun e => (e.definition? declared).any (·.name == name)

/-- The rates that equations define. -/
def rateDefinitions (declared : List String) (equations : List (Equation α)) : Definitions α :=
  equations.filterMap fun e =>
    match e.definition? declared with
    | some (.derivative name value) => some (name, value)
    | _ => none

/-- The values that equations define. -/
def valueDefinitions (declared : List String) (equations : List (Equation α)) : Definitions α :=
  equations.filterMap fun e =>
    match e.definition? declared with
    | some (.algebraic name value) => some (name, value)
    | _ => none

/-- Each equation defines a declared variable or its derivative, and each declared variable is
defined by one equation in all. -/
structure Determinate (declared : List String) (equations : List (Equation α)) : Prop where
  orientable : ∀ e ∈ equations, e.Orientable declared
  once : ∀ name ∈ declared, definitionCount declared equations name = 1

section
variable {equations : List (Equation α)} {name : String}

theorem mem_rateDefinitions {value : Expr α} :
    (name, value) ∈ rateDefinitions declared equations ↔
      ∃ e ∈ equations, e.definition? declared = some (.derivative name value) := by
  unfold rateDefinitions
  rw [List.mem_filterMap]
  refine exists_congr fun e => and_congr_right fun _ => ?_
  rcases e.definition? declared with _ | ⟨n, v⟩ | ⟨n, v⟩ <;> simp

theorem mem_valueDefinitions {value : Expr α} :
    (name, value) ∈ valueDefinitions declared equations ↔
      ∃ e ∈ equations, e.definition? declared = some (.algebraic name value) := by
  unfold valueDefinitions
  rw [List.mem_filterMap]
  refine exists_congr fun e => and_congr_right fun _ => ?_
  rcases e.definition? declared with _ | ⟨n, v⟩ | ⟨n, v⟩ <;> simp

theorem rateDefinitions_cons (e : Equation α) (equations : List (Equation α)) :
    rateDefinitions declared (e :: equations) =
      rateDefinitions declared [e] ++ rateDefinitions declared equations := by
  unfold rateDefinitions
  rw [← List.filterMap_append]
  rfl

theorem valueDefinitions_cons (e : Equation α) (equations : List (Equation α)) :
    valueDefinitions declared (e :: equations) =
      valueDefinitions declared [e] ++ valueDefinitions declared equations := by
  unfold valueDefinitions
  rw [← List.filterMap_append]
  rfl

/-- Only a declared variable is given a value. -/
theorem declared_of_algebraic {e : Equation α} {value : Expr α}
    (h : e.definition? declared = some (.algebraic name value)) : name ∈ declared := by
  have side {a b : Expr α} (h : definition? declared a b = some (.algebraic name value)) :
      name ∈ declared := by
    unfold definition? at h
    split at h
    · cases h
    · split at h
      · rename_i inside
        cases h
        exact inside
      · cases h
    · cases h
  unfold Equation.definition? at h
  cases hl : definition? declared e.lhs e.rhs with
  | none =>
    rw [hl] at h
    exact side h
  | some d =>
    rw [hl] at h
    cases h
    exact side hl

/-- Every equation that defines a variable gives it a rate or a value. -/
theorem definitionCount_eq (declared : List String) (equations : List (Equation α))
    (name : String) :
    definitionCount declared equations name =
      ((rateDefinitions declared equations).map (·.1)).count name +
        ((valueDefinitions declared equations).map (·.1)).count name := by
  induction equations with
  | nil => rfl
  | cons e equations ih =>
    unfold definitionCount rateDefinitions valueDefinitions at ih ⊢
    rw [List.countP_cons, ih, List.filterMap_cons, List.filterMap_cons]
    rcases e.definition? declared with _ | ⟨n, v⟩ | ⟨n, v⟩
    · simp
    · by_cases h : n = name <;> simp [Definition.name, h]
      omega
    · by_cases h : n = name <;> simp [Definition.name, h]
      omega

end

namespace Determinate

variable {equations : List (Equation α)} {name : String}

theorem count_le_one (h : Determinate declared equations) (name : String) :
    definitionCount declared equations name ≤ 1 := by
  by_cases hname : name ∈ declared
  · exact Nat.le_of_eq (h.once name hname)
  · -- A name that is not declared is not defined at all.
    have none : definitionCount declared equations name = 0 := by
      unfold definitionCount
      rw [List.countP_eq_zero]
      intro e he
      obtain ⟨d, hd, inside⟩ := h.orientable e he
      rw [hd, Option.any_some, beq_iff_eq]
      exact fun same => hname (same ▸ inside)
    omega

theorem rates_distinct (h : Determinate declared equations) :
    ((rateDefinitions declared equations).map (·.1)).Nodup := by
  rw [List.nodup_iff_count_le_one]
  intro name
  have := h.count_le_one name
  rw [definitionCount_eq] at this
  omega

theorem values_distinct (h : Determinate declared equations) :
    ((valueDefinitions declared equations).map (·.1)).Nodup := by
  rw [List.nodup_iff_count_le_one]
  intro name
  have := h.count_le_one name
  rw [definitionCount_eq] at this
  omega

/-- A declared variable has either a rate or a value. -/
theorem rate_xor_value (h : Determinate declared equations) (hname : name ∈ declared) :
    (rateDefinitions declared equations).defines name ≠
      (valueDefinitions declared equations).defines name := by
  have exactly := h.once name hname
  rw [definitionCount_eq] at exactly
  rw [ne_eq, Bool.eq_iff_iff, Definitions.defines, Definitions.defines, lookup_isSome_iff_mem,
    lookup_isSome_iff_mem, ← List.count_pos_iff, ← List.count_pos_iff]
  omega

theorem declared_of_rate (h : Determinate declared equations)
    (defined : (rateDefinitions declared equations).defines name) : name ∈ declared := by
  obtain ⟨value, hvalue⟩ := Option.isSome_iff_exists.1 defined
  obtain ⟨e, he, hd⟩ := mem_rateDefinitions.1 (mem_of_lookup hvalue)
  obtain ⟨d, hd', inside⟩ := h.orientable e he
  rw [hd] at hd'
  cases hd'
  exact inside

end Determinate

/-- Where every equation defines something, there are as many definitions as equations. -/
theorem length_definitions {equations : List (Equation α)}
    (orientable : ∀ e ∈ equations, e.Orientable declared) :
    (rateDefinitions declared equations).length + (valueDefinitions declared equations).length =
      equations.length := by
  induction equations with
  | nil => rfl
  | cons e equations ih =>
    rw [List.forall_mem_cons] at orientable
    obtain ⟨⟨d, hd, _⟩, later⟩ := orientable
    have ih := ih later
    unfold rateDefinitions valueDefinitions at ih ⊢
    rw [List.filterMap_cons, List.filterMap_cons, List.length_cons, hd]
    cases d with
    | derivative name value =>
      simp only [List.length_cons]
      omega
    | algebraic name value =>
      simp only [List.length_cons]
      omega

theorem declared_of_value {equations : List (Equation α)} {name : String}
    (defined : (valueDefinitions declared equations).defines name) : name ∈ declared := by
  obtain ⟨value, hvalue⟩ := Option.isSome_iff_exists.1 defined
  obtain ⟨e, he, hd⟩ := mem_valueDefinitions.1 (mem_of_lookup hvalue)
  exact declared_of_algebraic hd


/-! ## Orientation -/

namespace Causality

variable {c c' : Causality α} {e : Equation α} {equations : List (Equation α)}

/-- The definitions of one more equation. -/
theorem add_eq_ok :
    c.add declared e = .ok c' ↔
      e.Orientable declared ∧
        (∀ n ∈ (rateDefinitions declared [e]).map (·.1), n ∉ c.derivatives.map (·.1)) ∧
        (∀ n ∈ (valueDefinitions declared [e]).map (·.1), n ∉ c.algebraics.map (·.1)) ∧
        c' = ⟨c.derivatives ++ rateDefinitions declared [e],
          c.algebraics ++ valueDefinitions declared [e]⟩ := by
  unfold add Equation.Orientable rateDefinitions valueDefinitions
  rcases hd : e.definition? declared with _ | ⟨name, value⟩ | ⟨name, value⟩
  · simp
  · simp only [Option.some.injEq, exists_eq_left', Definition.name]
    by_cases inside : name ∈ declared
    · rw [if_neg (not_not_intro inside)]
      by_cases twice : c.derivatives.defines name
      · rw [if_pos twice]
        simpa [hd, inside] using fun h => absurd (lookup_isSome_iff_mem.1 twice) (by simpa using h)
      · rw [if_neg twice]
        have new : name ∉ c.derivatives.map (·.1) := fun h => twice (lookup_isSome_iff_mem.2 h)
        simp only [List.filterMap_cons, hd, List.filterMap_nil, List.map_cons, List.map_nil,
          List.mem_singleton, forall_eq, List.append_nil, inside, new, true_and]
        simpa using eq_comm
    · simp [inside]
  · have inside := declared_of_algebraic hd
    simp only [Option.some.injEq, exists_eq_left', Definition.name]
    by_cases twice : c.algebraics.defines name
    · rw [if_pos twice]
      simpa [hd, inside] using fun h => absurd (lookup_isSome_iff_mem.1 twice) (by simpa using h)
    · rw [if_neg twice]
      have new : name ∉ c.algebraics.map (·.1) := fun h => twice (lookup_isSome_iff_mem.2 h)
      simp only [List.filterMap_cons, hd, List.filterMap_nil, List.map_cons, List.map_nil,
        List.mem_singleton, forall_eq, List.append_nil, inside, new, true_and]
      simpa using eq_comm

theorem foldlM_add_eq_ok (rates : (c.derivatives.map (·.1)).Nodup)
    (values : (c.algebraics.map (·.1)).Nodup) :
    equations.foldlM (add declared) c = .ok c' ↔
      c' = ⟨c.derivatives ++ rateDefinitions declared equations,
        c.algebraics ++ valueDefinitions declared equations⟩ ∧
        (∀ e ∈ equations, e.Orientable declared) ∧
        (c'.derivatives.map (·.1)).Nodup ∧ (c'.algebraics.map (·.1)).Nodup := by
  induction equations generalizing c with
  | nil =>
    rw [List.foldlM_nil, pure_eq_ok]
    constructor
    · rintro rfl
      exact ⟨by simp [rateDefinitions, valueDefinitions], by simp, rates, values⟩
    · rintro ⟨rfl, _⟩
      simp [rateDefinitions, valueDefinitions]
  | cons e equations ih =>
    -- One equation defines at most one name of each kind.
    have single : ((rateDefinitions declared [e]).map (·.1)).Nodup ∧
        ((valueDefinitions declared [e]).map (·.1)).Nodup := by
      unfold rateDefinitions valueDefinitions
      rcases hd : e.definition? declared with _ | ⟨n, v⟩ | ⟨n, v⟩ <;> simp [hd]
    rw [List.foldlM_cons, bind_eq_ok, rateDefinitions_cons, valueDefinitions_cons,
      ← List.append_assoc, ← List.append_assoc, List.forall_mem_cons]
    constructor
    · rintro ⟨middle, first, rest⟩
      obtain ⟨orientable, newRate, newValue, rfl⟩ := add_eq_ok.1 first
      rw [ih] at rest
      · obtain ⟨rfl, later⟩ := rest
        exact ⟨rfl, ⟨orientable, later.1⟩, later.2⟩
      · rw [List.map_append, List.nodup_append]
        exact ⟨rates, single.1, fun n hn n' hn' same => newRate n' hn' (same ▸ hn)⟩
      · rw [List.map_append, List.nodup_append]
        exact ⟨values, single.2, fun n hn n' hn' same => newValue n' hn' (same ▸ hn)⟩
    · rintro ⟨rfl, ⟨orientable, later⟩, once⟩
      have rates' := (List.nodup_append.1 (List.map_append ▸ once.1)).1
      have values' := (List.nodup_append.1 (List.map_append ▸ once.2)).1
      refine ⟨_, add_eq_ok.2 ⟨orientable, fun n hn hn' => ?_, fun n hn hn' => ?_, rfl⟩,
        (ih rates' values').2 ⟨rfl, later, once⟩⟩
      · rw [List.map_append, List.nodup_append] at rates'
        exact rates'.2.2 n hn' n hn rfl
      · rw [List.map_append, List.nodup_append] at values'
        exact values'.2.2 n hn' n hn rfl

theorem checkDetermined_eq_ok {name : String} :
    c.checkDetermined name = .ok () ↔ c.derivatives.defines name ≠ c.algebraics.defines name := by
  unfold checkDetermined
  cases c.derivatives.defines name <;> cases c.algebraics.defines name <;> simp

/-- The definitions of a model are found exactly when its equations are determinate. -/
theorem ofEquations_eq_ok :
    ofEquations declared equations = .ok c ↔
      c = ⟨rateDefinitions declared equations, valueDefinitions declared equations⟩ ∧
        Determinate declared equations := by
  unfold ofEquations
  simp only [bind_eq_ok, pure_eq_ok]
  constructor
  · rintro ⟨_, folded, _, checked, rfl⟩
    rw [foldlM_add_eq_ok (by simp) (by simp)] at folded
    obtain ⟨rfl, orientable, rates, values⟩ := folded
    refine ⟨by simp, orientable, fun name hname => ?_⟩
    have oneWay := checkDetermined_eq_ok.1 (forM_eq_ok.1 checked name hname)
    simp only [List.nil_append] at rates values oneWay
    rw [definitionCount_eq, rates.count, values.count]
    rw [ne_eq, Bool.eq_iff_iff, Definitions.defines, Definitions.defines, lookup_isSome_iff_mem,
      lookup_isSome_iff_mem] at oneWay
    split <;> split <;> simp_all
  · rintro ⟨rfl, determinate⟩
    refine ⟨_, (foldlM_add_eq_ok (by simp) (by simp)).2 ⟨rfl, determinate.orientable, ?_, ?_⟩,
      (), ?_, by simp⟩
    · exact determinate.rates_distinct
    · exact determinate.values_distinct
    · exact forM_eq_ok.2 fun name hname =>
        checkDetermined_eq_ok.2 (determinate.rate_xor_value hname)

end Causality

end Acausal
