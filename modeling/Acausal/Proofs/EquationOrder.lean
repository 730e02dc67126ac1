-- The order of equations. The definitions that equations give are found by name, so the order in
-- which the equations stand is nowhere to be seen in a compiled model: with its equations in
-- another order, arrays and all, a model compiles to the very same thing or to nothing as before.
import Acausal.Proofs.CompiledModels
import Acausal.Proofs.DefinitionOrder

namespace Acausal

variable {α β : Type}

/-! ## Lists in another order -/

/-- What is stored under distinct names is found in every order of them. -/
theorem lookup_eq_of_perm {l l' : List (String × β)} (same : l.Perm l')
    (distinct : (l.map (·.1)).Nodup) (name : String) : l.lookup name = l'.lookup name := by
  have distinct' : (l'.map (·.1)).Nodup := (same.map _).nodup_iff.1 distinct
  apply Option.ext
  intro v
  constructor
  · intro found
    exact lookup_of_mem distinct' (same.mem_iff.1 (mem_of_lookup found))
  · intro found
    exact lookup_of_mem distinct (same.mem_iff.2 (mem_of_lookup found))

/-- A list whose items are paired with others can take another order, and the others with it. -/
theorem exists_forall₂_of_perm {γ δ : Type} {R : γ → δ → Prop} {l l' : List γ} {out : List δ}
    (same : l.Perm l') (h : List.Forall₂ R l out) :
    ∃ out', List.Forall₂ R l' out' ∧ out.Perm out' := by
  have both : Relation.Comp List.Perm (List.Forall₂ R) l' out := ⟨l, same.symm, h⟩
  rw [← List.forall₂_comp_perm_eq_perm_comp_forall₂] at both
  obtain ⟨out', paired, back⟩ := both
  exact ⟨out', paired, back.symm⟩

/-! ## Definitions in another order -/

namespace Definitions

variable {d d' : Definitions α}

/-- Definitions under which the same expression is found for every name. -/
def Alike (d d' : Definitions α) : Prop := ∀ name, d.lookup name = d'.lookup name

theorem Alike.defines (h : d.Alike d') : d.defines = d'.defines := by
  funext name
  unfold Definitions.defines
  rw [h name]

theorem Alike.reads (h : d.Alike d') (name : String) : d.reads name = d'.reads name := by
  unfold Definitions.reads
  rw [h name, h.defines]

theorem Alike.acyclic_iff (h : d.Alike d') : d.Acyclic ↔ d'.Acyclic := by
  have same : d.Reads = d'.Reads := by
    funext name read
    unfold Reads
    rw [h.reads name]
  unfold Acyclic
  rw [same]

theorem Alike.compile (h : d.Alike d') (slot? : String → Option Nat) (known : Valuation α) :
    d.compile slot? known = d'.compile slot? known := by
  funext name
  unfold Definitions.compile
  rw [h name]

/-- A visit asks of the free names only whether a name is one of them. -/
theorem Alike.visit (h : d.Alike d') {free free' path order : List String} {name : String}
    (same : ∀ n, n ∈ free ↔ n ∈ free') :
    d.visit free path order name = d'.visit free' path order name := by
  induction free, path, order, name using visit.induct d generalizing free' with
  | case1 free path order name seen =>
    rw [Definitions.visit, Definitions.visit, if_pos seen, if_pos seen]
  | case2 free path order name new isFree ih =>
    have fewer : ∀ n, n ∈ without name free ↔ n ∈ without name free' := by
      intro n
      rw [mem_without, mem_without, same n]
    have inner : d.visit (without name free) (path ++ [name]) =
        d'.visit (without name free') (path ++ [name]) := by
      funext order' name'
      exact ih order' name' fewer
    rw [visit_free new isFree, visit_free new ((same name).1 isFree), inner, h.reads name]
  | case3 free path order name new taken =>
    have taken' : name ∉ free' := fun inside => taken ((same name).2 inside)
    rw [Definitions.visit, Definitions.visit, if_neg new, if_neg new, dif_neg taken,
      dif_neg taken']

theorem Alike.sorted (h : d.Alike d') (declared : List String) :
    d.sorted declared = d'.sorted declared := by
  have named : ∀ n, n ∈ d.map (·.1) ↔ n ∈ d'.map (·.1) := by
    intro n
    rw [← defines_iff, ← defines_iff, h.defines]
  have visits : d.visit (d.map (·.1)) [] = d'.visit (d'.map (·.1)) [] := by
    funext order name
    exact h.visit named
  unfold Definitions.sorted
  rw [visits, h.defines]

end Definitions

/-! ## Equations in another order -/

section
variable {declared : List String} {equations equations' : List (Equation α)}

/-- Equations are determinate in every order. -/
theorem Determinate.of_perm (h : Determinate declared equations)
    (same : equations.Perm equations') : Determinate declared equations' where
  orientable e he := h.orientable e (same.mem_iff.2 he)
  once name hname := by
    unfold definitionCount
    rw [← same.countP_eq]
    exact h.once name hname

theorem Determinate.rates_alike (h : Determinate declared equations)
    (same : equations.Perm equations') :
    (rateDefinitions declared equations).Alike (rateDefinitions declared equations') :=
  lookup_eq_of_perm (same.filterMap _) h.rates_distinct

theorem Determinate.values_alike (h : Determinate declared equations)
    (same : equations.Perm equations') :
    (valueDefinitions declared equations).Alike (valueDefinitions declared equations') :=
  lookup_eq_of_perm (same.filterMap _) h.values_distinct

end

namespace FlatModel

variable {m s : FlatModel α} {equations : List (Equation α)}

/-- With its equations in another order, a model has a scalar form with its equations in another
order. -/
theorem scalarize_of_perm (same : m.equations.Perm equations) (h : m.scalarize = .ok s) :
    ∃ scalars, ({ m with equations } : FlatModel α).scalarize =
      .ok { s with equations := scalars } ∧ s.equations.Perm scalars := by
  obtain ⟨groups, made, rfl⟩ := scalarize_eq_ok.1 h
  obtain ⟨groups', made', reordered⟩ := exists_forall₂_of_perm same made
  refine ⟨groups'.flatten, ?_, reordered.flatten⟩
  rw [scalarize_eq_ok]
  exact ⟨groups', made', rfl⟩

section
variable [Zero α] [Add α] [Sub α] [Mul α] [Div α] [Neg α] [Elementary α] {name : String}
  {c : CompiledModel α}

theorem compileScalar_of_perm (same : m.equations.Perm equations)
    (h : m.compileScalar name = .ok c) :
    ({ m with equations } : FlatModel α).compileScalar name = .ok c := by
  obtain ⟨known, evaluated, determinate, order, ordered, rest⟩ := compileScalar_eq_ok.1 h
  have rates : m.rates.Alike ({ m with equations } : FlatModel α).rates :=
    determinate.rates_alike same
  have values : m.values.Alike ({ m with equations } : FlatModel α).values :=
    determinate.values_alike same
  have states : m.stateNames = ({ m with equations } : FlatModel α).stateNames := by
    unfold stateNames
    rw [rates.defines]
    rfl
  rw [values.sorted] at ordered
  rw [states, funext₂ rates.compile, funext₂ values.compile] at rest
  rw [compileScalar_eq_ok]
  exact ⟨known, evaluated, determinate.of_perm same, order, ordered, rest⟩

theorem compile_of_perm (same : m.equations.Perm equations) (h : m.compile name = .ok c) :
    ({ m with equations } : FlatModel α).compile name = .ok c := by
  unfold compile at h ⊢
  rw [bind_eq_ok] at h ⊢
  obtain ⟨s, expanded, compiled⟩ := h
  obtain ⟨scalars, expanded', same'⟩ := scalarize_of_perm same (mapError_eq_ok.1 expanded)
  exact ⟨_, mapError_eq_ok.2 expanded', compileScalar_of_perm same' compiled⟩

/-- A model with its equations in another order compiles to the same model, or neither
compiles. -/
theorem equation_order_is_immaterial (same : m.equations.Perm equations) (name : String) :
    (m.compile name).toOption = (({ m with equations } : FlatModel α).compile name).toOption := by
  apply Option.ext
  intro c
  rw [toOption_eq_some, toOption_eq_some]
  constructor
  · exact compile_of_perm same
  · intro h
    exact compile_of_perm (m := { m with equations }) same.symm h

end

/-- Two weights on springs, as arrays, and the sum of the forces that pull them back. -/
def weights : FlatModel Float where
  name := "Weights"
  parameters := [⟨"k", .number 2, false⟩]
  unknowns := [⟨"x", some 2, some (.number 1)⟩, ⟨"f", some 2, none⟩, ⟨"sum", none, none⟩]
  equations :=
    [⟨.ref ⟨"sum", none⟩, .binary (.ref ⟨"f", some 1⟩) .add (.ref ⟨"f", some 2⟩)⟩,
      ⟨.der ⟨"x", none⟩, .ref ⟨"f", none⟩⟩,
      ⟨.neg (.binary (.ref ⟨"k", none⟩) .mul (.ref ⟨"x", none⟩)), .ref ⟨"f", none⟩⟩]

/-- The equations of the weights may as well be read backwards. -/
theorem weights_compile_in_any_order :
    weights.equations.Perm weights.equations.reverse ∧
      (weights.compile "Weights").toOption =
        (({ weights with equations := weights.equations.reverse } :
          FlatModel Float).compile "Weights").toOption ∧
      (weights.compile "Weights").toOption.isSome = true := by
  have same : weights.equations.Perm weights.equations.reverse :=
    (List.reverse_perm weights.equations).symm
  exact ⟨same, equation_order_is_immaterial same "Weights", by with_unfolding_all rfl⟩

end FlatModel

end Acausal
