-- Expanding arrays more than once. The scalar form of a model has no array and no subscript left,
-- so it is its own scalar form, and it makes no difference to the compiled model whether arrays
-- are expanded before the compilation or in the course of it.
import Acausal.Proofs.ClosedModels
import Acausal.System.Compile

namespace Acausal

variable {α : Type}

/-- Where every reference stands for itself, an expression stays as it is. -/
theorem Expr.mapRefs_self {ε : Type} {f : Ref → Except ε Ref} {e : Expr α}
    (h : ∀ r ∈ e.refs, f r = .ok r) : e.mapRefs f = .ok e := by
  induction e with
  | number value => rfl
  | time => rfl
  | ref r =>
    rw [mapRefs, h r (by simp [refs])]
    rfl
  | der r =>
    rw [mapRefs, h r (by simp [refs])]
    rfl
  | neg operand ih =>
    rw [mapRefs, ih h]
    rfl
  | binary lhs op rhs ihl ihr =>
    rw [mapRefs, ihl fun r hr => h r (by simp [refs, hr]),
      ihr fun r hr => h r (by simp [refs, hr])]
    rfl
  | call function args ih =>
    have same : mapRefsAll f args = .ok args := by
      rw [mapRefsAll_eq_ok, List.forall₂_same]
      intro arg harg
      refine ih arg harg fun r hr => h r ?_
      rw [refs, mem_refsAll]
      exact ⟨arg, harg, hr⟩
    rw [mapRefs, same]
    rfl

namespace FlatModel

variable {m s : FlatModel α}

/-! ## Models without arrays -/

/-- No array is declared, and no equation reads an element of one. -/
structure Plain (m : FlatModel α) : Prop where
  sizes : ∀ v ∈ m.unknowns, v.size = none
  unsubscripted : ∀ e ∈ m.equations, ∀ r ∈ e.lhs.refs ++ e.rhs.refs, r.index = none

/-- What stands for a reference has no subscript. -/
theorem index_of_scalarRef {size? : String → Option Nat} {element : Option Nat} {r r' : Ref}
    (h : (scalarRef size? element r : Except (ShapeError α) Ref) = .ok r') : r'.index = none := by
  unfold scalarRef at h
  split at h
  · split at h
    · cases h
    · cases h
      rfl
  · cases h
  · cases h
    rfl
  · cases h
    rfl

/-- The scalar form of a model is plain. -/
theorem plain_of_scalarize (h : m.scalarize = .ok s) : s.Plain := by
  refine ⟨scalarize_sizes h, fun e' he' r' hr' => ?_⟩
  obtain ⟨groups, made, rfl⟩ := scalarize_eq_ok.1 h
  obtain ⟨es, hes, inside⟩ := List.mem_flatten.1 he'
  obtain ⟨e, -, hgroup⟩ := exists_of_forall₂_right made es hes
  obtain ⟨element, hscalar, -⟩ := mem_scalarEquations hgroup inside
  obtain ⟨_, rfl, left, right⟩ := scalarEquation_eq_ok.1 hscalar
  obtain ⟨r, -, made⟩ := exists_of_forall₂_right
    (List.rel_append (Expr.refs_mapRefs left) (Expr.refs_mapRefs right)) r' hr'
  exact index_of_scalarRef made

/-- A plain model is its own scalar form. -/
theorem Plain.scalarize_eq (h : m.Plain) : m.scalarize = .ok m := by
  have size (name : String) : m.arraySize? name = none := by
    cases found : m.arraySize? name with
    | none => rfl
    | some n =>
      obtain ⟨v, hv, -, size⟩ := exists_of_arraySize? found
      rw [h.sizes v hv] at size
      cases size
  have unknowns : m.unknowns.flatMap scalarVariables = m.unknowns := by
    have alone : ∀ v ∈ m.unknowns, scalarVariables v = [v] := by
      intro v hv
      unfold scalarVariables
      rw [h.sizes v hv]
    rw [List.flatMap_congr alone, List.flatMap_singleton']
  have equation : ∀ e ∈ m.equations, scalarEquations m.arraySize? e = .ok [e] := by
    intro e he
    have self : ∀ r ∈ e.lhs.refs ++ e.rhs.refs,
        (scalarRef m.arraySize? none r : Except (ShapeError α) Ref) = .ok r := by
      intro r hr
      have index := h.unsubscripted e he r hr
      unfold scalarRef
      rw [index, size]
      cases r
      cases index
      rfl
    have width : wholeSizes m.arraySize? e = [] := by
      unfold wholeSizes
      rw [List.filterMap_eq_nil_iff]
      intro r _
      cases r.index with
      | none => exact size r.name
      | some i => rfl
    have left := Expr.mapRefs_self fun r hr => self r (List.mem_append_left _ hr)
    have right := Expr.mapRefs_self fun r hr => self r (List.mem_append_right _ hr)
    unfold scalarEquations width? scalarEquation
    rw [width, left, right]
    rfl
  refine scalarize_eq_ok.2 ⟨m.equations.map fun e => [e], ?_, ?_⟩
  · rw [List.forall₂_map_right_iff, List.forall₂_same]
    exact equation
  · rw [unknowns, ← List.flatMap_def, List.flatMap_singleton']

/-- Expanding the arrays of a scalar form changes nothing. -/
theorem scalarize_scalarize (h : m.scalarize = .ok s) : s.scalarize = .ok s :=
  (plain_of_scalarize h).scalarize_eq

section
variable [Zero α] [Add α] [Sub α] [Mul α] [Div α] [Neg α] [Elementary α]

/-- A model compiles like its scalar form. -/
theorem compile_scalarize (h : m.scalarize = .ok s) (name : String) :
    s.compile name = m.compile name := by
  unfold compile
  rw [h, scalarize_scalarize h]

end

end FlatModel

end Acausal
