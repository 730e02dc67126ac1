-- Names of components. Every class that a program finds is declared in it at some depth, so
-- what holds of the names of all components of a program holds in each class it finds.
import Acausal.Instance.Lookup

namespace Acausal

variable {α : Type}

/-! ## Names of components -/

mutual
/-- The names of the components of a class and of the classes inside it. -/
def ClassDecl.componentNames : ClassDecl α → List String
  | ⟨_, _, _, _, elements, _⟩ => ClassDecl.componentNamesAll elements

/-- The names of the components among some elements and in the classes among them. -/
def ClassDecl.componentNamesAll : List (Element α) → List String
  | [] => []
  | .inherit _ :: rest => ClassDecl.componentNamesAll rest
  | .component decl :: rest => decl.name :: ClassDecl.componentNamesAll rest
  | .nested decl :: rest => ClassDecl.componentNames decl ++ ClassDecl.componentNamesAll rest
end

namespace ClassDecl

theorem componentNames_eq (c : ClassDecl α) :
    c.componentNames = componentNamesAll c.elements := by
  cases c
  rw [componentNames]

theorem name_mem_componentNamesAll {elements : List (Element α)} {decl : Component α}
    (h : .component decl ∈ elements) : decl.name ∈ componentNamesAll elements := by
  induction elements with
  | nil => simp at h
  | cons element rest ih =>
    rcases List.mem_cons.1 h with rfl | h
    · simp [componentNamesAll]
    · have later := ih h
      cases element with
      | inherit clause => exact later
      | component other => exact List.mem_cons_of_mem _ later
      | nested inner => exact List.mem_append_right _ later

theorem nested_subset_componentNamesAll {elements : List (Element α)} {inner : ClassDecl α}
    (h : .nested inner ∈ elements) : inner.componentNames ⊆ componentNamesAll elements := by
  induction elements with
  | nil => simp at h
  | cons element rest ih =>
    intro name hname
    rcases List.mem_cons.1 h with rfl | h
    · exact List.mem_append_left _ hname
    · have later := ih h hname
      cases element with
      | inherit clause => exact later
      | component other => exact List.mem_cons_of_mem _ later
      | nested other => exact List.mem_append_right _ later

theorem nested?_subset {c inner : ClassDecl α} {name : String} (h : c.nested? name = some inner) :
    inner.componentNames ⊆ c.componentNames := by
  unfold nested? at h
  obtain ⟨element, helement, found⟩ := List.exists_of_findSome?_eq_some h
  cases element with
  | inherit clause => cases found
  | component decl => cases found
  | nested decl =>
    simp only at found
    split at found
    · cases found
      rw [c.componentNames_eq]
      exact nested_subset_componentNamesAll helement
    · cases found

theorem descend?_subset {c inner : ClassDecl α} {path : ClassPath}
    (h : c.descend? path = some inner) : inner.componentNames ⊆ c.componentNames := by
  induction path generalizing c with
  | nil =>
    cases h
    exact List.Subset.refl _
  | cons name rest ih =>
    rw [descend?, Option.bind_eq_some_iff] at h
    obtain ⟨middle, first, later⟩ := h
    exact List.Subset.trans (ih later) (nested?_subset first)

mutual
/-- Descriptions are no part of names. -/
theorem componentNames_undescribed : (c : ClassDecl α) →
    c.undescribed.componentNames = c.componentNames
  | ⟨name, kind, isPartial, _, elements, equations⟩ => by
    rw [undescribed, componentNames, componentNames]
    exact componentNamesAll_undescribed elements

theorem componentNamesAll_undescribed : (elements : List (Element α)) →
    componentNamesAll (undescribedAll elements) = componentNamesAll elements
  | [] => rfl
  | .inherit clause :: rest => by
    rw [undescribedAll, componentNamesAll, componentNamesAll]
    exact componentNamesAll_undescribed rest
  | .component decl :: rest => by
    rw [undescribedAll, componentNamesAll, componentNamesAll, componentNamesAll_undescribed rest]
  | .nested decl :: rest => by
    rw [undescribedAll, componentNamesAll, componentNamesAll, componentNames_undescribed decl,
      componentNamesAll_undescribed rest]
end

end ClassDecl

/-! ## Classes that are found -/

namespace Program

/-- The names of all components that a program declares. -/
def componentNames (p : Program α) : List String := p.classes.flatMap (·.componentNames)

theorem find?_subset {p : Program α} {path : ClassPath} {c : ClassDecl α}
    (h : p.find? path = some c) : c.componentNames ⊆ p.componentNames := by
  cases path with
  | nil => cases h
  | cons name rest =>
    rw [find?, Option.bind_eq_some_iff] at h
    obtain ⟨outer, houter, later⟩ := h
    intro n hn
    exact List.mem_flatMap.2
      ⟨outer, List.mem_of_find?_eq_some houter, ClassDecl.descend?_subset later hn⟩

theorem resolve?_subset {p : Program α} {scope name : ClassPath} {c : Located α}
    (h : p.resolve? scope name = some c) : c.decl.componentNames ⊆ p.componentNames := by
  unfold resolve? at h
  obtain ⟨outer, _, found⟩ := List.exists_of_findSome?_eq_some h
  obtain ⟨decl, hdecl, rfl⟩ := Option.map_eq_some_iff.1 found
  exact find?_subset hdecl

end Program

end Acausal
