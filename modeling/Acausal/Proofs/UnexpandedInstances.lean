-- Instances before their arrays are expanded. A layout keeps what each of its steps keeps, so the
-- names that an instance declares are distinct whatever the program is, and no step of it fails for
-- the shapes of arrays. So the only arrays that cannot be expanded are those of different sizes.
import Acausal.Proofs.CompilationErrors
import Acausal.Proofs.LayoutSteps

namespace Acausal

variable {α : Type}

/-! ## Layouts -/

namespace Instance

/-- The names declared stay distinct. -/
theorem stable_distinct : Stable fun i : Instance α => i.model.names.Nodup where
  addClass _ _ distinct := distinct
  addCalls _ _ distinct := distinct
  addEquation _ _ distinct := distinct
  declare i name decl m i' distinct h := by
    have more {names : List String} (same : names.Perm (name :: i.model.names))
        (new : name ∉ i.model.names) : names.Nodup :=
      same.nodup_iff.2 (List.nodup_cons.2 ⟨new, distinct⟩)
    obtain ⟨fresh, declared⟩ := declare_eq_ok.1 h
    have new : name ∉ i.model.names := by
      rw [← FlatModel.declared?_isSome_iff, fresh]
      simp
    rcases declared with ⟨-, added⟩ | ⟨-, -, value, -, rfl⟩
    · have one (start : Option (Expr α)) :
          (i.addVariable ⟨name, decl.size, start⟩).model.names.Perm (name :: i.model.names) := by
        simp only [addVariable, FlatModel.names, FlatModel.declared, List.map_append,
          List.map_cons, List.map_nil, ← List.append_assoc]
        exact List.perm_append_singleton _ _
      rcases added with ⟨-, rfl⟩ | ⟨value, -, rfl⟩
      · exact more (one _) new
      · exact more (one _) new
    · refine more ?_ new
      simp only [addParameter, FlatModel.names, FlatModel.declared, List.map_append,
        List.map_cons, List.map_nil, List.append_assoc, List.singleton_append]
      exact List.perm_middle

/-- No layout fails for the shapes of arrays. -/
theorem layout_ne_shape {p : Program α} (free : List ClassPath) {c : Located α} {stem : String}
    {m : Modification α} {i : Instance α} (cause : ShapeError α) :
    layout p free c stem m i ≠ .error (.shape cause) := by
  induction hn : free.length using Nat.strongRecOn generalizing free c stem m i with
  | ind n ih =>
    intro h
    obtain ⟨-, same⟩ | ⟨entered, ⟨_, _, _, _, -, -, fails⟩ | ⟨_, same⟩⟩ := layout_error h
    · cases same
    · cases fails with
      | inBase _ _ fails => exact ih _ (hn ▸ length_without_lt entered) _ rfl fails
    · cases same

end Instance

/-! ## Instances -/

/-- An instance with its model in scalar form. -/
def Instance.expanded (i : Instance α) : Except (InstanceError α) (Instance α) :=
  match i.model.scalarize with
  | .error e => .error (.shape e)
  | .ok model => .ok { i with model }

theorem Instance.expanded_cases (i : Instance α) :
    (∃ cause, i.model.scalarize = .error cause ∧ i.expanded = .error (.shape cause)) ∨
      ∃ model, i.model.scalarize = .ok model ∧ i.expanded = .ok { i with model } := by
  unfold expanded
  cases i.model.scalarize with
  | error cause => exact .inl ⟨cause, rfl, rfl⟩
  | ok model => exact .inr ⟨model, rfl, rfl⟩

namespace Program

variable {p : Program α} {name : String}

/-- On request an instance is expanded once it is there. -/
theorem instantiate_true (p : Program α) (name : String) :
    p.instantiate name true = p.instantiate name false >>= Instance.expanded := by
  unfold instantiate
  cases p.find? (segments name) with
  | none => rfl
  | some decl =>
    dsimp only
    split
    · rfl
    · split
      · rfl
      · cases Instance.layout p p.paths ⟨segments name, decl⟩ "" .none (.empty name) with
        | error e => rfl
        | ok i =>
          change (i.model.checkReferences >>= _) = ((i.model.checkReferences >>= _) >>= _)
          cases i.model.checkReferences with
          | error e => rfl
          | ok _ => rfl

/-- Where no expansion is asked for, no instance fails for the shapes of arrays. -/
theorem instantiate_false_ne_shape (p : Program α) (name : String) (cause : ShapeError α) :
    p.instantiate name false ≠ .error (.shape cause) := by
  intro h
  obtain (same | same | same) | ⟨_, -, failed⟩ | ⟨_, same | ⟨_, same | same⟩⟩ | ⟨same, -⟩ :=
    instantiate_error h
  case inr.inl => exact Instance.layout_ne_shape _ cause failed
  all_goals cases same

/-- An instance before its expansion is closed, and its names are distinct. -/
theorem closed_of_instantiate {i : Instance α} (h : p.instantiate name false = .ok i) :
    i.model.Closed ∧ i.model.names.Nodup := by
  obtain ⟨decl, j, -, -, -, laid, checked, ⟨-, rfl⟩ | ⟨true, -⟩⟩ := instantiate_eq_ok.1 h
  · refine ⟨FlatModel.closed_of_checkReferences checked, ?_⟩
    refine Instance.stable_distinct.layout ?_ laid
    simp [Instance.empty, FlatModel.names, FlatModel.declared]
  · cases true

/-- The only arrays that keep an instance from being expanded are two of different sizes. -/
theorem sizes_of_instantiate {cause : ShapeError α}
    (h : p.instantiate name true = .error (.shape cause)) :
    ∃ first other e, first ≠ other ∧ cause = .sizes first other e := by
  rw [instantiate_true] at h
  rcases bind_eq_error.1 h with unexpanded | ⟨i, made, fails⟩
  · exact absurd unexpanded (p.instantiate_false_ne_shape name cause)
  · obtain ⟨closed, distinct⟩ := closed_of_instantiate made
    rcases i.expanded_cases with ⟨_, expansion, unexpanded⟩ | ⟨_, -, expanded⟩
    · cases unexpanded.symm.trans fails
      obtain ⟨e, -, first, -, other, -, differ, same⟩ :=
        closed.scalarize_error (List.nodup_append.1 distinct).2.1 expansion
      exact ⟨first, other, e, differ, same⟩
    · cases expanded.symm.trans fails

end Program

end Acausal
