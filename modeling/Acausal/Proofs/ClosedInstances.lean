-- Instances of the classes of a parsed program. Their flat models declare each name once, refer
-- to nothing they do not declare, and call builtins only, all of them recorded; expanding the
-- arrays keeps this because no identifier is spelled like an element of an array.
import Acausal.Proofs.ClosedModels
import Acausal.Proofs.LayoutSteps
import Acausal.Proofs.ParsedClasses

namespace Acausal

variable {α : Type}

/-! ## Names without brackets -/

theorem IsWord.bracketFree {w : String} (h : IsWord w) : BracketFree w :=
  h.not_mem (by decide)

theorem not_bracketFree_elementName (name : String) (i : Nat) :
    ¬ BracketFree (FlatModel.elementName name i) := by
  unfold BracketFree
  rw [FlatModel.elementName_toList]
  simp

namespace FlatModel

variable {m : FlatModel α}

theorem elementsUnnamed_of_bracketFree (free : ∀ name ∈ m.names, BracketFree name) :
    m.ElementsUnnamed := by
  intro e _ named
  exact not_bracketFree_elementName e.1 e.2 (free _ named)

end FlatModel

/-! ## Instances -/

/-- Before its arrays are expanded an instance of a class of a parsed program is sound and
closed. -/
theorem Program.Parsed.exists_unexpanded {p : Program Float} (parsed : p.Parsed) {name : String}
    {scalar : Bool} {i : Instance Float} (h : p.instantiate name scalar = .ok i) :
    ∃ j, p.instantiate name false = .ok j ∧ j.Sound ∧ j.model.Closed ∧
      (i = j ∨ j.model.scalarize = .ok i.model) := by
  have wellNamed : ∀ n ∈ p.componentNames, BracketFree n :=
    fun n hn => (parsed.isWord n hn).bracketFree
  obtain ⟨decl, j, found, whole, kind, laid, checked, expanded⟩ := Program.instantiate_eq_ok.1 h
  have grown : Instance.Grown (.empty name) j :=
    Instance.layout_grows wellNamed p.paths
      (fun n hn => wellNamed n (Program.find?_subset found hn)) (by simp [BracketFree])
      (Instance.sound_empty name)
      (by simp [Instance.Recorded, Modification.values, Modification.none]) laid
  refine ⟨j, ?_, grown.sound, FlatModel.closed_of_checkReferences checked, ?_⟩
  · exact Program.instantiate_eq_ok.2
      ⟨decl, j, found, whole, kind, laid, checked, .inl ⟨rfl, rfl⟩⟩
  · rcases expanded with ⟨-, rfl⟩ | ⟨-, model, expanded, rfl⟩
    · exact .inl rfl
    · exact .inr expanded

/-- What an instance of a class is, in scalar form or not. -/
structure Instance.WellFormed (scalar : Bool) (i : Instance α) : Prop where
  distinct : i.model.names.Nodup
  closed : scalar = false → i.model.Closed
  sizes : scalar = true → ∀ v ∈ i.model.unknowns, v.size = none
  scalars : scalar = true → ∀ e ∈ i.model.equations, ∀ r ∈ e.lhs.refs ++ e.rhs.refs,
    r.index = none ∧ r.name ∈ i.model.names
  recorded : ∀ e ∈ i.model.expressions, i.cache.Covers e

/-- Every instance of a class of a parsed program is closed and well formed. -/
theorem instances_are_closed {p : Program Float} (parsed : p.Parsed) {name : String}
    {scalar : Bool} {i : Instance Float} (h : p.instantiate name scalar = .ok i) :
    i.WellFormed scalar := by
  have wellNamed : ∀ name ∈ p.componentNames, BracketFree name :=
    fun name hname => (parsed.isWord name hname).bracketFree
  unfold Program.instantiate at h
  split at h
  · contradiction
  · next decl found =>
    split at h
    · contradiction
    · split at h
      · contradiction
      · rw [bind_eq_ok] at h
        obtain ⟨flat, laid, h⟩ := h
        rw [bind_eq_ok] at h
        obtain ⟨_, checked, h⟩ := h
        have grown : Instance.Grown (.empty name) flat :=
          Instance.layout_grows wellNamed p.paths
            (fun n hn => wellNamed n (Program.find?_subset found hn)) (by simp [BracketFree])
            (Instance.sound_empty name)
            (by simp [Instance.Recorded, Modification.values, Modification.none]) laid
        have sound := grown.sound
        have closed := FlatModel.closed_of_checkReferences checked
        have declared := (List.nodup_append.mp sound.distinct).2.1
        cases scalar with
        | false =>
          cases pure_eq_ok.1 h
          exact ⟨sound.distinct, fun _ => closed, by simp, by simp, sound.covered⟩
        | true =>
          simp only [if_true] at h
          split at h
          · contradiction
          · next model expanded =>
            cases pure_eq_ok.1 h
            exact ⟨FlatModel.scalarize_names_nodup expanded sound.distinct
                (FlatModel.elementsUnnamed_of_bracketFree sound.bracketFree),
              by simp, fun _ => FlatModel.scalarize_sizes expanded,
              fun _ => FlatModel.scalarize_refs expanded declared closed,
              FlatModel.scalarize_covered expanded sound.covered⟩

/-- Two masses on springs, given as an array. -/
def massesText : String :=
  "model Masses parameter Real k = 2.0; Real x[2](start = 1.0); Real v[2];" ++
    " equation der(x) = v; der(v) = -k * sin(x); end Masses;"

theorem masses_are_closed :
    ∃ file i, parseSource "Masses.mo" massesText = .ok file ∧
      (Program.ofSource file).instantiate "Masses" true = .ok i ∧ i.WellFormed true := by
  have made : ((parseSource "Masses.mo" massesText).toOption.bind fun file =>
      ((Program.ofSource file).instantiate "Masses" true).toOption).isSome := by
    decide +kernel
  obtain ⟨i, made⟩ := Option.isSome_iff_exists.1 made
  obtain ⟨file, parsed, made⟩ := Option.bind_eq_some_iff.1 made
  rw [toOption_eq_some] at parsed made
  exact ⟨file, i, parsed, made, instances_are_closed (.source parsed) made⟩

end Acausal
