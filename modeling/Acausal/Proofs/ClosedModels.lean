-- Closed models. In a model that passes the check of its references, each names something
-- declared and has a subscript only inside an array; the scalar form of such a model has no
-- array left, and its equations name scalars only.
import Acausal.Proofs.InstanceInvariant

namespace Acausal

variable {α : Type}

namespace FlatModel

/-! ## References that fit -/

/-- A reference to something declared, with a subscript only inside an array. -/
def Fits (m : FlatModel α) (r : Ref) : Prop :=
  r.name ∈ m.names ∧ ∀ i, r.index = some i →
    ∃ v ∈ m.unknowns, v.name = r.name ∧ ∃ n, v.size = some n ∧ 1 ≤ i ∧ i ≤ n

/-- A model in which every reference fits. -/
def Closed (m : FlatModel α) : Prop := ∀ e ∈ m.expressions, ∀ r ∈ e.refs, m.Fits r

variable {m s : FlatModel α}

theorem exists_of_declared? {name : String} {n : Nat} (h : m.declared? name = some (some n)) :
    ∃ v ∈ m.unknowns, v.name = name ∧ v.size = some n := by
  unfold declared? at h
  split at h
  · rename_i v found
    exact ⟨v, List.mem_of_find?_eq_some found, by simpa using List.find?_some found,
      Option.some.inj h⟩
  · cases hp : m.parameterNamed? name <;> simp [hp] at h

theorem fits_of_checkRef {r : Ref} (h : m.checkRef r = .ok ()) : m.Fits r := by
  have known : (m.declared? r.name).isSome := by
    unfold checkRef at h
    cases hd : m.declared? r.name with
    | none => simp [hd] at h
    | some size => rfl
  refine ⟨declared?_isSome_iff.1 known, fun i hi => ?_⟩
  unfold checkRef at h
  rw [hi] at h
  cases hd : m.declared? r.name with
  | none => simp [hd] at h
  | some size =>
    cases size with
    | none => simp [hd] at h
    | some n =>
      simp only [hd] at h
      split at h
      · cases h
      · obtain ⟨v, hv, same, size⟩ := exists_of_declared? hd
        exact ⟨v, hv, same, n, size, by omega, by omega⟩

/-- A model passes the check if each of its expressions does. -/
theorem checkReferences_eq_ok :
    m.checkReferences = .ok () ↔ ∀ e ∈ m.expressions, m.checkExpr e = .ok () := by
  have listed : (∀ e ∈ m.expressions, m.checkExpr e = .ok ()) ↔
      (∀ q ∈ m.parameters, m.checkExpr q.binding = .ok ()) ∧
        (∀ v ∈ m.unknowns, ∀ e ∈ v.start, m.checkExpr e = .ok ()) ∧
          ∀ e ∈ m.equations, m.checkExpr e.lhs = .ok () ∧ m.checkExpr e.rhs = .ok () := by
    simp only [expressions, List.forall_mem_append, List.forall_mem_map, List.forall_mem_filterMap,
      List.forall_mem_flatMap, List.forall_mem_cons, List.not_mem_nil]
    simp [and_assoc]
  unfold checkReferences
  simp only [bind_unit_eq_ok, forM_eq_ok, mapError_eq_ok, listed]
  refine and_congr_right fun _ => and_congr_left fun _ => forall₂_congr fun v _ => ?_
  cases v.start <;> simp [mapError_eq_ok]

/-- What passes the check is closed. -/
theorem closed_of_checkReferences (h : m.checkReferences = .ok ()) : m.Closed := fun e he r hr =>
  fits_of_checkRef (forM_eq_ok.1 (checkReferences_eq_ok.1 h e he) r hr)

/-! ## The scalar form -/

theorem scalarName_mem (h : m.scalarize = .ok s) {v : FlatVariable α} (hv : v ∈ m.unknowns)
    (scalar : v.size = none) : v.name ∈ s.names := by
  obtain ⟨_, _, rfl⟩ := scalarize_eq_ok.1 h
  refine List.mem_append_right _ (List.mem_map.2 ⟨v, ?_, rfl⟩)
  exact List.mem_flatMap.2 ⟨v, hv, mem_scalarVariables.2 (.inl ⟨scalar, rfl⟩)⟩

theorem elementName_mem (h : m.scalarize = .ok s) {v : FlatVariable α} (hv : v ∈ m.unknowns)
    {n i : Nat} (size : v.size = some n) (low : 1 ≤ i) (high : i ≤ n) :
    elementName v.name i ∈ s.names := by
  obtain ⟨_, _, rfl⟩ := scalarize_eq_ok.1 h
  refine List.mem_append_right _ (List.mem_map.2 ⟨⟨elementName v.name i, none, v.start⟩, ?_, rfl⟩)
  exact List.mem_flatMap.2
    ⟨v, hv, mem_scalarVariables.2 (.inr ⟨n, i, size, low, high, rfl⟩)⟩

theorem parameterName_mem (h : m.scalarize = .ok s) {name : String}
    (hname : name ∈ m.parameters.map (·.name)) : name ∈ s.names := by
  obtain ⟨_, _, rfl⟩ := scalarize_eq_ok.1 h
  exact List.mem_append_left _ hname

/-- A reference that fits stands for a declared scalar, where whole arrays are read at an
element that they have. -/
theorem scalarRef_fits (h : m.scalarize = .ok s) (distinct : m.declared.Nodup) {r r' : Ref}
    (fits : m.Fits r) {element : Option Nat}
    (inside : ∀ n, r.index = none → m.arraySize? r.name = some n →
      ∃ i, element = some i ∧ 1 ≤ i ∧ i ≤ n)
    (made : (scalarRef m.arraySize? element r : Except (ShapeError α) Ref) = .ok r') :
    r'.index = none ∧ r'.name ∈ s.names := by
  unfold scalarRef at made
  split at made
  · rename_i i n index size
    split at made
    · cases made
    · cases made
      obtain ⟨v, hv, same, k, hk, low, high⟩ := fits.2 i index
      refine ⟨rfl, ?_⟩
      have element := elementName_mem h hv hk low high
      rwa [same, elementName, show Ref.mk r.name (some i) = r by cases r; simp_all] at element
  · cases made
  · rename_i n index size
    cases made
    obtain ⟨i, rfl, low, high⟩ := inside n index size
    obtain ⟨v, hv, same, hsize⟩ := exists_of_arraySize? size
    refine ⟨rfl, ?_⟩
    have element := elementName_mem h hv hsize low high
    rwa [same] at element
  · rename_i index size
    cases made
    refine ⟨rfl, ?_⟩
    rcases List.mem_append.1 fits.1 with parameter | declared
    · exact parameterName_mem h parameter
    · obtain ⟨v, hv, same⟩ := List.mem_map.1 declared
      have scalar : v.size = none := by rw [← arraySize?_eq distinct hv, same, size]
      have kept := scalarName_mem h hv scalar
      rwa [same] at kept

/-- The equations of the scalar form of a closed model name declared scalars only. -/
theorem scalarize_refs (h : m.scalarize = .ok s) (distinct : m.declared.Nodup) (closed : m.Closed) :
    ∀ e ∈ s.equations, ∀ r ∈ e.lhs.refs ++ e.rhs.refs, r.index = none ∧ r.name ∈ s.names := by
  obtain ⟨groups, made, same⟩ := scalarize_eq_ok.1 h
  intro e' he' r' hr'
  rw [same] at he'
  obtain ⟨es, hes, he'⟩ := List.mem_flatten.1 he'
  obtain ⟨e, he, hgroup⟩ := exists_of_forall₂_right made es hes
  obtain ⟨element, hscalar, inside⟩ := mem_scalarEquations hgroup he'
  obtain ⟨_, rfl, left, right⟩ := scalarEquation_eq_ok.1 hscalar
  obtain ⟨r, hr, made⟩ := exists_of_forall₂_right
    (List.rel_append (Expr.refs_mapRefs left) (Expr.refs_mapRefs right)) r' hr'
  refine scalarRef_fits h distinct ?_ (fun n index size => ?_) made
  · have sides (side : Expr α) (hside : side ∈ [e.lhs, e.rhs]) : side ∈ m.expressions :=
      List.mem_append_right _ (List.mem_flatMap.2 ⟨e, he, hside⟩)
    rcases List.mem_append.1 hr with hr | hr
    · exact closed e.lhs (sides _ (by simp)) r hr
    · exact closed e.rhs (sides _ (by simp)) r hr
  · refine inside n ?_
    unfold wholeSizes
    rw [List.mem_filterMap]
    exact ⟨r, hr, by rw [index]; exact size⟩

theorem scalarize_sizes (h : m.scalarize = .ok s) : ∀ v ∈ s.unknowns, v.size = none := by
  obtain ⟨_, _, rfl⟩ := scalarize_eq_ok.1 h
  intro w hw
  obtain ⟨v, _, hwv⟩ := List.mem_flatMap.1 hw
  rcases mem_scalarVariables.1 hwv with ⟨scalar, rfl⟩ | ⟨_, _, _, _, _, rfl⟩
  · exact scalar
  · rfl

/-- What a cache covers of a model it covers of the scalar form. -/
theorem scalarize_covered (h : m.scalarize = .ok s) {cache : FunctionCache}
    (covered : ∀ e ∈ m.expressions, cache.Covers e) : ∀ e ∈ s.expressions, cache.Covers e := by
  obtain ⟨groups, made, rfl⟩ := scalarize_eq_ok.1 h
  have mapped {f : Ref → Except (ShapeError α) Ref} {e e' : Expr α} (he : e ∈ m.expressions)
      (h : e.mapRefs f = .ok e') : cache.Covers e' := by
    intro c' hc'
    obtain ⟨c, hc, function, count⟩ := Expr.applications_mapRefs h c' hc'
    obtain ⟨⟨builtin, one⟩, recorded⟩ := covered e he c hc
    exact ⟨⟨function ▸ builtin, count ▸ one⟩, function ▸ recorded⟩
  intro e' he'
  simp only [expressions, List.mem_append] at he'
  rcases he' with (he' | he') | he'
  · exact covered e' (List.mem_append_left _ (List.mem_append_left _ he'))
  · obtain ⟨w, hw, start⟩ := List.mem_filterMap.1 he'
    obtain ⟨v, hv, hwv⟩ := List.mem_flatMap.1 hw
    have original : v.start = some e' := by
      rcases mem_scalarVariables.1 hwv with ⟨_, rfl⟩ | ⟨_, _, _, _, _, rfl⟩
      · exact start
      · exact start
    refine covered e' (List.mem_append_left _ (List.mem_append_right _ ?_))
    exact List.mem_filterMap.2 ⟨v, hv, original⟩
  · obtain ⟨q', hq', side⟩ := List.mem_flatMap.1 he'
    obtain ⟨es, hes, hq'⟩ := List.mem_flatten.1 hq'
    obtain ⟨q, hq, hgroup⟩ := exists_of_forall₂_right made es hes
    obtain ⟨element, hscalar, _⟩ := mem_scalarEquations hgroup hq'
    obtain ⟨_, _, left, right⟩ := scalarEquation_eq_ok.1 hscalar
    have sides (side : Expr α) (hside : side ∈ [q.lhs, q.rhs]) : side ∈ m.expressions :=
      List.mem_append_right _ (List.mem_flatMap.2 ⟨q, hq, hside⟩)
    rw [List.mem_cons, List.mem_singleton] at side
    rcases side with rfl | rfl
    · exact mapped (sides _ (by simp)) left
    · exact mapped (sides _ (by simp)) right

end FlatModel

end Acausal
