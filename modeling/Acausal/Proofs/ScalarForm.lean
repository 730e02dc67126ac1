-- The scalar form of a model. Elements of arrays are named apart from each other, so the
-- scalar form of a model names its variables apart as long as no declared name is spelled like
-- an element of a declared array.
import Acausal.Flat.Scalar
import Acausal.Proofs.Expressions
import Acausal.Proofs.Success
import Mathlib.Data.List.Nodup
import Std.Data.String.ToNat

namespace Acausal

variable {α : Type}

namespace FlatModel

/-! ## Names of elements -/

theorem elementName_toList (name : String) (i : Nat) :
    (elementName name i).toList = name.toList ++ '[' :: Nat.toDigits 10 i ++ [']'] := by
  simp [elementName, Ref.flatName, toString, Nat.toList_repr]

/-- The name of an element tells the array and the subscript. -/
theorem elementName_inj {a b : String} {i j : Nat} (h : elementName a i = elementName b j) :
    a = b ∧ i = j := by
  -- Behind the last bracket that opens there are digits only.
  have behind (name : String) (i : Nat) :
      ((elementName name i).toList.reverse.tail.takeWhile (· ≠ '[')) =
        (Nat.toDigits 10 i).reverse ∧
      ((elementName name i).toList.reverse.tail.dropWhile (· ≠ '[')) =
        '[' :: name.toList.reverse := by
    have digits : ∀ c ∈ (Nat.toDigits 10 i).reverse, decide (c ≠ '[') = true := by
      intro c hc
      have digit := Nat.isDigit_of_mem_toDigits (by omega) (by omega) (List.mem_reverse.1 hc)
      rw [decide_eq_true_iff]
      rintro rfl
      simp at digit
    have back : (elementName name i).toList.reverse.tail =
        (Nat.toDigits 10 i).reverse ++ '[' :: name.toList.reverse := by
      rw [elementName_toList]
      simp
    rw [back, List.takeWhile_append_of_pos digits, List.dropWhile_append_of_pos digits]
    simp
  have left := behind a i
  have right := behind b j
  rw [h] at left
  have digits : Nat.toDigits 10 i = Nat.toDigits 10 j := by
    simpa using left.1.symm.trans right.1
  have names : a.toList = b.toList := by
    simpa using left.2.symm.trans right.2
  refine ⟨String.toList_inj.1 names, Nat.repr_injective ?_⟩
  rw [← String.toList_inj, Nat.toList_repr, Nat.toList_repr, digits]

/-! ## Scalar variables -/

theorem mem_scalarVariables {v w : FlatVariable α} :
    w ∈ scalarVariables v ↔
      (v.size = none ∧ w = v) ∨
        ∃ n i, v.size = some n ∧ 1 ≤ i ∧ i ≤ n ∧ w = ⟨elementName v.name i, none, v.start⟩ := by
  unfold scalarVariables
  cases v.size with
  | none => simp
  | some n =>
    simp only [List.mem_map, List.mem_range'_1, reduceCtorEq, false_and, Option.some.injEq,
      false_or]
    constructor
    · rintro ⟨i, ⟨low, high⟩, rfl⟩
      exact ⟨n, i, rfl, low, by omega, rfl⟩
    · rintro ⟨_, i, rfl, low, high, rfl⟩
      exact ⟨i, ⟨low, by omega⟩, rfl⟩

/-- The names of the scalar variables that a variable stands for are distinct. -/
theorem scalarVariables_nodup (v : FlatVariable α) : ((scalarVariables v).map (·.name)).Nodup := by
  unfold scalarVariables
  cases v.size with
  | none => simp
  | some n =>
    rw [List.map_map]
    refine List.Nodup.map ?_ List.nodup_range'
    intro i j h
    exact (elementName_inj h).2

/-- A model in scalar form, taken apart. -/
theorem scalarize_eq_ok {m s : FlatModel α} :
    m.scalarize = .ok s ↔
      ∃ groups, List.Forall₂ (fun e es => scalarEquations m.arraySize? e = .ok es)
          m.equations groups ∧
        s = { m with
          unknowns := m.unknowns.flatMap scalarVariables
          equations := groups.flatten } := by
  unfold scalarize
  simp only [bind_eq_ok, pure_eq_ok, mapM_eq_ok]
  constructor
  · rintro ⟨groups, h, rfl⟩
    exact ⟨groups, h, rfl⟩
  · rintro ⟨groups, h, rfl⟩
    exact ⟨groups, h, rfl⟩

/-! ## Distinct names -/

/-- The names of the variables of a model. -/
def declared (m : FlatModel α) : List String := m.unknowns.map (·.name)

/-- The names of the parameters and variables of a model. -/
def names (m : FlatModel α) : List String := m.parameters.map (·.name) ++ m.declared

/-- The elements of the arrays that a model declares. -/
def elements (m : FlatModel α) : List (String × Nat) :=
  m.unknowns.flatMap fun v => (List.range' 1 (v.size.getD 0)).map fun i => (v.name, i)

theorem mem_elements {m : FlatModel α} {name : String} {i : Nat} :
    (name, i) ∈ m.elements ↔
      ∃ v ∈ m.unknowns, v.name = name ∧ ∃ n, v.size = some n ∧ 1 ≤ i ∧ i ≤ n := by
  unfold elements
  simp only [List.mem_flatMap, List.mem_map, Prod.mk.injEq, List.mem_range'_1]
  constructor
  · rintro ⟨v, hv, k, ⟨low, high⟩, rfl, rfl⟩
    cases hs : v.size with
    | none =>
      rw [hs] at high
      simp only [Option.getD_none] at high
      omega
    | some n =>
      rw [hs] at high
      simp only [Option.getD_some] at high
      exact ⟨v, hv, rfl, n, hs, low, by omega⟩
  · rintro ⟨v, hv, rfl, n, size, low, high⟩
    refine ⟨v, hv, i, ⟨low, ?_⟩, rfl, rfl⟩
    rw [size]
    simp only [Option.getD_some]
    omega

/-- No parameter or variable is named like an element of an array. -/
def ElementsUnnamed (m : FlatModel α) : Prop :=
  ∀ e ∈ m.elements, elementName e.1 e.2 ∉ m.names

/-- No variable is named like an element of an array. -/
def ElementsApart (m : FlatModel α) : Prop :=
  ∀ v ∈ m.unknowns, ∀ n, v.size = some n → ∀ i, 1 ≤ i → i ≤ n → elementName v.name i ∉ m.declared

/-- The names of variables stay distinct when arrays are expanded. -/
theorem declared_scalarize_nodup {m s : FlatModel α} (h : m.scalarize = .ok s)
    (distinct : m.declared.Nodup) (apart : m.ElementsApart) : s.declared.Nodup := by
  obtain ⟨groups, _, rfl⟩ := scalarize_eq_ok.1 h
  change ((m.unknowns.flatMap scalarVariables).map _).Nodup
  rw [List.map_flatMap, List.nodup_flatMap]
  refine ⟨fun v _ => scalarVariables_nodup v, ?_⟩
  refine (List.pairwise_map.1 distinct).imp_of_mem fun {v w} hv hw differ => ?_
  apply List.disjoint_left.2
  intro name hname hname'
  obtain ⟨a, ha, rfl⟩ := List.mem_map.1 hname
  obtain ⟨b, hb, same⟩ := List.mem_map.1 hname'
  rcases mem_scalarVariables.1 ha with ⟨_, rfl⟩ | ⟨n, i, size, low, high, rfl⟩ <;>
    rcases mem_scalarVariables.1 hb with ⟨_, rfl⟩ | ⟨n', j, size', low', high', rfl⟩
  · exact differ same.symm
  · refine apart w hw n' size' j low' high' ?_
    rw [show elementName w.name j = a.name from same]
    exact List.mem_map_of_mem hv
  · refine apart v hv n size i low high ?_
    rw [show elementName v.name i = b.name from same.symm]
    exact List.mem_map_of_mem hw
  · exact differ (elementName_inj same).1.symm

/-- The names of parameters and variables stay distinct when arrays are expanded. -/
theorem scalarize_names_nodup {m s : FlatModel α} (h : m.scalarize = .ok s)
    (distinct : m.names.Nodup) (apart : m.ElementsUnnamed) : s.names.Nodup := by
  obtain ⟨parameters, declared, separate⟩ := List.nodup_append.mp distinct
  have unnamed {v : FlatVariable α} (hv : v ∈ m.unknowns) {n i : Nat} (size : v.size = some n)
      (low : 1 ≤ i) (high : i ≤ n) : elementName v.name i ∉ m.names :=
    apart (v.name, i) (mem_elements.2 ⟨v, hv, rfl, n, size, low, high⟩)
  have expanded : s.declared.Nodup := by
    apply declared_scalarize_nodup h declared
    intro v hv n size i low high named
    exact unnamed hv size low high (List.mem_append_right _ named)
  obtain ⟨groups, _, rfl⟩ := scalarize_eq_ok.1 h
  refine List.nodup_append.mpr ⟨parameters, expanded, ?_⟩
  intro name hname other hother
  obtain ⟨w, hw, rfl⟩ := List.mem_map.1 hother
  obtain ⟨v, hv, hvw⟩ := List.mem_flatMap.1 hw
  rcases mem_scalarVariables.1 hvw with ⟨_, rfl⟩ | ⟨n, i, size, low, high, rfl⟩
  · exact separate name hname w.name (List.mem_map_of_mem hv)
  · rintro rfl
    exact unnamed hv size low high (List.mem_append_left _ hname)

end FlatModel

/-! ## Replaced references -/

namespace Expr

variable {ε : Type} {f : Ref → Except ε Ref}

theorem mapRefsAll_eq_mapM (es : List (Expr α)) : mapRefsAll f es = es.mapM (mapRefs f) := by
  induction es with
  | nil => rfl
  | cons e es ih => rw [mapRefsAll, List.mapM_cons, ih]

theorem mapRefsAll_eq_ok {es out : List (Expr α)} :
    mapRefsAll f es = .ok out ↔ List.Forall₂ (fun e e' => e.mapRefs f = .ok e') es out := by
  rw [mapRefsAll_eq_mapM, mapM_eq_ok]

/-- Each reference is replaced by what stands for it, in its place. -/
theorem refs_mapRefs {e e' : Expr α} (h : e.mapRefs f = .ok e') :
    List.Forall₂ (fun r r' => f r = .ok r') e.refs e'.refs := by
  induction e generalizing e' with
  | number value =>
    cases h
    exact .nil
  | time =>
    cases h
    exact .nil
  | ref r =>
    rw [mapRefs, bind_eq_ok] at h
    obtain ⟨r', hr, h⟩ := h
    cases h
    exact .cons hr .nil
  | der r =>
    rw [mapRefs, bind_eq_ok] at h
    obtain ⟨r', hr, h⟩ := h
    cases h
    exact .cons hr .nil
  | neg operand ih =>
    rw [mapRefs, bind_eq_ok] at h
    obtain ⟨inner, hinner, h⟩ := h
    cases h
    change List.Forall₂ _ operand.refs inner.refs
    exact ih hinner
  | binary lhs op rhs ihl ihr =>
    rw [mapRefs] at h
    simp only [bind_eq_ok, pure_eq_ok] at h
    obtain ⟨left, hleft, right, hright, rfl⟩ := h
    exact List.rel_append (ihl hleft) (ihr hright)
  | call function args ih =>
    rw [mapRefs] at h
    simp only [bind_eq_ok, pure_eq_ok, mapRefsAll_eq_ok] at h
    obtain ⟨out, hout, rfl⟩ := h
    rw [refs, refs]
    induction hout with
    | nil => exact .nil
    | cons first _ later =>
      rw [List.forall_mem_cons] at ih
      exact List.rel_append (ih.1 first) (later ih.2)

/-- Calls keep their functions and their numbers of arguments. -/
theorem applications_mapRefs {e e' : Expr α} (h : e.mapRefs f = .ok e') :
    ∀ c' ∈ e'.applications, ∃ c ∈ e.applications, c.1 = c'.1 ∧ c.2.length = c'.2.length := by
  induction e generalizing e' with
  | number value =>
    cases h
    simp [applications]
  | time =>
    cases h
    simp [applications]
  | ref r =>
    rw [mapRefs, bind_eq_ok] at h
    obtain ⟨r', hr, h⟩ := h
    cases h
    simp [applications]
  | der r =>
    rw [mapRefs, bind_eq_ok] at h
    obtain ⟨r', hr, h⟩ := h
    cases h
    simp [applications]
  | neg operand ih =>
    rw [mapRefs, bind_eq_ok] at h
    obtain ⟨inner, hinner, h⟩ := h
    cases h
    intro c hc
    exact ih hinner c hc
  | binary lhs op rhs ihl ihr =>
    rw [mapRefs] at h
    simp only [bind_eq_ok, pure_eq_ok] at h
    obtain ⟨left, hleft, right, hright, rfl⟩ := h
    intro c hc
    rw [applications, List.mem_append] at hc
    simp only [applications, List.mem_append]
    rcases hc with hc | hc
    · obtain ⟨original, horiginal, same⟩ := ihl hleft c hc
      exact ⟨original, .inl horiginal, same⟩
    · obtain ⟨original, horiginal, same⟩ := ihr hright c hc
      exact ⟨original, .inr horiginal, same⟩
  | call function args ih =>
    rw [mapRefs] at h
    simp only [bind_eq_ok, pure_eq_ok, mapRefsAll_eq_ok] at h
    obtain ⟨out, hout, rfl⟩ := h
    intro c hc
    rw [applications, List.mem_cons, mem_applicationsAll] at hc
    simp only [applications, List.mem_cons, mem_applicationsAll]
    rcases hc with rfl | ⟨arg', harg', hc⟩
    · exact ⟨(function, args), .inl rfl, rfl, hout.length_eq⟩
    · obtain ⟨arg, harg, mapped⟩ := exists_of_forall₂_right hout arg' harg'
      obtain ⟨original, horiginal, same⟩ := ih arg harg mapped c hc
      exact ⟨original, .inr ⟨arg, harg, horiginal⟩, same⟩

end Expr

/-! ## Scalar equations -/

namespace FlatModel

variable {size? : String → Option Nat}

/-- The scalar equations of an equation without whole arrays are a single one; those of an
equation over arrays of one size are one for every element, in order. -/
theorem scalarEquations_eq_ok {e : Equation α} {es : List (Equation α)}
    (h : scalarEquations size? e = .ok es) :
    (wholeSizes size? e = [] ∧ ∃ e', es = [e'] ∧ scalarEquation size? none e = .ok e') ∨
      ∃ n, n ∈ wholeSizes size? e ∧ (∀ k ∈ wholeSizes size? e, k = n) ∧
        List.Forall₂ (fun i e' => scalarEquation size? (some i) e = .ok e')
          (List.range' 1 n) es := by
  unfold scalarEquations at h
  rw [bind_eq_ok] at h
  obtain ⟨width, hwidth, h⟩ := h
  unfold width? at hwidth
  split at hwidth
  · rename_i nothing
    cases hwidth
    simp only [bind_eq_ok, pure_eq_ok] at h
    obtain ⟨single, hsingle, rfl⟩ := h
    exact .inl ⟨nothing, single, rfl, hsingle⟩
  · rename_i n more sizes
    split at hwidth
    · rename_i same
      cases hwidth
      simp only [mapM_eq_ok] at h
      refine .inr ⟨n, ?_, fun k hk => ?_, h⟩
      · rw [sizes]
        exact List.mem_cons_self
      · rw [sizes, List.mem_cons] at hk
        rcases hk with rfl | hk
        · rfl
        · rw [List.find?_eq_none] at same
          simpa using same k (List.mem_reverse.2 hk)
    · cases hwidth

/-- A scalar equation is the original one read at no element or, where the original mentions
whole arrays, at an element that all of them have. -/
theorem mem_scalarEquations {e e' : Equation α} {es : List (Equation α)}
    (h : scalarEquations size? e = .ok es) (he' : e' ∈ es) :
    ∃ element, scalarEquation size? element e = .ok e' ∧
      ∀ n ∈ wholeSizes size? e, ∃ i, element = some i ∧ 1 ≤ i ∧ i ≤ n := by
  rcases scalarEquations_eq_ok h with ⟨nothing, single, rfl, made⟩ | ⟨n, -, same, made⟩
  · rw [List.mem_singleton] at he'
    exact ⟨none, he' ▸ made, by simp [nothing]⟩
  · obtain ⟨i, hi, made⟩ := exists_of_forall₂_right made e' he'
    rw [List.mem_range'_1] at hi
    refine ⟨some i, made, fun k hk => ⟨i, rfl, hi.1, ?_⟩⟩
    rw [same k hk]
    omega

theorem scalarEquation_eq_ok {element : Option Nat} {e e' : Equation α} :
    scalarEquation size? element e = .ok e' ↔
      ∃ f : Ref → Except (ShapeError α) Ref, f = scalarRef size? element ∧
        e.lhs.mapRefs f = .ok e'.lhs ∧ e.rhs.mapRefs f = .ok e'.rhs := by
  unfold scalarEquation
  simp only [bind_eq_ok, pure_eq_ok]
  constructor
  · rintro ⟨lhs, hlhs, rhs, hrhs, rfl⟩
    exact ⟨_, rfl, hlhs, hrhs⟩
  · rintro ⟨_, rfl, hlhs, hrhs⟩
    exact ⟨_, hlhs, _, hrhs, rfl⟩

/-- The size of an array is the one it is declared with, where names are distinct. -/
theorem arraySize?_eq {m : FlatModel α} (distinct : m.declared.Nodup) {v : FlatVariable α}
    (hv : v ∈ m.unknowns) : m.arraySize? v.name = v.size := by
  unfold arraySize?
  cases hs : v.size with
  | none =>
    rw [List.findSome?_eq_none_iff]
    intro w hw
    split
    · rename_i same
      rw [List.inj_on_of_nodup_map distinct (List.mem_reverse.1 hw) hv same, hs]
    · rfl
  | some n =>
    cases hfound : m.unknowns.reverse.findSome? fun w =>
      if w.name = v.name then w.size else none with
    | none =>
      rw [List.findSome?_eq_none_iff] at hfound
      have := hfound v (List.mem_reverse.2 hv)
      simp [hs] at this
    | some k =>
      obtain ⟨w, hw, found⟩ := List.exists_of_findSome?_eq_some hfound
      split at found
      · rename_i same
        rw [List.inj_on_of_nodup_map distinct (List.mem_reverse.1 hw) hv same, hs] at found
        exact found.symm
      · cases found

theorem exists_of_arraySize? {m : FlatModel α} {name : String} {n : Nat}
    (h : m.arraySize? name = some n) : ∃ v ∈ m.unknowns, v.name = name ∧ v.size = some n := by
  obtain ⟨v, hv, found⟩ := List.exists_of_findSome?_eq_some h
  split at found
  · rename_i same
    exact ⟨v, List.mem_reverse.1 hv, same, found⟩
  · cases found

end FlatModel

end Acausal
