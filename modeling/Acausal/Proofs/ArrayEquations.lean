-- Equations over arrays. The scalar form of a model lists the elements of its arrays in order
-- and says of every element what the original equation says there: whole arrays are read at
-- the element, single elements at their own subscript, and scalars are the same for all.
import Acausal.Proofs.ScalarForm

namespace Acausal

variable {α β : Type}

/-! ## Interpretations -/

/-- What numbers, time, operators and functions stand for. Nothing is asked of them, so they may
be anything from arithmetic on doubles to texts. -/
structure Interpretation (α β : Type) where
  number : α → β
  time : β
  binary : Operator → β → β → β
  neg : β → β
  call : String → List β → β

namespace Expr

mutual
/-- The value of an expression, where `read` gives the values of references and `rate` those of
their derivatives. -/
def interpret (ι : Interpretation α β) (read rate : Ref → β) : Expr α → β
  | number value => ι.number value
  | ref r => read r
  | time => ι.time
  | binary lhs op rhs => ι.binary op (interpret ι read rate lhs) (interpret ι read rate rhs)
  | neg operand => ι.neg (interpret ι read rate operand)
  | call function args => ι.call function (interpretAll ι read rate args)
  | der r => rate r

/-- The values of a list of expressions. -/
def interpretAll (ι : Interpretation α β) (read rate : Ref → β) : List (Expr α) → List β
  | [] => []
  | e :: es => interpret ι read rate e :: interpretAll ι read rate es
end

variable {ι : Interpretation α β} {read rate read' rate' : Ref → β}

/-- Replacing references keeps the value where every replacement has the value, and the rate, of
what it stands for. -/
theorem interpret_mapRefs {ε : Type} {f : Ref → Except ε Ref} {e e' : Expr α}
    (h : e.mapRefs f = .ok e')
    (agree : ∀ r ∈ e.refs, ∀ r', f r = .ok r' → read' r' = read r ∧ rate' r' = rate r) :
    e'.interpret ι read' rate' = e.interpret ι read rate := by
  induction e generalizing e' with
  | number value =>
    cases h
    rfl
  | time =>
    cases h
    rfl
  | ref r =>
    rw [mapRefs, bind_eq_ok] at h
    obtain ⟨r', hr, h⟩ := h
    cases h
    exact (agree r (by simp [refs]) r' hr).1
  | der r =>
    rw [mapRefs, bind_eq_ok] at h
    obtain ⟨r', hr, h⟩ := h
    cases h
    exact (agree r (by simp [refs]) r' hr).2
  | neg operand ih =>
    rw [mapRefs, bind_eq_ok] at h
    obtain ⟨inner, hinner, h⟩ := h
    cases h
    rw [interpret, interpret, ih hinner agree]
  | binary lhs op rhs ihl ihr =>
    rw [mapRefs] at h
    simp only [bind_eq_ok, pure_eq_ok] at h
    obtain ⟨left, hleft, right, hright, rfl⟩ := h
    rw [interpret, interpret,
      ihl hleft fun r hr => agree r (List.mem_append_left _ hr),
      ihr hright fun r hr => agree r (List.mem_append_right _ hr)]
  | call function args ih =>
    rw [mapRefs] at h
    simp only [bind_eq_ok, pure_eq_ok, mapRefsAll_eq_ok] at h
    obtain ⟨out, hout, rfl⟩ := h
    rw [interpret, interpret]
    congr 1
    rw [refs] at agree
    induction hout with
    | nil => rfl
    | cons first _ later =>
      rw [List.forall_mem_cons] at ih
      rw [interpretAll, interpretAll,
        ih.1 first fun r hr => agree r (List.mem_append_left _ hr),
        later ih.2 fun r hr => agree r (List.mem_append_right _ hr)]

end Expr

/-! ## Valuations -/

/-- Values of scalars by name, and of the elements of arrays by name and subscript. -/
structure Assignment (β : Type) where
  scalar : String → β
  element : String → Nat → β

namespace Assignment

/-- The value of a reference where whole arrays are read at one element. -/
def readAt (ρ : Assignment β) (m : FlatModel α) (element : Nat) (r : Ref) : β :=
  match m.arraySize? r.name with
  | none => ρ.scalar r.name
  | some _ => ρ.element r.name (r.index.getD element)

/-- The values by the names that scalars have when the arrays of a model are expanded. -/
def flattened (ρ : Assignment β) (m : FlatModel α) (name : String) : β :=
  match m.elements.find? fun e => FlatModel.elementName e.1 e.2 == name with
  | some (x, i) => ρ.element x i
  | none => ρ.scalar name

variable {ρ : Assignment β} {m : FlatModel α}

theorem flattened_element {x : String} {i : Nat} (h : (x, i) ∈ m.elements) :
    ρ.flattened m (FlatModel.elementName x i) = ρ.element x i := by
  unfold flattened
  cases found : m.elements.find? fun e =>
      FlatModel.elementName e.1 e.2 == FlatModel.elementName x i with
  | none =>
    have := List.find?_eq_none.1 found (x, i) h
    simp at this
  | some e =>
    obtain ⟨y, j⟩ := e
    have same : FlatModel.elementName y j = FlatModel.elementName x i := by
      simpa using List.find?_some found
    obtain ⟨rfl, rfl⟩ := FlatModel.elementName_inj same
    rfl

theorem flattened_scalar (apart : m.ElementsUnnamed) {name : String} (declared : name ∈ m.names) :
    ρ.flattened m name = ρ.scalar name := by
  unfold flattened
  cases found : m.elements.find? fun e => FlatModel.elementName e.1 e.2 == name with
  | none => rfl
  | some e =>
    have same : FlatModel.elementName e.1 e.2 = name := by simpa using List.find?_some found
    exact absurd (same ▸ declared) (apart e (List.mem_of_find?_eq_some found))

end Assignment

/-! ## One reference -/

namespace FlatModel

variable {m s : FlatModel α}

/-- A reference to something declared, with subscripts counted from one. -/
def Counted (m : FlatModel α) (r : Ref) : Prop := r.name ∈ m.names ∧ ∀ i, r.index = some i → 1 ≤ i

/-- What stands for a reference has its value, where whole arrays are read at an element that
they have. -/
theorem flattened_scalarRef (apart : m.ElementsUnnamed) {r r' : Ref} (counted : m.Counted r)
    {element : Option Nat} {k : Nat}
    (inside : ∀ n, r.index = none → m.arraySize? r.name = some n →
      element = some k ∧ 1 ≤ k ∧ k ≤ n)
    (made : (scalarRef m.arraySize? element r : Except (ShapeError α) Ref) = .ok r')
    (ρ : Assignment β) : ρ.flattened m r'.flatName = ρ.readAt m k r := by
  obtain ⟨name, index⟩ := r
  have declared (n i : Nat) (size : m.arraySize? name = some n) (low : 1 ≤ i) (high : i ≤ n) :
      (name, i) ∈ m.elements := by
    obtain ⟨v, hv, same, hsize⟩ := exists_of_arraySize? size
    exact mem_elements.2 ⟨v, hv, same, n, hsize, low, high⟩
  unfold scalarRef at made
  unfold Assignment.readAt
  simp only at made ⊢ inside
  cases hs : m.arraySize? name with
  | none =>
    rw [hs] at made
    cases index with
    | some i => cases made
    | none =>
      cases made
      exact Assignment.flattened_scalar apart counted.1
  | some n =>
    rw [hs] at made
    cases index with
    | some i =>
      simp only at made
      split at made
      · cases made
      · rename_i within
        cases made
        exact Assignment.flattened_element (declared n i hs (counted.2 i rfl) (by omega))
    | none =>
      obtain ⟨rfl, low, high⟩ := inside n rfl hs
      cases made
      exact Assignment.flattened_element (declared n k hs low high)

/-! ## Equations -/

theorem mem_wholeSizes {size? : String → Option Nat} {e : Equation α} {n : Nat} :
    n ∈ wholeSizes size? e ↔
      ∃ r ∈ e.lhs.refs ++ e.rhs.refs, r.index = none ∧ size? r.name = some n := by
  unfold wholeSizes
  rw [List.mem_filterMap]
  refine exists_congr fun r => and_congr_right fun _ => ?_
  cases r.index <;> simp

/-- A scalar equation has on both sides the value that the original has at an element, whatever
the values of scalars and elements are and whatever their rates are. -/
def AgreesAt (m : FlatModel α) (k : Nat) (e e' : Equation α) : Prop :=
  ∀ (β : Type) (ι : Interpretation α β) (values rates : Assignment β),
    let read := values.readAt m k
    let rate := rates.readAt m k
    let read' (r : Ref) := values.flattened m r.flatName
    let rate' (r : Ref) := rates.flattened m r.flatName
    e'.lhs.interpret ι read' rate' = e.lhs.interpret ι read rate ∧
      e'.rhs.interpret ι read' rate' = e.rhs.interpret ι read rate

theorem agreesAt_of_scalarEquation (apart : m.ElementsUnnamed) {e e' : Equation α}
    (counted : ∀ r ∈ e.lhs.refs ++ e.rhs.refs, m.Counted r) {element : Option Nat} {k : Nat}
    (inside : ∀ n ∈ wholeSizes m.arraySize? e, element = some k ∧ 1 ≤ k ∧ k ≤ n)
    (made : scalarEquation m.arraySize? element e = .ok e') : m.AgreesAt k e e' := by
  obtain ⟨_, rfl, left, right⟩ := scalarEquation_eq_ok.1 made
  have agree (β : Type) (ρ : Assignment β) (r : Ref) (hr : r ∈ e.lhs.refs ++ e.rhs.refs) (r' : Ref)
      (stands : (scalarRef m.arraySize? element r : Except (ShapeError α) Ref) = .ok r') :
      ρ.flattened m r'.flatName = ρ.readAt m k r := by
    refine flattened_scalarRef apart (counted r hr) (fun n whole size => ?_) stands ρ
    exact inside n (mem_wholeSizes.2 ⟨r, hr, whole, size⟩)
  intro β ι values rates
  constructor
  · apply Expr.interpret_mapRefs left
    intro r hr r' stands
    have side := List.mem_append_left e.rhs.refs hr
    exact ⟨agree β values r side r' stands, agree β rates r side r' stands⟩
  · apply Expr.interpret_mapRefs right
    intro r hr r' stands
    have side := List.mem_append_right e.lhs.refs hr
    exact ⟨agree β values r side r' stands, agree β rates r side r' stands⟩

/-- What an equation becomes: one equation if it mentions no whole array, and otherwise one for
each element of the arrays it mentions whole, in order. -/
structure Expands (m : FlatModel α) (e : Equation α) (es : List (Equation α)) : Prop where
  single : (∀ r ∈ e.lhs.refs ++ e.rhs.refs, r.index = none →
    ∀ v ∈ m.unknowns, v.name = r.name → v.size = none) → es.length = 1
  each : ∀ r ∈ e.lhs.refs ++ e.rhs.refs, r.index = none →
    ∀ v ∈ m.unknowns, v.name = r.name → ∀ n, v.size = some n → es.length = n
  agrees : ∀ i e', es[i]? = some e' → m.AgreesAt (i + 1) e e'

theorem expands_of_scalarEquations (distinct : m.declared.Nodup) (apart : m.ElementsUnnamed)
    {e : Equation α} (counted : ∀ r ∈ e.lhs.refs ++ e.rhs.refs, m.Counted r)
    {es : List (Equation α)} (h : scalarEquations m.arraySize? e = .ok es) : m.Expands e es := by
  rcases scalarEquations_eq_ok h with ⟨nothing, e', rfl, made⟩ | ⟨n, some_n, same, made⟩
  · refine ⟨fun _ => rfl, fun r hr whole v hv named n size => ?_, fun i e'' hi => ?_⟩
    · have mentioned : n ∈ wholeSizes m.arraySize? e := by
        refine mem_wholeSizes.2 ⟨r, hr, whole, ?_⟩
        rw [← named, arraySize?_eq distinct hv, size]
      rw [nothing] at mentioned
      cases mentioned
    · have here : e'' = e' := by
        rw [List.getElem?_singleton] at hi
        split at hi
        · cases hi
          rfl
        · cases hi
      subst here
      refine agreesAt_of_scalarEquation apart counted (fun n hn => ?_) made
      rw [nothing] at hn
      cases hn
  · have length : es.length = n := by
      rw [← made.length_eq, List.length_range']
    refine ⟨fun scalars => ?_, fun r hr whole v hv named k size => ?_, fun i e' hi => ?_⟩
    · obtain ⟨r, hr, whole, size⟩ := mem_wholeSizes.1 some_n
      obtain ⟨v, hv, named, declared⟩ := exists_of_arraySize? size
      rw [scalars r hr whole v hv named] at declared
      cases declared
    · rw [length]
      refine (same k (mem_wholeSizes.2 ⟨r, hr, whole, ?_⟩)).symm
      rw [← named, arraySize?_eq distinct hv, size]
    · obtain ⟨inside, rfl⟩ := List.getElem?_eq_some_iff.1 hi
      have at_i := (List.forall₂_iff_get.1 made).2 i (by rw [List.length_range']; omega) inside
      simp only [List.get_eq_getElem, List.getElem_range', Nat.one_mul] at at_i
      rw [Nat.add_comm] at at_i
      refine agreesAt_of_scalarEquation apart counted (fun k hk => ?_) at_i
      rw [same k hk]
      exact ⟨rfl, by omega, by omega⟩

/-! ## Models -/

/-- What a variable becomes: an array of size n becomes n scalars, in the order of their
subscripts, which start as the array does. -/
structure Lists (v : FlatVariable α) (vs : List (FlatVariable α)) : Prop where
  scalar : v.size = none → vs = [v]
  array : ∀ n, v.size = some n →
    vs = (List.range' 1 n).map fun i => ⟨v.name ++ "[" ++ toString i ++ "]", none, v.start⟩

theorem lists_scalarVariables (v : FlatVariable α) : Lists v (scalarVariables v) := by
  constructor
  · intro size
    unfold scalarVariables
    rw [size]
  · intro n size
    unfold scalarVariables
    rw [size]
    rfl

/-- A model that says with scalars what another one says with arrays. -/
structure ScalarFormOf (m s : FlatModel α) : Prop where
  name : s.name = m.name
  parameters : s.parameters = m.parameters
  distinct : s.names.Nodup
  unknowns : ∃ groups, s.unknowns = groups.flatten ∧ List.Forall₂ Lists m.unknowns groups
  equations : ∃ groups, s.equations = groups.flatten ∧ List.Forall₂ m.Expands m.equations groups

/-- The scalar form of a model has every element of its arrays, in order, and says of each what
the model says of it. -/
theorem scalar_forms_keep_the_meaning (distinct : m.names.Nodup) (apart : m.ElementsUnnamed)
    (counted : ∀ e ∈ m.equations, ∀ r ∈ e.lhs.refs ++ e.rhs.refs, m.Counted r)
    (h : m.scalarize = .ok s) : m.ScalarFormOf s := by
  have named := scalarize_names_nodup h distinct apart
  have declared : m.declared.Nodup := (List.nodup_append.mp distinct).2.1
  obtain ⟨groups, made, rfl⟩ := scalarize_eq_ok.1 h
  refine ⟨rfl, rfl, named, ⟨m.unknowns.map scalarVariables, ?_, ?_⟩, ⟨groups, rfl, ?_⟩⟩
  · exact List.flatMap_def
  · rw [List.forall₂_map_right_iff]
    exact List.forall₂_same.2 fun v _ => lists_scalarVariables v
  · apply forall₂_imp_of_mem made
    intro e he es expanded
    exact expands_of_scalarEquations declared apart (counted e he) expanded

/-- Two positions that move at rates proportional to them, and what they come to together. -/
def couple : FlatModel Int :=
  ⟨"Couple", [⟨"k", .number 2, false⟩], [⟨"x", some 2, some (.number 1)⟩, ⟨"y", none, none⟩],
    [⟨.der ⟨"x", none⟩, .binary (.ref ⟨"k", none⟩) .mul (.ref ⟨"x", none⟩)⟩,
      ⟨.ref ⟨"y", none⟩, .binary (.ref ⟨"x", some 1⟩) .add (.ref ⟨"x", some 2⟩)⟩]⟩

theorem couple_keeps_its_meaning : ∃ s, couple.names.Nodup ∧ couple.ElementsUnnamed ∧
    (∀ e ∈ couple.equations, ∀ r ∈ e.lhs.refs ++ e.rhs.refs, couple.Counted r) ∧
      couple.scalarize = .ok s ∧ s.equations.length = 3 ∧ couple.ScalarFormOf s := by
  have distinct : couple.names.Nodup := by decide
  have apart : couple.ElementsUnnamed := by
    unfold ElementsUnnamed
    decide
  have counted : ∀ e ∈ couple.equations, ∀ r ∈ e.lhs.refs ++ e.rhs.refs, couple.Counted r := by
    simp [couple, Counted, Expr.refs, names, declared]
  refine ⟨_, distinct, apart, counted, rfl, rfl, ?_⟩
  exact scalar_forms_keep_the_meaning distinct apart counted rfl

end FlatModel

end Acausal
