-- Models under a stem. A model can be moved under a stem: the stem comes in front of every name
-- that it declares and of every reference in it, and nothing else changes. All that is done on the
-- way to a flat model commutes with that: resolving, modifying, declaring, checking, expanding.
import Acausal.Proofs.ClosedModels
import Acausal.Proofs.LayoutSteps
import Acausal.Proofs.ResolvedReferences
import Acausal.Proofs.Tables

namespace Acausal

variable {α : Type}

/-! ## Names under a stem -/

def Ref.stemmed (front : String) (r : Ref) : Ref := ⟨front ++ r.name, r.index⟩

mutual
/-- An expression with a stem in front of every reference. -/
def Expr.stemmed (front : String) : Expr α → Expr α
  | .number value => .number value
  | .ref r => .ref (r.stemmed front)
  | .time => .time
  | .binary lhs op rhs => .binary (Expr.stemmed front lhs) op (Expr.stemmed front rhs)
  | .neg operand => .neg (Expr.stemmed front operand)
  | .call function args => .call function (Expr.stemmedAll front args)
  | .der r => .der (r.stemmed front)

/-- A list of expressions with a stem in front of every reference. -/
def Expr.stemmedAll (front : String) : List (Expr α) → List (Expr α)
  | [] => []
  | e :: es => Expr.stemmed front e :: Expr.stemmedAll front es
end

def Equation.stemmed (front : String) (e : Equation α) : Equation α :=
  ⟨e.lhs.stemmed front, e.rhs.stemmed front⟩

mutual
/-- A modifier with a stem in front of every reference in its values. -/
def Modifier.stemmed (front : String) : Modifier α → Modifier α
  | ⟨name, each, value, children⟩ =>
    ⟨name, each, value.map (·.stemmed front), Modifier.stemmedAll front children⟩

/-- Modifiers with a stem in front of every reference in their values. -/
def Modifier.stemmedAll (front : String) : List (Modifier α) → List (Modifier α)
  | [] => []
  | m :: rest => Modifier.stemmed front m :: Modifier.stemmedAll front rest
end

def Modification.stemmed (front : String) (m : Modification α) : Modification α :=
  ⟨m.settings.map fun (path, e) => (path, e.stemmed front)⟩

def FlatParameter.stemmed (front : String) (q : FlatParameter α) : FlatParameter α :=
  ⟨front ++ q.name, q.binding.stemmed front, q.isConstant⟩

def FlatVariable.stemmed (front : String) (v : FlatVariable α) : FlatVariable α :=
  ⟨front ++ v.name, v.size, v.start.map (·.stemmed front)⟩

/-- A flat model of another name with a stem in front of every name that it declares and of every
reference in it. -/
def FlatModel.stemmed (front name : String) (m : FlatModel α) : FlatModel α :=
  ⟨name, m.parameters.map (·.stemmed front), m.unknowns.map (·.stemmed front),
    m.equations.map (·.stemmed front)⟩

theorem stem_beq_stem (front a b : String) : (front ++ a == front ++ b) = (a == b) := by
  rw [Bool.eq_iff_iff, beq_iff_eq, beq_iff_eq, ← String.toList_inj, ← String.toList_inj]
  simp

theorem Ref.flatName_stemmed (front : String) (r : Ref) :
    (r.stemmed front).flatName = front ++ r.flatName := by
  obtain ⟨name, index⟩ := r
  cases index <;> simp [stemmed, flatName, String.append_assoc]

theorem elementName_stemmed (front name : String) (i : Nat) :
    FlatModel.elementName (front ++ name) i = front ++ FlatModel.elementName name i :=
  Ref.flatName_stemmed front ⟨name, some i⟩

/-! ## Expressions -/

namespace Expr

variable {front : String}

theorem stemmedAll_eq_map (es : List (Expr α)) : stemmedAll front es = es.map (stemmed front) := by
  induction es with
  | nil => rfl
  | cons e es ih => rw [stemmedAll, List.map_cons, ih]

theorem refs_stemmed (e : Expr α) : (e.stemmed front).refs = e.refs.map (Ref.stemmed front) := by
  induction e with
  | number value => rfl
  | time => rfl
  | ref r => rfl
  | der r => rfl
  | neg operand ih => rw [stemmed, refs, refs, ih]
  | binary lhs op rhs ihl ihr => rw [stemmed, refs, refs, ihl, ihr, List.map_append]
  | call function args ih =>
    rw [stemmed, refs, refs, stemmedAll_eq_map]
    induction args with
    | nil => rfl
    | cons arg args later =>
      rw [List.forall_mem_cons] at ih
      rw [List.map_cons, refsAll, refsAll, ih.1, later ih.2, List.map_append]

theorem calls_stemmed (e : Expr α) : (e.stemmed front).calls = e.calls := by
  induction e with
  | number value => rfl
  | time => rfl
  | ref r => rfl
  | der r => rfl
  | neg operand ih => rw [stemmed, calls, calls, ih]
  | binary lhs op rhs ihl ihr => rw [stemmed, calls, calls, ihl, ihr]
  | call function args ih =>
    rw [stemmed, calls, calls, stemmedAll_eq_map]
    congr 1
    induction args with
    | nil => rfl
    | cons arg args later =>
      rw [List.forall_mem_cons] at ih
      rw [List.map_cons, callsAll, callsAll, ih.1, later ih.2]

/-- Where every reference stays as it is, so does the expression. -/
theorem stemmed_eq_self {e : Expr α} (same : ∀ r ∈ e.refs, r.stemmed front = r) :
    e.stemmed front = e := by
  induction e with
  | number value => rfl
  | time => rfl
  | ref r => rw [stemmed, same r (by simp [refs])]
  | der r => rw [stemmed, same r (by simp [refs])]
  | neg operand ih => rw [stemmed, ih same]
  | binary lhs op rhs ihl ihr =>
    rw [stemmed, ihl fun r hr => same r (List.mem_append_left _ hr),
      ihr fun r hr => same r (List.mem_append_right _ hr)]
  | call function args ih =>
    rw [stemmed, stemmedAll_eq_map]
    congr 1
    refine (List.map_congr_left fun arg listed => ?_).trans (List.map_id' args)
    exact ih arg listed fun r hr => same r (mem_refsAll.2 ⟨arg, listed, hr⟩)

theorem stemmed_empty (e : Expr α) : e.stemmed "" = e :=
  stemmed_eq_self fun r _ => by simp [Ref.stemmed]

/-- References replaced under a stem are the replaced references under it. -/
theorem mapRefs_stemmed {ε : Type} {f f' : Ref → Except ε Ref} {e e' : Expr α}
    (moved : ∀ r r', f r = .ok r' → f' (r.stemmed front) = .ok (r'.stemmed front))
    (h : e.mapRefs f = .ok e') : (e.stemmed front).mapRefs f' = .ok (e'.stemmed front) := by
  induction e generalizing e' with
  | number value =>
    cases h
    rfl
  | time =>
    cases h
    rfl
  | ref r =>
    rw [mapRefs, bind_eq_ok] at h
    obtain ⟨r', replaced, h⟩ := h
    cases h
    rw [stemmed, mapRefs, moved r r' replaced]
    rfl
  | der r =>
    rw [mapRefs, bind_eq_ok] at h
    obtain ⟨r', replaced, h⟩ := h
    cases h
    rw [stemmed, mapRefs, moved r r' replaced]
    rfl
  | neg operand ih =>
    rw [mapRefs, bind_eq_ok] at h
    obtain ⟨inner, replaced, h⟩ := h
    cases h
    rw [stemmed, mapRefs, ih replaced]
    rfl
  | binary lhs op rhs ihl ihr =>
    rw [mapRefs] at h
    simp only [bind_eq_ok, pure_eq_ok] at h
    obtain ⟨left, hleft, right, hright, rfl⟩ := h
    rw [stemmed, mapRefs, ihl hleft, ihr hright]
    rfl
  | call function args ih =>
    rw [mapRefs] at h
    simp only [bind_eq_ok, pure_eq_ok, mapRefsAll_eq_ok] at h
    obtain ⟨out, replaced, rfl⟩ := h
    rw [stemmed, stemmed, mapRefs, stemmedAll_eq_map, stemmedAll_eq_map]
    simp only [bind_eq_ok, pure_eq_ok, mapRefsAll_eq_ok]
    refine ⟨_, ?_, rfl⟩
    rw [List.forall₂_map_left_iff, List.forall₂_map_right_iff]
    exact forall₂_imp_of_mem replaced fun arg listed out => ih arg listed

/-- A resolution that succeeds does so under a stem, if all that references mean is under it. -/
theorem resolve_stemmed {meaning meaning' : Ref → Except ResolveError (Expr α)} {e e' : Expr α}
    (moved : ∀ r x, meaning r = .ok x → meaning' r = .ok (x.stemmed front))
    (h : e.resolve meaning = .ok e') : e.resolve meaning' = .ok (e'.stemmed front) := by
  induction e generalizing e' with
  | number value =>
    cases h
    rfl
  | time =>
    cases h
    rfl
  | ref r => exact moved r e' h
  | der r =>
    rw [resolve, bind_eq_ok] at h
    obtain ⟨found, meant, h⟩ := h
    split at h
    · cases h
      rw [resolve, moved r _ meant]
      rfl
    · cases h
  | neg operand ih =>
    rw [resolve, bind_eq_ok] at h
    obtain ⟨inner, resolved, h⟩ := h
    cases h
    rw [resolve, ih resolved]
    rfl
  | binary lhs op rhs ihl ihr =>
    rw [resolve] at h
    simp only [bind_eq_ok, pure_eq_ok] at h
    obtain ⟨left, hleft, right, hright, rfl⟩ := h
    rw [resolve, ihl hleft, ihr hright]
    rfl
  | call function args ih =>
    rw [resolve] at h ⊢
    split at h
    · cases h
    · next known =>
      split at h
      · cases h
      · next single =>
        simp only [bind_eq_ok, pure_eq_ok, resolveAll_eq_ok] at h
        obtain ⟨out, resolved, rfl⟩ := h
        rw [if_neg known, if_neg single, stemmed, stemmedAll_eq_map]
        simp only [bind_eq_ok, pure_eq_ok, resolveAll_eq_ok]
        refine ⟨_, ?_, rfl⟩
        rw [List.forall₂_map_right_iff]
        exact forall₂_imp_of_mem resolved fun arg listed out => ih arg listed

end Expr

/-! ## Resolving -/

namespace Program

variable {p : Program α} {front stem : String} {owner : Located α}

/-- Under a stem components are under it, and constants, of which no reference is left, are what
they were. -/
theorem meaning_stemmed {depth : Nat} {r : Ref} {e : Expr α}
    (h : p.meaning depth (.instantiated stem owner) r = .ok e) :
    p.meaning depth (.instantiated (front ++ stem) owner) r = .ok (e.stemmed front) := by
  rw [meaning_eq_ok_iff] at h ⊢
  obtain ⟨resolved, component, rfl⟩ | ⟨none, bare, inner, constant, rest, binding, looked, more,
    bound, made⟩ := h
  · refine .inl ⟨resolved.stemmed front, ?_, rfl⟩
    by_cases declared : p.declares owner r.head = true
    · rw [componentRef?, if_pos declared] at component
      cases component
      rw [componentRef?, if_pos declared, Ref.stemmed, String.append_assoc]
    · rw [componentRef?, if_neg declared] at component
      cases component
  -- Of a constant no reference is left that the stem could stand in front of.
  · have closed : e.refs = [] := by
      have leaf : p.meaning (rest + 1) (.instantiated stem owner) r = .ok e :=
        meaning_eq_ok_iff.2
          (.inr ⟨none, bare, inner, constant, rest, binding, looked, rfl, bound, made⟩)
      obtain ⟨declared, rfl⟩ | ⟨-, closed⟩ := refs_of_meaning leaf
      · simp [componentRef?, declared] at none
      · exact closed
    have same : e.stemmed front = e := Expr.stemmed_eq_self (by simp [closed])
    rw [same]
    refine .inr ⟨?_, bare, inner, constant, rest, binding, looked, more, bound, made⟩
    simpa [componentRef?] using none

/-- An expression resolved under a stem is the resolved expression under it. -/
theorem resolve_stemmed {e e' : Expr α} (h : p.resolve (.instantiated stem owner) e = .ok e') :
    p.resolve (.instantiated (front ++ stem) owner) e = .ok (e'.stemmed front) :=
  Expr.resolve_stemmed (fun _ _ => meaning_stemmed) h

theorem resolveOptional_stemmed {e e' : Option (Expr α)}
    (h : p.resolveOptional (.instantiated stem owner) e = .ok e') :
    p.resolveOptional (.instantiated (front ++ stem) owner) e =
      .ok (e'.map (·.stemmed front)) := by
  cases e with
  | none =>
    cases h
    rfl
  | some e =>
    rw [resolveOptional] at h ⊢
    simp only [bind_eq_ok, pure_eq_ok] at h ⊢
    obtain ⟨value, resolved, rfl⟩ := h
    exact ⟨_, resolve_stemmed resolved, rfl⟩

mutual
theorem resolveModifier_stemmed : (m : Modifier α) → ∀ m',
    p.resolveModifier (.instantiated stem owner) m = .ok m' →
      p.resolveModifier (.instantiated (front ++ stem) owner) m = .ok (m'.stemmed front)
  | ⟨name, each, value, children⟩ => by
    intro m' h
    rw [resolveModifier] at h ⊢
    simp only [bind_eq_ok, pure_eq_ok] at h ⊢
    obtain ⟨value', hvalue, children', hchildren, rfl⟩ := h
    refine ⟨_, resolveOptional_stemmed hvalue, _,
      resolveModifiers_stemmed children children' hchildren, ?_⟩
    rw [Modifier.stemmed]

/-- Modifiers resolved under a stem are the resolved modifiers under it. -/
theorem resolveModifiers_stemmed : (ms : List (Modifier α)) → ∀ ms',
    p.resolveModifiers (.instantiated stem owner) ms = .ok ms' →
      p.resolveModifiers (.instantiated (front ++ stem) owner) ms =
        .ok (Modifier.stemmedAll front ms')
  | [] => by
    intro ms' h
    cases h
    rfl
  | m :: rest => by
    intro ms' h
    rw [resolveModifiers] at h ⊢
    simp only [bind_eq_ok, pure_eq_ok] at h ⊢
    obtain ⟨m', hm, rest', hrest, rfl⟩ := h
    refine ⟨_, resolveModifier_stemmed m m' hm, _,
      resolveModifiers_stemmed rest rest' hrest, ?_⟩
    rw [Modifier.stemmedAll]
end

end Program

/-! ## Modifications -/

theorem Modifier.name_stemmed (front : String) (m : Modifier α) :
    (m.stemmed front).name = m.name := by
  obtain ⟨name, each, value, children⟩ := m
  rw [Modifier.stemmed]

theorem Modifier.stemmedAll_eq_map (front : String) (ms : List (Modifier α)) :
    Modifier.stemmedAll front ms = ms.map (·.stemmed front) := by
  induction ms with
  | nil => rfl
  | cons m rest ih => rw [Modifier.stemmedAll, ih, List.map_cons]

mutual
theorem Modifier.calls_stemmed (front : String) : (m : Modifier α) →
    (m.stemmed front).calls = m.calls
  | ⟨name, each, value, children⟩ => by
    rw [Modifier.stemmed, Modifier.calls, Modifier.calls, Modifier.callsAll_stemmed front children]
    cases value with
    | none => rfl
    | some e => simp [Expr.calls_stemmed]

theorem Modifier.callsAll_stemmed (front : String) : (ms : List (Modifier α)) →
    Modifier.callsAll (Modifier.stemmedAll front ms) = Modifier.callsAll ms
  | [] => rfl
  | m :: rest => by
    rw [Modifier.stemmedAll, Modifier.callsAll, Modifier.callsAll,
      Modifier.calls_stemmed front m, Modifier.callsAll_stemmed front rest]
end

theorem componentCalls_stemmed (front : String) (binding : Option (Expr α))
    (modifiers : List (Modifier α)) :
    componentCalls (binding.map (·.stemmed front)) (Modifier.stemmedAll front modifiers) =
      componentCalls binding modifiers := by
  rw [componentCalls, componentCalls, Modifier.callsAll_stemmed]
  cases binding with
  | none => rfl
  | some e => simp [Expr.calls_stemmed]

namespace Modification

variable {front : String}

@[simp] theorem stemmed_none : (none : Modification α).stemmed front = none := rfl

theorem stemmed_merge (outer inner : Modification α) :
    (outer.merge inner).stemmed front = (outer.stemmed front).merge (inner.stemmed front) := by
  simp [merge, stemmed]

theorem stemmed_under (name : String) (m : Modification α) :
    (under name m).stemmed front = under name (m.stemmed front) := by
  simp [under, stemmed]

theorem stemmed_ofValue (value : Option (Expr α)) :
    (ofValue value).stemmed front = ofValue (value.map (·.stemmed front)) := by
  cases value <;> rfl

theorem stemmed_child (m : Modification α) (name : String) :
    (m.child name).stemmed front = (m.stemmed front).child name := by
  obtain ⟨settings⟩ := m
  induction settings with
  | nil => rfl
  | cons setting settings ih =>
    obtain ⟨path, e⟩ := setting
    simp only [child, stemmed, List.map_cons, List.filterMap_cons] at ih ⊢
    cases path with
    | nil => exact ih
    | cons first rest =>
      by_cases same : first = name
      · simpa [same] using ih
      · simpa [same] using ih

theorem value?_stemmed (m : Modification α) :
    (m.stemmed front).value? = m.value?.map (·.stemmed front) := by
  obtain ⟨settings⟩ := m
  induction settings with
  | nil => rfl
  | cons setting settings ih =>
    obtain ⟨path, e⟩ := setting
    simp only [value?, valueAt?, stemmed, List.map_cons, List.lookup_cons] at ih ⊢
    split
    · rfl
    · exact ih

mutual
theorem stemmed_ofModifier : (m : Modifier α) →
    (ofModifier m).stemmed front = ofModifier (m.stemmed front)
  | ⟨name, each, value, children⟩ => by
    rw [Modifier.stemmed, ofModifier, ofModifier, stemmed_merge, stemmed_ofValue,
      stemmed_ofModifiers children]

theorem stemmed_ofModifiers : (ms : List (Modifier α)) →
    (ofModifiers ms).stemmed front = ofModifiers (Modifier.stemmedAll front ms)
  | [] => by rw [Modifier.stemmedAll, ofModifiers, stemmed_none]
  | m :: rest => by
    have again : (Modifier.stemmedAll front rest).any (·.name == (m.stemmed front).name) =
        rest.any (·.name == m.name) := by
      rw [Modifier.stemmedAll_eq_map, List.any_map]
      simp only [Function.comp_def, Modifier.name_stemmed]
    rw [Modifier.stemmedAll, ofModifiers, ofModifiers, again]
    split
    · exact stemmed_ofModifiers rest
    · rw [stemmed_merge, stemmed_under, stemmed_ofModifier m, stemmed_ofModifiers rest,
        Modifier.name_stemmed]
end

theorem stemmed_ofComponent (m : Modification α) (name : String) (binding : Option (Expr α))
    (modifiers : List (Modifier α)) :
    (m.ofComponent name binding modifiers).stemmed front =
      (m.stemmed front).ofComponent name (binding.map (·.stemmed front))
        (Modifier.stemmedAll front modifiers) := by
  rw [ofComponent, ofComponent, stemmed_merge, stemmed_merge, stemmed_child, stemmed_ofValue,
    stemmed_ofModifiers]

end Modification

/-! ## Flat models -/

/-- Items that are found by a test that does not see the stem. -/
theorem find?_map_of_same {β : Type} {f : β → β} {test test' : β → Bool}
    (same : ∀ x, test' (f x) = test x) (l : List β) :
    (l.map f).find? test' = (l.find? test).map f := by
  rw [List.find?_map]
  congr 2
  funext x
  exact same x

namespace FlatModel

variable {front name : String} {m : FlatModel α}

theorem declared?_stemmed (x : String) :
    (m.stemmed front name).declared? (front ++ x) = m.declared? x := by
  have ofVariable : (m.stemmed front name).variableNamed? (front ++ x) =
      (m.variableNamed? x).map (·.stemmed front) :=
    find?_map_of_same (fun v => stem_beq_stem front v.name x) m.unknowns
  have ofParameter : (m.stemmed front name).parameterNamed? (front ++ x) =
      (m.parameterNamed? x).map (·.stemmed front) :=
    find?_map_of_same (fun q => stem_beq_stem front q.name x) m.parameters
  unfold declared?
  rw [ofVariable, ofParameter]
  cases m.variableNamed? x with
  | some v => rfl
  | none => cases m.parameterNamed? x <;> rfl

theorem arraySize?_stemmed (x : String) :
    (m.stemmed front name).arraySize? (front ++ x) = m.arraySize? x := by
  unfold arraySize? stemmed
  rw [← List.map_reverse, List.findSome?_map]
  congr 1
  funext v
  have same : front ++ v.name = front ++ x ↔ v.name = x := by
    have := stem_beq_stem front v.name x
    rwa [Bool.eq_iff_iff, beq_iff_eq, beq_iff_eq] at this
  simp only [Function.comp_apply, FlatVariable.stemmed, same]

/-! ### Checking -/

theorem checkRef_stemmed {r : Ref} (h : m.checkRef r = .ok ()) :
    (m.stemmed front name).checkRef (r.stemmed front) = .ok () := by
  unfold checkRef at h ⊢
  rw [Ref.stemmed, declared?_stemmed]
  revert h
  cases m.declared? r.name with
  | none => simp
  | some size =>
    cases size with
    | none => cases r.index <;> simp
    | some n =>
      cases r.index with
      | none => simp
      | some i =>
        simp only
        split <;> simp

theorem checkExpr_stemmed {e : Expr α} (h : m.checkExpr e = .ok ()) :
    (m.stemmed front name).checkExpr (e.stemmed front) = .ok () := by
  unfold checkExpr at h ⊢
  rw [Expr.refs_stemmed, forM_eq_ok]
  rw [forM_eq_ok] at h
  intro r hr
  obtain ⟨inner, listed, rfl⟩ := List.mem_map.1 hr
  exact checkRef_stemmed (h inner listed)

theorem expressions_stemmed :
    (m.stemmed front name).expressions = m.expressions.map (·.stemmed front) := by
  simp only [expressions, stemmed, List.map_append, List.map_map, List.map_filterMap,
    List.filterMap_map, List.map_flatMap, List.flatMap_map]
  rfl

/-- What fits its model fits it under a stem. -/
theorem checkReferences_stemmed (h : m.checkReferences = .ok ()) :
    (m.stemmed front name).checkReferences = .ok () := by
  rw [checkReferences_eq_ok] at h ⊢
  rw [expressions_stemmed, List.forall_mem_map]
  exact fun e he => checkExpr_stemmed (h e he)

/-! ### Expanding arrays -/

section
variable {size? size?' : String → Option Nat} {element : Option Nat}

theorem scalarRef_stemmed (sized : ∀ x, size?' (front ++ x) = size? x) (r r' : Ref)
    (h : scalarRef (α := α) size? element r = .ok r') :
    scalarRef (α := α) size?' element (r.stemmed front) = .ok (r'.stemmed front) := by
  obtain ⟨x, index⟩ := r
  unfold scalarRef at h ⊢
  simp only [Ref.stemmed, sized] at h ⊢
  revert h
  cases index with
  | none =>
    cases size? x with
    | none =>
      rintro ⟨⟩
      rfl
    | some n =>
      rintro ⟨⟩
      simp only [Except.ok.injEq, Ref.mk.injEq, and_true]
      exact Ref.flatName_stemmed front ⟨x, element⟩
  | some i =>
    cases size? x with
    | none =>
      rintro ⟨⟩
    | some n =>
      simp only
      split
      · rintro ⟨⟩
      · rintro ⟨⟩
        simp only [Except.ok.injEq, Ref.mk.injEq, and_true]
        exact Ref.flatName_stemmed front ⟨x, some i⟩

theorem scalarEquation_stemmed (sized : ∀ x, size?' (front ++ x) = size? x) {e e' : Equation α}
    (h : scalarEquation size? element e = .ok e') :
    scalarEquation size?' element (e.stemmed front) = .ok (e'.stemmed front) := by
  unfold scalarEquation at h ⊢
  simp only [bind_eq_ok, pure_eq_ok] at h ⊢
  obtain ⟨lhs, left, rhs, right, rfl⟩ := h
  exact ⟨_, Expr.mapRefs_stemmed (scalarRef_stemmed sized) left, _,
    Expr.mapRefs_stemmed (scalarRef_stemmed sized) right, rfl⟩

theorem wholeSizes_stemmed (sized : ∀ x, size?' (front ++ x) = size? x) (e : Equation α) :
    wholeSizes size?' (e.stemmed front) = wholeSizes size? e := by
  unfold wholeSizes
  rw [Equation.stemmed, Expr.refs_stemmed, Expr.refs_stemmed, ← List.map_append,
    List.filterMap_map]
  congr 1
  funext r
  simp only [Function.comp_apply, Ref.stemmed, sized]

theorem width?_stemmed (sized : ∀ x, size?' (front ++ x) = size? x) {e : Equation α}
    {width : Option Nat} (h : width? size? e = .ok width) :
    width? size?' (e.stemmed front) = .ok width := by
  revert h
  unfold width?
  rw [wholeSizes_stemmed sized]
  cases wholeSizes size? e with
  | nil => exact id
  | cons n more =>
    simp only
    split
    · exact id
    · rintro ⟨⟩

theorem scalarEquations_stemmed (sized : ∀ x, size?' (front ++ x) = size? x) {e : Equation α}
    {es : List (Equation α)} (h : scalarEquations size? e = .ok es) :
    scalarEquations size?' (e.stemmed front) = .ok (es.map (·.stemmed front)) := by
  unfold scalarEquations at h ⊢
  rw [bind_eq_ok] at h ⊢
  obtain ⟨width, hwidth, h⟩ := h
  refine ⟨width, width?_stemmed sized hwidth, ?_⟩
  cases width with
  | none =>
    simp only [bind_eq_ok, pure_eq_ok] at h ⊢
    obtain ⟨e', made, rfl⟩ := h
    exact ⟨_, scalarEquation_stemmed sized made, rfl⟩
  | some n =>
    simp only [mapM_eq_ok] at h ⊢
    rw [List.forall₂_map_right_iff]
    exact h.imp fun _ _ => scalarEquation_stemmed sized

end

theorem scalarVariables_stemmed (v : FlatVariable α) :
    scalarVariables (v.stemmed front) = (scalarVariables v).map (·.stemmed front) := by
  obtain ⟨x, size, start⟩ := v
  cases size with
  | none => rfl
  | some n => simp [scalarVariables, FlatVariable.stemmed, elementName_stemmed]

/-- The scalar form of a model under a stem is its scalar form under it. -/
theorem scalarize_stemmed {s : FlatModel α} (h : m.scalarize = .ok s) :
    (m.stemmed front name).scalarize = .ok (s.stemmed front name) := by
  rw [scalarize_eq_ok] at h ⊢
  obtain ⟨groups, expanded, rfl⟩ := h
  refine ⟨groups.map (·.map (·.stemmed front)), ?_, ?_⟩
  · rw [stemmed, List.forall₂_map_right_iff, List.forall₂_map_left_iff]
    exact expanded.imp fun _ _ => scalarEquations_stemmed arraySize?_stemmed
  · simp only [stemmed, List.map_flatMap, List.flatMap_map, List.map_flatten,
      scalarVariables_stemmed]

end FlatModel

end Acausal
