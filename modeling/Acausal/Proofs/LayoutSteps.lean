-- The steps of a layout. A step that succeeds adds the calls it comes across and then a
-- declaration, an equation, or what the layout of another class adds. What each of these keeps,
-- a whole layout keeps, whatever classes it leads to; and nothing once added is lost. A step
-- that fails does so for a reason of its own or because the layout of another class does.
import Acausal.Instance.Basic
import Acausal.Proofs.Success

namespace Acausal

variable {α : Type}

/-! ## Components -/

/-- What holds for a component: first what is said of it from outside, then its own binding, and
then its own modifiers. -/
def Modification.ofComponent (m : Modification α) (name : String) (binding : Option (Expr α))
    (modifiers : List (Modifier α)) : Modification α :=
  (m.child name).merge ((Modification.ofValue binding).merge (.ofModifiers modifiers))

/-- The functions called in the binding and the modifiers of a component. -/
def componentCalls (binding : Option (Expr α)) (modifiers : List (Modifier α)) : List String :=
  binding.toList.flatMap (·.calls) ++ Modifier.callsAll modifiers

namespace Instance

variable {p : Program α} {inner : Layout α} {owner : Located α} {stem name : String}
  {m : Modification α} {i i' : Instance α}

/-- A number is declared under a new name, as a variable with the equation that its value gives,
or as a parameter with its value. -/
theorem declare_eq_ok {decl : Component α} :
    i.declare name decl m = .ok i' ↔
      i.model.declared? name = none ∧
        (decl.variability = .continuous ∧
            (m.value? = none ∧ i' = i.addVariable ⟨name, decl.size, (m.child "start").value?⟩ ∨
              ∃ value, m.value? = some value ∧
                i' = (i.addVariable ⟨name, decl.size, (m.child "start").value?⟩).addEquation
                  ⟨.ref ⟨name, none⟩, value⟩) ∨
          decl.variability ≠ .continuous ∧ decl.size = none ∧ ∃ value, m.value? = some value ∧
            i' = i.addParameter ⟨name, value, decl.variability = .constant⟩) := by
  unfold declare
  cases new : i.model.declared? name with
  | some size => simp
  | none =>
    simp only [Option.isSome_none, Bool.false_eq_true, if_false, true_and]
    by_cases changes : decl.variability = .continuous
    · rw [if_pos changes]
      cases m.value? <;> simp [changes, eq_comm]
    · rw [if_neg changes]
      cases decl.size <;> cases m.value? <;> simp [changes, eq_comm]

theorem addBase_eq_ok {clause : Extends α} :
    addBase p inner owner stem m i clause = .ok i' ↔
      ∃ base modifiers, p.resolve? owner.path (segments clause.base) = some base ∧
        p.resolveModifiers (.instantiated stem owner) clause.modifiers = .ok modifiers ∧
          inner base stem (m.merge (.ofModifiers modifiers))
            (i.addCalls (Modifier.callsAll modifiers)) = .ok i' := by
  unfold addBase
  cases p.resolve? owner.path (segments clause.base) with
  | none => simp
  | some base =>
    cases p.resolveModifiers (.instantiated stem owner) clause.modifiers <;> simp

theorem addPart_eq_ok {decl : Component α} :
    addPart p inner owner name m i decl = .ok i' ↔
      decl.size = none ∧ ∃ type, p.resolve? owner.path (segments decl.typeName) = some type ∧
        type.decl.kind ≠ .package ∧ type.decl.isPartial = false ∧
          inner type (name ++ ".") m i = .ok i' := by
  unfold addPart
  cases decl.size with
  | some n => simp
  | none =>
    cases p.resolve? owner.path (segments decl.typeName) with
    | none => simp
    | some type =>
      by_cases package : type.decl.kind = .package
      · simp [package]
      · by_cases whole : type.decl.isPartial = true
        · simp [whole]
        · simp [package, whole, mapError_eq_ok]

/-- A component is declared as a number, or its class is laid out under its name. -/
theorem addComponent_eq_ok {decl : Component α} :
    addComponent p inner owner stem m i decl = .ok i' ↔
      ∃ binding modifiers,
        p.resolveOptional (.instantiated stem owner) decl.binding = .ok binding ∧
          p.resolveModifiers (.instantiated stem owner) decl.modifiers = .ok modifiers ∧
            (decl.isBuiltin = true ∧
                (i.addCalls (componentCalls binding modifiers)).declare (stem ++ decl.name) decl
                  (m.ofComponent decl.name binding modifiers) = .ok i' ∨
              decl.isBuiltin = false ∧
                addPart p inner owner (stem ++ decl.name)
                  (m.ofComponent decl.name binding modifiers)
                  (i.addCalls (componentCalls binding modifiers)) decl = .ok i') := by
  unfold addComponent
  cases p.resolveOptional (.instantiated stem owner) decl.binding with
  | error e => simp
  | ok binding =>
    cases p.resolveModifiers (.instantiated stem owner) decl.modifiers with
    | error e => simp
    | ok modifiers => cases decl.isBuiltin <;> simp [Modification.ofComponent, componentCalls]

theorem addResolved_eq_ok {e : Equation α} :
    addResolved p owner stem i e = .ok i' ↔
      ∃ lhs rhs, p.resolve (.instantiated stem owner) e.lhs = .ok lhs ∧
        p.resolve (.instantiated stem owner) e.rhs = .ok rhs ∧
          i' = (i.addCalls (lhs.calls ++ rhs.calls)).addEquation ⟨lhs, rhs⟩ := by
  unfold addResolved
  cases p.resolve (.instantiated stem owner) e.lhs with
  | error e => simp
  | ok lhs => cases p.resolve (.instantiated stem owner) e.rhs <;> simp [eq_comm]

/-! ## Classes -/

/-- A class that may be entered is laid out element by element and then equation by equation;
the classes it leads to may not enter it again. -/
theorem layout_eq_ok {free : List ClassPath} {c : Located α} :
    Instance.layout p free c stem m i = .ok i' ↔
      c.path ∈ free ∧ ∃ middle,
        c.decl.elements.foldlM
            (addElement p (Instance.layout p (without c.path free)) c stem m)
            (i.addClass c.path) = .ok middle ∧
          c.decl.equations.foldlM (addResolved p c stem) middle = .ok i' := by
  rw [Instance.layout]
  by_cases entered : c.path ∈ free
  · rw [dif_pos entered, bind_eq_ok]
    exact (and_iff_right entered).symm
  · rw [dif_neg entered]
    simp [entered]

/-! ## What the steps keep -/

/-- A property of instances that the steps of a layout keep in the classes, under the stems and
with the modifications that `At` holds of, which it goes on to hold of in what they lead to. -/
structure Kept (p : Program α) (At : Located α → String → Modification α → Prop)
    (P : Instance α → Prop) : Prop where
  base : ∀ c stem m clause base modifiers, At c stem m → .inherit clause ∈ c.decl.elements →
    p.resolve? c.path (segments clause.base) = some base →
    p.resolveModifiers (.instantiated stem c) clause.modifiers = .ok modifiers →
    At base stem (m.merge (.ofModifiers modifiers))
  part : ∀ c stem m decl type binding modifiers, At c stem m →
    .component decl ∈ c.decl.elements → decl.isBuiltin = false →
    p.resolve? c.path (segments decl.typeName) = some type →
    p.resolveModifiers (.instantiated stem c) decl.modifiers = .ok modifiers →
    At type (stem ++ decl.name ++ ".") (m.ofComponent decl.name binding modifiers)
  addClass : ∀ c stem m i, At c stem m → P i → P (i.addClass c.path)
  addCalls : ∀ i names, P i → P (i.addCalls names)
  addEquation : ∀ i e, P i → P (i.addEquation e)
  declare : ∀ c stem m decl binding modifiers i i', At c stem m →
    .component decl ∈ c.decl.elements → decl.isBuiltin = true →
    p.resolveOptional (.instantiated stem c) decl.binding = .ok binding →
    p.resolveModifiers (.instantiated stem c) decl.modifiers = .ok modifiers → P i →
    i.declare (stem ++ decl.name) decl (m.ofComponent decl.name binding modifiers) = .ok i' → P i'

namespace Kept

variable {At : Located α → String → Modification α → Prop} {P : Instance α → Prop}

theorem addElement (kept : Kept p At P)
    (deeper : ∀ c stem m i i', At c stem m → P i → inner c stem m i = .ok i' → P i')
    (here : At owner stem m) {element : Element α} (listed : element ∈ owner.decl.elements)
    (holds : P i) (h : addElement p inner owner stem m i element = .ok i') : P i' := by
  cases element with
  | nested decl =>
    cases h
    exact holds
  | inherit clause =>
    obtain ⟨base, modifiers, found, resolved, laid⟩ := addBase_eq_ok.1 h
    exact deeper _ _ _ _ _ (kept.base _ _ _ _ _ _ here listed found resolved)
      (kept.addCalls _ _ holds) laid
  | component decl =>
    obtain ⟨binding, modifiers, bound, resolved, ⟨number, declared⟩ | ⟨part, added⟩⟩ :=
      addComponent_eq_ok.1 h
    · exact kept.declare _ _ _ _ _ _ _ _ here listed number bound resolved
        (kept.addCalls _ _ holds) declared
    · obtain ⟨-, type, found, -, -, laid⟩ := addPart_eq_ok.1 added
      exact deeper _ _ _ _ _ (kept.part _ _ _ _ _ binding _ here listed part found resolved)
        (kept.addCalls _ _ holds) laid

theorem addResolved (kept : Kept p At P) {e : Equation α} (holds : P i)
    (h : addResolved p owner stem i e = .ok i') : P i' := by
  obtain ⟨lhs, rhs, -, -, rfl⟩ := addResolved_eq_ok.1 h
  exact kept.addEquation _ _ (kept.addCalls _ _ holds)

/-- What the steps keep, laying out a class keeps. -/
theorem layout (kept : Kept p At P) (free : List ClassPath) {c : Located α} (here : At c stem m)
    (holds : P i) (h : Instance.layout p free c stem m i = .ok i') : P i' := by
  induction hn : free.length using Nat.strongRecOn generalizing free c stem m i i' with
  | ind n ih =>
    obtain ⟨entered, middle, elements, equations⟩ := layout_eq_ok.1 h
    have laid : P middle := by
      refine foldlM_keeps (fun _ element listed _ holds step => ?_)
        (kept.addClass _ _ _ _ here holds) elements
      refine kept.addElement (fun c stem m i i' here holds h => ?_) here listed holds step
      exact ih _ (hn ▸ length_without_lt entered) _ here holds h rfl
    exact foldlM_keeps (fun _ _ _ _ => kept.addResolved) laid equations

end Kept

/-- A property of instances that every single step of a layout keeps. -/
structure Stable (P : Instance α → Prop) : Prop where
  addClass : ∀ i path, P i → P (i.addClass path)
  addCalls : ∀ i names, P i → P (i.addCalls names)
  addEquation : ∀ i e, P i → P (i.addEquation e)
  declare : ∀ i name decl m i', P i → i.declare name decl m = .ok i' → P i'

theorem Stable.kept {P : Instance α → Prop} (stable : Stable P) (p : Program α) :
    Kept p (fun _ _ _ => True) P where
  base _ _ _ _ _ _ _ _ _ _ := trivial
  part _ _ _ _ _ _ _ _ _ _ _ _ := trivial
  addClass c _ _ i _ := stable.addClass i c.path
  addCalls := stable.addCalls
  addEquation := stable.addEquation
  declare _ _ _ _ _ _ _ _ _ _ _ _ _ := stable.declare _ _ _ _ _

/-- What every step keeps, laying out a class keeps, whatever classes it leads to. -/
theorem Stable.layout {P : Instance α → Prop} (stable : Stable P) {free : List ClassPath}
    {c : Located α} (holds : P i) (h : layout p free c stem m i = .ok i') : P i' :=
  (stable.kept p).layout free trivial holds h

/-! ## One instance after another -/

/-- An instance with all that an earlier one has. -/
def Precedes (i i' : Instance α) : Prop := ∀ P : Instance α → Prop, Stable P → P i → P i'

theorem Precedes.refl (i : Instance α) : Precedes i i := fun _ _ => id

theorem Precedes.trans {i'' : Instance α} (h : Precedes i i') (h' : Precedes i' i'') :
    Precedes i i'' := fun P stable holds => h' P stable (h P stable holds)

/-- Adding elements of a class keeps what there is. -/
theorem precedes_of_elements {free : List ClassPath} {c : Located α} {elements : List (Element α)}
    (within : elements ⊆ c.decl.elements)
    (h : elements.foldlM (addElement p (layout p free) c stem m) i = .ok i') : Precedes i i' :=
  fun _ stable holds => foldlM_keeps (fun _ _ listed _ =>
    (stable.kept p).addElement (fun _ _ _ _ _ _ => stable.layout) trivial (within listed)) holds h

theorem precedes_of_equations {c : Located α} {equations : List (Equation α)}
    (h : equations.foldlM (addResolved p c stem) i = .ok i') : Precedes i i' :=
  fun _ stable holds => foldlM_keeps (fun _ _ _ _ => (stable.kept p).addResolved) holds h

theorem precedes_of_layout {free : List ClassPath} {c : Located α}
    (h : layout p free c stem m i = .ok i') : Precedes (i.addClass c.path) i' := by
  obtain ⟨_, middle, elements, equations⟩ := layout_eq_ok.1 h
  exact (precedes_of_elements (List.Subset.refl _) elements).trans (precedes_of_equations equations)

/-- Among some elements each has its step, which keeps what there was and is kept. -/
theorem exists_step_of_elements {free : List ClassPath} {c : Located α}
    {elements : List (Element α)} (within : elements ⊆ c.decl.elements)
    (h : elements.foldlM (addElement p (layout p free) c stem m) i = .ok i') {element : Element α}
    (listed : element ∈ elements) :
    ∃ t t', Precedes i t ∧ addElement p (layout p free) c stem m t element = .ok t' ∧
      Precedes t' i' := by
  obtain ⟨before, later, rfl⟩ := List.append_of_mem listed
  rw [List.foldlM_append, bind_eq_ok] at h
  obtain ⟨t, earlier, h⟩ := h
  rw [List.foldlM_cons, bind_eq_ok] at h
  obtain ⟨t', added, h⟩ := h
  refine ⟨t, t', precedes_of_elements (fun _ first => within ?_) earlier, added,
    precedes_of_elements (fun _ last => within ?_) h⟩
  · exact List.mem_append_left _ first
  · exact List.mem_append_right before (List.mem_cons_of_mem _ last)

/-- A layout adds each element of its class, keeps what there was before, and keeps what this
adds. -/
theorem exists_step_of_layout {free : List ClassPath} {c : Located α}
    (h : layout p free c stem m i = .ok i') {element : Element α}
    (listed : element ∈ c.decl.elements) :
    ∃ t t', Precedes (i.addClass c.path) t ∧
      addElement p (layout p (without c.path free)) c stem m t element = .ok t' ∧
      Precedes t' i' := by
  obtain ⟨_, middle, elements, equations⟩ := layout_eq_ok.1 h
  obtain ⟨t, t', before, added, later⟩ :=
    exists_step_of_elements (List.Subset.refl _) elements listed
  exact ⟨t, t', before, added, later.trans (precedes_of_equations equations)⟩

/-- Of two elements of a class the later one is added to what the earlier one added. -/
theorem exists_steps_of_layout {free : List ClassPath} {c : Located α}
    (h : layout p free c stem m i = .ok i') {first second : Element α}
    (order : [first, second].Sublist c.decl.elements) :
    ∃ s s' t t', addElement p (layout p (without c.path free)) c stem m s first = .ok s' ∧
      Precedes s' t ∧
      addElement p (layout p (without c.path free)) c stem m t second = .ok t' := by
  obtain ⟨_, middle, elements, -⟩ := layout_eq_ok.1 h
  obtain ⟨before, after, cut, early, late⟩ := List.cons_sublist_iff.1 order
  rw [List.singleton_sublist] at late
  rw [cut, List.foldlM_append, bind_eq_ok] at elements
  obtain ⟨between, earlier, elements⟩ := elements
  obtain ⟨s, s', -, added, precedes⟩ :=
    exists_step_of_elements (by simp [cut]) earlier early
  obtain ⟨t, t', precedes', added', -⟩ :=
    exists_step_of_elements (by simp [cut]) elements late
  exact ⟨s, s', t, t', added, precedes.trans precedes', added'⟩

/-! ## Why steps fail -/

/-- A number is not declared where its name is taken, as an array that is a parameter, or as a
parameter without a value. -/
theorem declare_error {decl : Component α} {e : InstanceError α}
    (h : i.declare name decl m = .error e) :
    (i.model.declared? name).isSome ∧ e = .duplicate name ∨ e = .arrayParameter name ∨
      e = .parameterWithoutValue name := by
  unfold declare at h
  split at h
  · next taken =>
    cases h
    exact .inl ⟨taken, rfl⟩
  · split at h
    · dsimp only at h
      split at h <;> cases h
    · split at h
      · cases h
        exact .inr (.inl rfl)
      · split at h
        · cases h
          exact .inr (.inr rfl)
        · cases h

/-- Why an element cannot be added: for a reason of its own, or because a class that it brings in
cannot be laid out from the same declarations. -/
inductive ElementFails (p : Program α) (inner : Layout α) (owner : Located α) (stem : String)
    (i : Instance α) : Element α → InstanceError α → Prop
  | unresolved {element : Element α} (cause : ResolveError) :
    ElementFails p inner owner stem i element (.unresolved cause)
  | baseNotFound (clause : Extends α) :
    ElementFails p inner owner stem i (.inherit clause) (.baseNotFound clause.base)
  | inBase {clause : Extends α} {base : Located α} {m : Modification α} {t : Instance α}
      {e : InstanceError α} (found : p.resolve? owner.path (segments clause.base) = some base)
      (same : t.model = i.model) (fails : inner base stem m t = .error e) :
    ElementFails p inner owner stem i (.inherit clause) e
  | duplicate {decl : Component α} (number : decl.isBuiltin = true)
      (taken : (i.model.declared? (stem ++ decl.name)).isSome) :
    ElementFails p inner owner stem i (.component decl) (.duplicate (stem ++ decl.name))
  | arrayParameter (decl : Component α) :
    ElementFails p inner owner stem i (.component decl) (.arrayParameter (stem ++ decl.name))
  | parameterWithoutValue (decl : Component α) :
    ElementFails p inner owner stem i (.component decl)
      (.parameterWithoutValue (stem ++ decl.name))
  | arrayOfComponents (decl : Component α) :
    ElementFails p inner owner stem i (.component decl) (.arrayOfComponents (stem ++ decl.name))
  | typeNotFound (decl : Component α) :
    ElementFails p inner owner stem i (.component decl)
      (.typeNotFound decl.typeName (stem ++ decl.name))
  | unsuitableType (decl : Component α) :
    ElementFails p inner owner stem i (.component decl)
      (.unsuitableType (stem ++ decl.name) decl.typeName)
  | inPart {decl : Component α} {type : Located α} {m : Modification α} {t : Instance α}
      {cause : InstanceError α} (whole : decl.isBuiltin = false)
      (found : p.resolve? owner.path (segments decl.typeName) = some type)
      (same : t.model = i.model)
      (fails : inner type (stem ++ decl.name ++ ".") m t = .error cause) :
    ElementFails p inner owner stem i (.component decl) (.inComponent (stem ++ decl.name) cause)

theorem fails_of_addElement {element : Element α} {e : InstanceError α}
    (h : Instance.addElement p inner owner stem m i element = .error e) :
    ElementFails p inner owner stem i element e := by
  cases element with
  | nested decl => cases h
  | inherit clause =>
    change addBase p inner owner stem m i clause = .error e at h
    unfold addBase at h
    split at h
    · cases h
      exact .baseNotFound clause
    · next base found =>
      split at h
      · cases h
        exact .unresolved _
      · refine .inBase found ?_ h
        rfl
  | component decl =>
    change addComponent p inner owner stem m i decl = .error e at h
    unfold addComponent at h
    split at h
    · cases h
      exact .unresolved _
    · split at h
      · cases h
        exact .unresolved _
      · dsimp only at h
        split at h
        · next number =>
          obtain ⟨taken, rfl⟩ | rfl | rfl := declare_error h
          · exact .duplicate number taken
          · exact .arrayParameter decl
          · exact .parameterWithoutValue decl
        · next part =>
          unfold addPart at h
          split at h
          · cases h
            exact .arrayOfComponents decl
          · split at h
            · cases h
              exact .typeNotFound decl
            · next type found =>
              split at h
              · cases h
                exact .unsuitableType decl
              · obtain ⟨cause, fails, rfl⟩ := mapError_eq_error.1 h
                refine .inPart (by simpa using part) found ?_ fails
                rfl

theorem addResolved_error {q : Equation α} {e : InstanceError α}
    (h : addResolved p owner stem i q = .error e) : ∃ cause, e = .unresolved cause := by
  unfold addResolved at h
  split at h
  · cases h
    exact ⟨_, rfl⟩
  · split at h
    · cases h
      exact ⟨_, rfl⟩
    · cases h

/-- A class cannot be laid out if it may not be entered, if one of its elements cannot be added
after those before it, or if a reference in its equations has no meaning. -/
theorem layout_error {free : List ClassPath} {c : Located α} {e : InstanceError α}
    (h : layout p free c stem m i = .error e) :
    c.path ∉ free ∧ e = .recursive (dotted c.path) ∨
      c.path ∈ free ∧
        ((∃ before element after t, c.decl.elements = before ++ element :: after ∧
            before.foldlM (addElement p (layout p (without c.path free)) c stem m)
              (i.addClass c.path) = .ok t ∧
            ElementFails p (layout p (without c.path free)) c stem t element e) ∨
          ∃ cause, e = .unresolved cause) := by
  rw [layout] at h
  split at h
  · next entered =>
    refine .inr ⟨entered, ?_⟩
    rcases bind_eq_error.1 h with elements | ⟨_, -, equations⟩
    · obtain ⟨before, element, after, t, cut, earlier, fails⟩ :=
        exists_cut_of_foldlM_error elements
      exact .inl ⟨before, element, after, t, cut, earlier, fails_of_addElement fails⟩
    · obtain ⟨_, q, -, fails⟩ := foldlM_error equations
      exact .inr (addResolved_error fails)
  · next barred =>
    cases h
    exact .inl ⟨barred, rfl⟩

end Instance

/-! ## Instances -/

/-- References that do not fit are reported with the place they stand at. -/
theorem FlatModel.checkReferences_error {m : FlatModel α} {e : InstanceError α}
    (h : m.checkReferences = .error e) :
    ∃ cause, e = .inEquation cause ∨
      ∃ name, e = .inBinding name cause ∨ e = .inStart name cause := by
  unfold checkReferences at h
  rcases bind_eq_error.1 h with parameters | ⟨_, -, h⟩
  · obtain ⟨p, -, fails⟩ := forM_error parameters
    obtain ⟨cause, -, rfl⟩ := mapError_eq_error.1 fails
    exact ⟨cause, .inr ⟨p.name, .inl rfl⟩⟩
  · rcases bind_eq_error.1 h with unknowns | ⟨_, -, equations⟩
    · obtain ⟨v, -, fails⟩ := forM_error unknowns
      split at fails
      · cases fails
      · obtain ⟨cause, -, rfl⟩ := mapError_eq_error.1 fails
        exact ⟨cause, .inr ⟨v.name, .inr rfl⟩⟩
    · obtain ⟨q, -, fails⟩ := forM_error equations
      rcases bind_eq_error.1 fails with side | ⟨_, -, side⟩
      · obtain ⟨cause, -, rfl⟩ := mapError_eq_error.1 side
        exact ⟨cause, .inl rfl⟩
      · obtain ⟨cause, -, rfl⟩ := mapError_eq_error.1 side
        exact ⟨cause, .inl rfl⟩

/-- An instance is the layout of a whole class that is no package, once its references are
checked, and in scalar form on request. -/
theorem Program.instantiate_eq_ok {p : Program α} {name : String} {scalar : Bool}
    {i : Instance α} :
    p.instantiate name scalar = .ok i ↔
      ∃ decl j, p.find? (segments name) = some decl ∧ decl.isPartial = false ∧
        decl.kind ≠ .package ∧
        Instance.layout p p.paths ⟨segments name, decl⟩ "" .none (.empty name) = .ok j ∧
        j.model.checkReferences = .ok () ∧
        (scalar = false ∧ i = j ∨
          scalar = true ∧ ∃ model, j.model.scalarize = .ok model ∧ i = { j with model }) := by
  unfold instantiate
  cases found : p.find? (segments name) with
  | none => simp
  | some decl =>
    by_cases whole : decl.isPartial = true
    · simp [whole]
    · by_cases package : decl.kind = .package
      · simp [whole, package]
      · simp only [if_neg whole, if_neg package, bind_eq_ok, Option.some.injEq]
        constructor
        · rintro ⟨j, laid, _, checked, h⟩
          refine ⟨decl, j, rfl, by simpa using whole, package, laid, checked, ?_⟩
          cases scalar with
          | false => exact .inl ⟨rfl, (pure_eq_ok.1 h).symm⟩
          | true =>
            cases expanded : j.model.scalarize with
            | error cause => simp [expanded] at h
            | ok model =>
              simp only [expanded, if_true] at h
              exact .inr ⟨rfl, model, rfl, (pure_eq_ok.1 h).symm⟩
        · rintro ⟨_, j, rfl, -, -, laid, checked, ⟨rfl, rfl⟩ | ⟨rfl, model, expanded, rfl⟩⟩
          · exact ⟨i, laid, (), checked, rfl⟩
          · refine ⟨j, laid, (), checked, ?_⟩
            simp only [expanded, if_true]
            rfl

/-- There is no instance where there is no such class or it cannot have one, where its layout
fails, where a reference does not fit, or where its arrays cannot be expanded. -/
theorem Program.instantiate_error {p : Program α} {name : String} {scalar : Bool}
    {e : InstanceError α} (h : p.instantiate name scalar = .error e) :
    (e = .classNotFound name ∨ e = .partialModel name ∨ e = .packageModel name) ∨
      (∃ decl, p.find? (segments name) = some decl ∧
        Instance.layout p p.paths ⟨segments name, decl⟩ "" .none (.empty name) = .error e) ∨
      (∃ cause, e = .inEquation cause ∨ ∃ place, e = .inBinding place cause ∨
        e = .inStart place cause) ∨
      scalar = true ∧ ∃ cause, e = .shape cause := by
  unfold instantiate at h
  cases found : p.find? (segments name) with
  | none =>
    rw [found] at h
    cases h
    exact .inl (.inl rfl)
  | some decl =>
    rw [found] at h
    dsimp only at h
    split at h
    · cases h
      exact .inl (.inr (.inl rfl))
    · split at h
      · cases h
        exact .inl (.inr (.inr rfl))
      · refine .inr ?_
        rcases bind_eq_error.1 h with layout | ⟨j, -, h⟩
        · exact .inl ⟨decl, rfl, layout⟩
        · rcases bind_eq_error.1 h with checked | ⟨_, -, h⟩
          · exact .inr (.inl (FlatModel.checkReferences_error checked))
          · split at h
            · next expands =>
              split at h
              · cases h
                exact .inr (.inr ⟨expands, _, rfl⟩)
              · cases h
            · cases h

end Acausal
