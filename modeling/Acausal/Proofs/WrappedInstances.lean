-- Instances inside a wrapper. What a layout adds under one stem it adds under every other, with
-- the other stem in front of all names. So a model with one component of a class has what the
-- class has, under the name of the component, and a model that extends a class has just what the
-- class has, in every program that finds the classes of the original one.
import Acausal.Proofs.StemmedModels

namespace Acausal

variable {α : Type}

/-! ## Instances under a stem -/

namespace Instance

/-- An instance moved under a stem, with one more class that was come across. -/
def stemmed (front name : String) (i : Instance α) : Instance α :=
  ⟨i.model.stemmed front name, i.cache.addClass name⟩

section
variable {front name : String} {i i' : Instance α} {m : Modification α}

theorem stemmed_addClass (path : ClassPath) :
    (i.addClass path).stemmed front name = (i.stemmed front name).addClass path := by
  simp only [stemmed, addClass, FunctionCache.addClass]
  rw [Table.insert_comm _ fun _ => rfl]

theorem stemmed_addCalls (names : List String) :
    (i.addCalls names).stemmed front name = (i.stemmed front name).addCalls names := rfl

theorem stemmed_addParameter (q : FlatParameter α) :
    (i.addParameter q).stemmed front name =
      (i.stemmed front name).addParameter (q.stemmed front) := by
  simp [stemmed, addParameter, FlatModel.stemmed]

theorem stemmed_addVariable (v : FlatVariable α) :
    (i.addVariable v).stemmed front name =
      (i.stemmed front name).addVariable (v.stemmed front) := by
  simp [stemmed, addVariable, FlatModel.stemmed]

theorem stemmed_addEquation (e : Equation α) :
    (i.addEquation e).stemmed front name =
      (i.stemmed front name).addEquation (e.stemmed front) := by
  simp [stemmed, addEquation, FlatModel.stemmed]

/-- A number is declared under a stem as it is without. -/
theorem declare_stemmed {x : String} {decl : Component α} (h : i.declare x decl m = .ok i') :
    (i.stemmed front name).declare (front ++ x) decl (m.stemmed front) =
      .ok (i'.stemmed front name) := by
  rw [declare_eq_ok] at h ⊢
  rw [← Modification.stemmed_child, Modification.value?_stemmed, Modification.value?_stemmed]
  obtain ⟨fresh, declared⟩ := h
  refine ⟨(FlatModel.declared?_stemmed x).trans fresh, ?_⟩
  obtain ⟨changes, ⟨bare, rfl⟩ | ⟨value, given, rfl⟩⟩ | ⟨fixed, single, value, given, rfl⟩ :=
    declared
  · refine .inl ⟨changes, .inl ⟨by rw [bare]; rfl, ?_⟩⟩
    rw [stemmed_addVariable, FlatVariable.stemmed]
  · refine .inl ⟨changes, .inr ⟨value.stemmed front, by rw [given]; rfl, ?_⟩⟩
    rw [stemmed_addEquation, stemmed_addVariable, FlatVariable.stemmed, Equation.stemmed,
      Expr.stemmed, Ref.stemmed]
  · refine .inr ⟨fixed, single, value.stemmed front, by rw [given]; rfl, ?_⟩
    rw [stemmed_addParameter, FlatParameter.stemmed]

end

/-! ## Layouts under a stem -/

/-- A layout that does under a stem what it does without. -/
def Layout.Moves (front name : String) (layout : Layout α) : Prop :=
  ∀ c stem m i i', layout c stem m i = .ok i' →
    layout c (front ++ stem) (m.stemmed front) (i.stemmed front name) = .ok (i'.stemmed front name)

section
variable {p : Program α} {inner : Layout α} {owner : Located α} {front name stem : String}
  {i i' : Instance α} {m : Modification α}

theorem addBase_stemmed (moves : inner.Moves front name) {clause : Extends α}
    (h : addBase p inner owner stem m i clause = .ok i') :
    addBase p inner owner (front ++ stem) (m.stemmed front) (i.stemmed front name) clause =
      .ok (i'.stemmed front name) := by
  obtain ⟨base, modifiers, found, resolved, laid⟩ := addBase_eq_ok.1 h
  refine addBase_eq_ok.2 ⟨base, _, found, Program.resolveModifiers_stemmed _ _ resolved, ?_⟩
  rw [Modifier.callsAll_stemmed, ← Modification.stemmed_ofModifiers, ← Modification.stemmed_merge]
  exact moves _ _ _ _ _ laid

theorem addPart_stemmed (moves : inner.Moves front name) {x : String} {decl : Component α}
    (h : addPart p inner owner x m i decl = .ok i') :
    addPart p inner owner (front ++ x) (m.stemmed front) (i.stemmed front name) decl =
      .ok (i'.stemmed front name) := by
  obtain ⟨single, type, found, whole, complete, laid⟩ := addPart_eq_ok.1 h
  refine addPart_eq_ok.2 ⟨single, type, found, whole, complete, ?_⟩
  rw [String.append_assoc]
  exact moves _ _ _ _ _ laid

theorem addComponent_stemmed (moves : inner.Moves front name) {decl : Component α}
    (h : addComponent p inner owner stem m i decl = .ok i') :
    addComponent p inner owner (front ++ stem) (m.stemmed front) (i.stemmed front name) decl =
      .ok (i'.stemmed front name) := by
  obtain ⟨binding, modifiers, bound, resolved, added⟩ := addComponent_eq_ok.1 h
  refine addComponent_eq_ok.2 ⟨_, _, Program.resolveOptional_stemmed bound,
    Program.resolveModifiers_stemmed _ _ resolved, ?_⟩
  rw [componentCalls_stemmed, ← Modification.stemmed_ofComponent, String.append_assoc,
    ← stemmed_addCalls]
  exact added.imp (And.imp_right declare_stemmed) (And.imp_right (addPart_stemmed moves))

theorem addElement_stemmed (moves : inner.Moves front name) {element : Element α}
    (h : addElement p inner owner stem m i element = .ok i') :
    addElement p inner owner (front ++ stem) (m.stemmed front) (i.stemmed front name) element =
      .ok (i'.stemmed front name) := by
  cases element with
  | nested decl =>
    cases h
    rfl
  | inherit clause => exact addBase_stemmed moves h
  | component decl => exact addComponent_stemmed moves h

theorem addResolved_stemmed {e : Equation α} (h : addResolved p owner stem i e = .ok i') :
    addResolved p owner (front ++ stem) (i.stemmed front name) e = .ok (i'.stemmed front name) := by
  obtain ⟨lhs, rhs, left, right, rfl⟩ := addResolved_eq_ok.1 h
  refine addResolved_eq_ok.2
    ⟨_, _, Program.resolve_stemmed left, Program.resolve_stemmed right, ?_⟩
  rw [Expr.calls_stemmed, Expr.calls_stemmed, stemmed_addEquation, stemmed_addCalls,
    Equation.stemmed]

/-- What a layout adds under a stem is what it adds without, under the stem. -/
theorem layout_moves (p : Program α) (free : List ClassPath) (front name : String) :
    Layout.Moves front name (layout p free) := by
  induction hn : free.length using Nat.strongRecOn generalizing free with
  | ind n ih =>
    intro c stem m i i' laid
    obtain ⟨entered, middle, elements, equations⟩ := layout_eq_ok.1 laid
    -- Which classes may be entered does not depend on the stem, so the pool stays the same.
    have inner := ih _ (hn ▸ length_without_lt entered) (without c.path free) rfl
    refine layout_eq_ok.2 ⟨entered, middle.stemmed front name, ?_, ?_⟩
    · rw [← stemmed_addClass]
      exact foldlM_map _ (fun _ _ _ _ => addElement_stemmed inner) elements
    · exact foldlM_map _ (fun _ _ _ _ => addResolved_stemmed) equations

end

end Instance

/-! ## Wrappers -/

/-- A model with one component of a class, and nothing else. -/
def ClassDecl.holding (outer part type : String) : ClassDecl α :=
  ⟨outer, .model, false, none, [.component ⟨part, type, .continuous, none, [], none, none⟩], []⟩

/-- A model that extends a class, and nothing else. -/
def ClassDecl.extending (outer base : String) : ClassDecl α :=
  ⟨outer, .model, false, none, [.inherit ⟨base, []⟩], []⟩

theorem FlatModel.stemmed_empty (name : String) (m : FlatModel α) :
    m.stemmed "" name = { m with name } := by
  have parameter (q : FlatParameter α) : q.stemmed "" = q := by
    simp [FlatParameter.stemmed, Expr.stemmed_empty]
  have unknown (v : FlatVariable α) : v.stemmed "" = v := by
    simp [FlatVariable.stemmed, Expr.stemmed_empty]
  have equation (e : Equation α) : e.stemmed "" = e := by
    simp [Equation.stemmed, Expr.stemmed_empty]
  simp [stemmed, parameter, unknown, equation]

namespace Program

variable {before after : List (ClassDecl α)} {w decl : ClassDecl α} {path : ClassPath}

/-! ### One more class -/

/-- A program is part of the one with one more class of a new name. -/
theorem within_insert (new : w.name ∉ classNames ⟨before ++ after⟩) :
    Within ⟨before ++ after⟩ ⟨before ++ w :: after⟩ := by
  intro top htop rest
  have differ : (w.name == top) = false := by
    rw [beq_eq_false_iff_ne]
    rintro rfl
    exact new htop
  simp only [find?, List.find?_append, List.find?_cons, differ]

theorem find?_insert (new : w.name ∉ classNames ⟨before ++ after⟩) (path : ClassPath) :
    find? ⟨before ++ w :: after⟩ (w.name :: path) = w.descend? path := by
  have absent : before.find? (·.name == w.name) = none := by
    apply List.find?_eq_none.2
    intro c hc same
    refine new (List.mem_map.2 ⟨c, List.mem_append_left _ hc, ?_⟩)
    simpa using same
  simp [find?, List.find?_append, absent]

/-- A class without classes of its own finds those of the program. -/
theorem resolve?_insert (new : w.name ∉ classNames ⟨before ++ after⟩)
    (bare : ∀ inner, w.nested? inner = none) (found : find? ⟨before ++ after⟩ path = some decl) :
    resolve? ⟨before ++ w :: after⟩ [w.name] path = some ⟨path, decl⟩ := by
  have around : outward [w.name] = [[w.name], []] := rfl
  have inside : find? ⟨before ++ w :: after⟩ ([w.name] ++ path) = none := by
    rw [List.singleton_append, find?_insert new]
    cases path with
    | nil => cases found
    | cons first rest => rw [ClassDecl.descend?, bare, Option.bind_none]
  have outside : find? ⟨before ++ w :: after⟩ ([] ++ path) = some decl :=
    (within_insert new).find?_eq found
  rw [resolve?, around, List.findSome?_cons, inside, List.findSome?_cons, outside]
  rfl

/-- A class of the program is laid out inside the new one as it is in the program. -/
theorem layout_insert (new : w.name ∉ classNames ⟨before ++ after⟩)
    (found : find? ⟨before ++ after⟩ path = some decl) {stem : String} {m : Modification α}
    {i i' : Instance α}
    (laid : Instance.layout ⟨before ++ after⟩ (paths ⟨before ++ after⟩) ⟨path, decl⟩ stem m i =
      .ok i') :
    Instance.layout ⟨before ++ w :: after⟩ (without [w.name] (paths ⟨before ++ w :: after⟩))
      ⟨path, decl⟩ stem m i = .ok i' := by
  have within := within_insert new
  have pool : SamePool ⟨before ++ after⟩ (paths ⟨before ++ after⟩)
      (without [w.name] (paths ⟨before ++ w :: after⟩)) := by
    intro other held
    rw [mem_without, within.samePool other held, iff_self_and]
    rintro - rfl
    exact new (held.rooted w.name rfl)
  exact Instance.layout_follows within pool _ _ _ _ _ found laid

/-! ### Instances of wrappers -/

section
variable {front : String} {scalar : Bool} {i j : Instance α}

/-- A class that is laid out as another one is under a stem has its instance under the stem. -/
theorem instantiate_wrapper (new : w.name ∉ classNames ⟨before ++ after⟩)
    (simple : '.' ∉ w.name.toList) (whole : w.isPartial = false) (model : w.kind ≠ .package)
    (laid : Instance.layout ⟨before ++ w :: after⟩ (paths ⟨before ++ w :: after⟩) ⟨[w.name], w⟩ ""
      .none (.empty w.name) = .ok (j.stemmed front w.name))
    (checked : j.model.checkReferences = .ok ())
    (finished : scalar = false ∧ i = j ∨
      scalar = true ∧ ∃ model, j.model.scalarize = .ok model ∧ i = { j with model }) :
    instantiate ⟨before ++ w :: after⟩ w.name scalar = .ok (i.stemmed front w.name) := by
  have named : segments w.name = [w.name] := segments_of_simple simple
  refine instantiate_eq_ok.2 ⟨w, j.stemmed front w.name, ?_, whole, model, ?_,
    FlatModel.checkReferences_stemmed checked, ?_⟩
  · rw [named, find?_insert new, ClassDecl.descend?]
  · rw [named]
    exact laid
  · obtain ⟨rfl, rfl⟩ | ⟨rfl, model, expanded, rfl⟩ := finished
    · exact .inl ⟨rfl, rfl⟩
    · exact .inr ⟨rfl, _, FlatModel.scalarize_stemmed expanded, rfl⟩

variable {outer part name : String}

theorem mem_paths_insert (new : w.name ∉ classNames ⟨before ++ after⟩) :
    [w.name] ∈ paths ⟨before ++ w :: after⟩ := by
  apply mem_paths_of_holds
  rw [Holds, find?_insert new]
  rfl

/-- A model that holds a component of a class is laid out as the class is under its name. -/
theorem layout_holding (new : outer ∉ classNames ⟨before ++ after⟩)
    (found : find? ⟨before ++ after⟩ (segments name) = some decl)
    (whole : decl.isPartial = false) (model : decl.kind ≠ .package)
    (plain : name ≠ "Real" ∧ name ≠ "Integer" ∧ name ≠ "Boolean")
    (laid : Instance.layout ⟨before ++ after⟩ (paths ⟨before ++ after⟩) ⟨segments name, decl⟩ ""
      .none (.empty name) = .ok j) :
    Instance.layout ⟨before ++ .holding outer part name :: after⟩
      (paths ⟨before ++ .holding outer part name :: after⟩)
      ⟨[outer], .holding outer part name⟩ "" .none (.empty outer) =
        .ok (j.stemmed (part ++ ".") outer) := by
  have inserted := layout_insert (w := .holding outer part name) new found laid
  have moved := Instance.layout_moves _ _ (part ++ ".") outer _ _ _ _ _ inserted
  have looked := resolve?_insert (w := .holding outer part name) new (fun _ => rfl) found
  have part_stem : part ++ "." ++ "" = "" ++ part ++ "." := by simp
  rw [part_stem] at moved
  have of_class : Component.isBuiltin
      (⟨part, name, .continuous, none, [], none, none⟩ : Component α) = false := by
    simp [Component.isBuiltin, plain]
  refine Instance.layout_eq_ok.2 ⟨mem_paths_insert (w := .holding outer part name) new, _, ?_, rfl⟩
  refine bind_eq_ok.2 ⟨_, ?_, rfl⟩
  exact Instance.addComponent_eq_ok.2 ⟨none, [], rfl, rfl, .inr ⟨of_class,
    Instance.addPart_eq_ok.2 ⟨rfl, _, looked, model, whole, moved⟩⟩⟩

/-- A model that extends a class is laid out as the class is. -/
theorem layout_extending (new : outer ∉ classNames ⟨before ++ after⟩)
    (found : find? ⟨before ++ after⟩ (segments name) = some decl)
    (laid : Instance.layout ⟨before ++ after⟩ (paths ⟨before ++ after⟩) ⟨segments name, decl⟩ ""
      .none (.empty name) = .ok j) :
    Instance.layout ⟨before ++ .extending outer name :: after⟩
      (paths ⟨before ++ .extending outer name :: after⟩)
      ⟨[outer], .extending outer name⟩ "" .none (.empty outer) = .ok (j.stemmed "" outer) := by
  have inserted := layout_insert (w := .extending outer name) new found laid
  have moved := Instance.layout_moves _ _ "" outer _ _ _ _ _ inserted
  have looked := resolve?_insert (w := .extending outer name) new (fun _ => rfl) found
  refine Instance.layout_eq_ok.2 ⟨mem_paths_insert (w := .extending outer name) new, _, ?_, rfl⟩
  refine bind_eq_ok.2 ⟨_, ?_, rfl⟩
  exact Instance.addBase_eq_ok.2 ⟨_, [], looked, rfl, moved⟩

end

/-- Making instances is compositional. In a program with one more model that holds a component of
a class, the instance of that model is the one of the class with the name of the component in
front of every name and every reference; and with one that extends the class it is the one of the
class as it is. The only class more that is come across is the model itself. -/
theorem instances_are_compositional {outer name : String} {scalar : Bool} {i : Instance α}
    (new : outer ∉ classNames ⟨before ++ after⟩) (simple : '.' ∉ outer.toList)
    (plain : name ≠ "Real" ∧ name ≠ "Integer" ∧ name ≠ "Boolean")
    (made : instantiate ⟨before ++ after⟩ name scalar = .ok i) :
    (∀ part, instantiate ⟨before ++ .holding outer part name :: after⟩ outer scalar =
      .ok ⟨i.model.stemmed (part ++ ".") outer, i.cache.addClass outer⟩) ∧
    instantiate ⟨before ++ .extending outer name :: after⟩ outer scalar =
      .ok ⟨{ i.model with name := outer }, i.cache.addClass outer⟩ := by
  obtain ⟨decl, j, found, whole, model, laid, checked, finished⟩ := instantiate_eq_ok.1 made
  refine ⟨fun part => ?_, ?_⟩
  · exact instantiate_wrapper (w := .holding outer part name) new simple rfl nofun
      (layout_holding new found whole model plain laid) checked finished
  · rw [← FlatModel.stemmed_empty]
    exact instantiate_wrapper (w := .extending outer name) new simple rfl nofun
      (layout_extending new found laid) checked finished

/-- A train that holds a cart has the position of the cart under its name, and a sledge that
extends one has that position as it is. -/
theorem carts_in_wrappers :
    ∃ cart, carts.instantiate "Cart" true = .ok cart ∧
      cart.model.unknowns = [⟨"x", none, some (.number 5)⟩] ∧
      (∀ outer ∈ ["Train", "Sledge"], outer ∉ carts.classNames ∧ '.' ∉ outer.toList) ∧
      instantiate ⟨carts.classes ++ [.holding "Train" "cart" "Cart"]⟩ "Train" true =
        .ok ⟨cart.model.stemmed "cart." "Train", cart.cache.addClass "Train"⟩ ∧
      (cart.model.stemmed "cart." "Train").unknowns = [⟨"cart.x", none, some (.number 5)⟩] ∧
      instantiate ⟨carts.classes ++ [.extending "Sledge" "Cart"]⟩ "Sledge" true =
        .ok ⟨{ cart.model with name := "Sledge" }, cart.cache.addClass "Sledge"⟩ := by
  have position : (carts.instantiate "Cart" true).toOption.map (·.model.unknowns) =
      some [⟨"x", none, some (.number 5)⟩] := by
    cbv
  obtain ⟨cart, made, unknowns⟩ := Option.map_eq_some_iff.1 position
  rw [toOption_eq_some] at made
  have new : ∀ outer ∈ ["Train", "Sledge"],
      outer ∉ classNames ⟨carts.classes ++ []⟩ ∧ '.' ∉ outer.toList := by
    decide
  have train := new "Train" (by decide)
  have sledge := new "Sledge" (by decide)
  have last : instantiate ⟨carts.classes ++ []⟩ "Cart" true = .ok cart := made
  refine ⟨cart, made, unknowns, new, ?_, ?_, ?_⟩
  · exact (instances_are_compositional train.1 train.2 (by decide) last).1 "cart"
  · rw [FlatModel.stemmed, unknowns]
    rfl
  · exact (instances_are_compositional sledge.1 sledge.2 (by decide) last).2

end Program

end Acausal
