-- Modified declarations. Between the class that an instance is made of and a number declared deep
-- inside it stands a chain of extends clauses and components, each with modifiers of its own. Of
-- all that is said about the number the outermost holds, resolved where it was written, before it
-- crosses into any other class; only where nothing is said the declaration's own value holds.
import Acausal.Proofs.ResolvedReferences
import Acausal.Proofs.UnexpandedInstances

namespace Acausal

variable {α : Type}

/-! ## What modifiers say -/

/-- The value that some modifiers give at a name path. The last modifier of the first name
counts; the rest of the path leads into the modifiers inside it. -/
def Modifier.given? (ms : List (Modifier α)) : List String → Option (Expr α)
  | [] => none
  | name :: rest =>
    match ms.reverse.find? (·.name == name) with
    | none => none
    | some m => if rest = [] then m.value else given? m.children rest

namespace Modification

/-- A list of modifiers says nothing of the component itself. -/
theorem valueAt?_ofModifiers_nil (ms : List (Modifier α)) :
    (ofModifiers ms).valueAt? [] = Option.none := by
  induction ms with
  | nil => rw [ofModifiers, none, valueAt?, List.lookup_nil]
  | cons m rest ih =>
    rw [ofModifiers]
    split
    · exact ih
    · rw [valueAt?_merge, ih, Option.or_none]
      refine List.lookup_eq_none_iff.2 fun setting listed => ?_
      obtain ⟨inner, -, rfl⟩ := List.mem_map.1 listed
      rfl

theorem valueAt?_ofValue_nil (value : Option (Expr α)) : (ofValue value).valueAt? [] = value := by
  cases value <;> rfl

theorem valueAt?_ofValue_cons (value : Option (Expr α)) (name : String) (rest : List String) :
    (ofValue value).valueAt? (name :: rest) = Option.none := by
  cases value <;> rfl

theorem valueAt?_under (name first : String) (rest : List String) (m : Modification α) :
    (under name m).valueAt? (first :: rest) =
      if name = first then m.valueAt? rest else Option.none := by
  by_cases same : name = first
  · subst same
    rw [if_pos rfl]
    obtain ⟨settings⟩ := m
    induction settings with
    | nil => rfl
    | cons setting settings ih =>
      simp only [under, valueAt?, List.map_cons, List.lookup_cons, List.cons_beq_cons,
        beq_self_eq_true, Bool.true_and] at ih ⊢
      rw [ih, ← List.lookup_cons]
  · rw [if_neg same]
    refine List.lookup_eq_none_iff.2 fun setting listed => ?_
    obtain ⟨inner, -, rfl⟩ := List.mem_map.1 listed
    simp [Ne.symm same]

theorem valueAt?_child (m : Modification α) (name : String) (path : List String) :
    (m.child name).valueAt? path = m.valueAt? (name :: path) := by
  obtain ⟨settings⟩ := m
  induction settings with
  | nil => rfl
  | cons setting settings ih =>
    obtain ⟨place, value⟩ := setting
    simp only [child, valueAt?, List.lookup_cons] at ih ⊢
    cases place with
    | nil => simpa using ih
    | cons first rest =>
      by_cases same : first = name
      · subst same
        by_cases here : path = rest
        · simp [here]
        · have elsewhere : (path == rest) = false := by simpa using here
          simpa [List.lookup_cons, elsewhere] using ih
      · have other : (name == first) = false := by simpa using Ne.symm same
        simpa [same, other] using ih

theorem valueAt?_ofModifier_nil (m : Modifier α) : (ofModifier m).valueAt? [] = m.value := by
  obtain ⟨name, each, value, children⟩ := m
  rw [ofModifier, valueAt?_merge, valueAt?_ofValue_nil, valueAt?_ofModifiers_nil, Option.or_none]

theorem valueAt?_ofModifier_cons (m : Modifier α) (name : String) (rest : List String) :
    (ofModifier m).valueAt? (name :: rest) = (ofModifiers m.children).valueAt? (name :: rest) := by
  obtain ⟨own, each, value, children⟩ := m
  rw [ofModifier, valueAt?_merge, valueAt?_ofValue_cons, Option.none_or]

/-- The last modifier of a name decides what holds along the paths that start there. -/
theorem valueAt?_ofModifiers_cons (ms : List (Modifier α)) (name : String) (rest : List String) :
    (ofModifiers ms).valueAt? (name :: rest) =
      (ms.reverse.find? (·.name == name)).bind fun m => (ofModifier m).valueAt? rest := by
  induction ms with
  | nil => rw [ofModifiers, none, valueAt?, List.lookup_nil, List.reverse_nil, List.find?_nil,
      Option.bind_none]
  | cons m ms ih =>
    rw [ofModifiers, List.reverse_cons, List.find?_append]
    split
    -- A later modifier of the same name takes the place of this one.
    · next repeated =>
      obtain ⟨later, listed, same⟩ := List.any_eq_true.1 repeated
      rw [ih]
      by_cases here : m.name = name
      · have found : (ms.reverse.find? (·.name == name)).isSome :=
          List.find?_isSome.2 ⟨later, List.mem_reverse.2 listed, by rwa [← here]⟩
        obtain ⟨last, found⟩ := Option.isSome_iff_exists.1 found
        rw [found, Option.some_or]
      · rw [List.find?_singleton, if_neg (by simpa using here), Option.or_none]
    · next single =>
      rw [valueAt?_merge, valueAt?_under, ih]
      by_cases here : m.name = name
      · have last : ms.reverse.find? (·.name == name) = Option.none := by
          simpa [here] using single
        simp [here, last]
      · simp [here]

/-- A modification made of modifiers says what they do. -/
theorem valueAt?_ofModifiers (ms : List (Modifier α)) (path : List String) :
    (ofModifiers ms).valueAt? path = Modifier.given? ms path := by
  induction path generalizing ms with
  | nil => rw [valueAt?_ofModifiers_nil, Modifier.given?]
  | cons name rest ih =>
    rw [valueAt?_ofModifiers_cons, Modifier.given?]
    cases ms.reverse.find? (·.name == name) with
    | none => rfl
    | some m =>
      cases rest with
      | nil => exact valueAt?_ofModifier_nil m
      | cons next later => exact (valueAt?_ofModifier_cons m next later).trans (ih m.children)

end Modification

/-! ## Modifiers resolved -/

/-- Of two options where neither or both are there and related, or else of two others. -/
theorem rel_or {β γ : Type} {R : β → γ → Prop} {a a' : Option β} {b b' : Option γ}
    (h : Option.Rel R a b) (h' : Option.Rel R a' b') : Option.Rel R (a.or a') (b.or b') := by
  cases h with
  | some related => exact .some related
  | none => exact h'

theorem rel_find? {β γ : Type} {R : β → γ → Prop} {l : List β} {l' : List γ} {f : β → Bool}
    {g : γ → Bool} (h : List.Forall₂ R l l') (same : ∀ a b, R a b → f a = g b) :
    Option.Rel R (l.find? f) (l'.find? g) := by
  induction h with
  | nil => exact .none
  | cons related _ ih =>
    rw [List.find?_cons, List.find?_cons, same _ _ related]
    split
    · exact .some related
    · exact ih

namespace Program

variable {p : Program α} {scope : Scope α}

/-- A modifier resolved has its name, its value resolved and its inner modifiers resolved. -/
theorem resolveModifier_eq_ok {m m' : Modifier α} (h : p.resolveModifier scope m = .ok m') :
    m'.name = m.name ∧ p.resolveOptional scope m.value = .ok m'.value ∧
      p.resolveModifiers scope m.children = .ok m'.children := by
  obtain ⟨name, each, value, children⟩ := m
  rw [resolveModifier] at h
  simp only [bind_eq_ok, pure_eq_ok] at h
  obtain ⟨value', hvalue, children', hchildren, rfl⟩ := h
  exact ⟨rfl, hvalue, hchildren⟩

/-- Modifiers are resolved one by one. -/
theorem resolveModifiers_eq_ok {ms ms' : List (Modifier α)}
    (h : p.resolveModifiers scope ms = .ok ms') :
    List.Forall₂ (fun m m' => p.resolveModifier scope m = .ok m') ms ms' := by
  induction ms generalizing ms' with
  | nil =>
    rw [resolveModifiers] at h
    cases h
    exact .nil
  | cons m rest ih =>
    rw [resolveModifiers] at h
    simp only [bind_eq_ok, pure_eq_ok] at h
    obtain ⟨m', hm, rest', hrest, rfl⟩ := h
    exact .cons hm (ih hrest)

theorem rel_resolveOptional {value value' : Option (Expr α)}
    (h : p.resolveOptional scope value = .ok value') :
    Option.Rel (fun e e' => p.resolve scope e = .ok e') value value' := by
  cases value with
  | none =>
    cases h
    exact .none
  | some e =>
    rw [resolveOptional] at h
    simp only [bind_eq_ok, pure_eq_ok] at h
    obtain ⟨e', resolved, rfl⟩ := h
    exact .some resolved

/-- At every path modifiers give resolved what they give as they are written. -/
theorem rel_given? {ms ms' : List (Modifier α)} (h : p.resolveModifiers scope ms = .ok ms')
    (path : List String) :
    Option.Rel (fun e e' => p.resolve scope e = .ok e') (Modifier.given? ms path)
      (Modifier.given? ms' path) := by
  induction path generalizing ms ms' with
  | nil => exact .none
  | cons name rest ih =>
    -- The last modifier of the name stands at the same place before and after resolving.
    have last := rel_find? (f := (·.name == name)) (g := (·.name == name))
      (List.forall₂_reverse_iff.2 (resolveModifiers_eq_ok h)) fun m m' resolved => by
        rw [(resolveModifier_eq_ok resolved).1]
    rw [Modifier.given?, Modifier.given?]
    revert last
    generalize ms.reverse.find? (·.name == name) = found
    generalize ms'.reverse.find? (·.name == name) = found'
    intro last
    cases last with
    | none => exact .none
    | some resolved =>
      obtain ⟨-, value, children⟩ := resolveModifier_eq_ok resolved
      by_cases here : rest = []
      · simp only [if_pos here]
        exact rel_resolveOptional value
      · simp only [if_neg here]
        exact ih children

end Program

/-! ## What is said along a chain -/

/-- An expression as it is written in a class of which an instance is made under a stem. -/
structure SourceValue (α : Type) where
  stem : String
  writer : Located α
  expr : Expr α

/-- What an expression means where it is written. -/
def Program.Means (p : Program α) (written : SourceValue α) (e : Expr α) : Prop :=
  p.resolve (.instantiated written.stem written.writer) written.expr = .ok e

theorem Program.rel_means {p : Program α} {stem : String} {c : Located α}
    {value value' : Option (Expr α)}
    (h : Option.Rel (fun e e' => p.resolve (.instantiated stem c) e = .ok e') value value') :
    Option.Rel p.Means (value.map (⟨stem, c, ·⟩)) value' := by
  cases h with
  | some resolved => exact .some resolved
  | none => exact .none

/-- Modifiers as they are written in a class of which an instance is made under a stem, seen from
a part further inside what they modify. -/
structure Adjustment (α : Type) where
  stem : String
  writer : Located α
  inside : List String
  modifiers : List (Modifier α)

namespace Adjustment

/-- What modifiers give for a path from the part at hand. -/
def given? (a : Adjustment α) (path : List String) : Option (SourceValue α) :=
  (Modifier.given? a.modifiers (a.inside ++ path)).map (⟨a.stem, a.writer, ·⟩)

/-- Modifiers seen from one part further inside. -/
def within (a : Adjustment α) (name : String) : Adjustment α :=
  { a with inside := a.inside ++ [name] }

/-- What is given for a path by the first of some modifiers that give anything for it. -/
def outermost? (said : List (Adjustment α)) (path : List String) : Option (SourceValue α) :=
  said.findSome? (·.given? path)

theorem given?_within (a : Adjustment α) (name : String) (path : List String) :
    (a.within name).given? path = a.given? (name :: path) := by
  simp [given?, within]

theorem outermost?_within (said : List (Adjustment α)) (name : String) (path : List String) :
    outermost? (said.map (·.within name)) path = outermost? said (name :: path) := by
  rw [outermost?, List.findSome?_map]
  simp only [Function.comp_def, given?_within]
  rfl

theorem outermost?_append (said inner : List (Adjustment α)) (path : List String) :
    outermost? (said ++ inner) path = (outermost? said path).or (outermost? inner path) :=
  List.findSome?_append

end Adjustment

namespace Program

variable {p : Program α} {root c : Located α} {stem : String} {said : List (Adjustment α)}

/-- The classes that extends clauses and components lead to from a class of which an instance is
made, the stem under which they are laid out, and what is said of their parts on the way, the
outermost first. -/
inductive Reaches (p : Program α) (root : Located α) :
    List (Adjustment α) → Located α → String → Prop
  | root : Reaches p root [] root ""
  | inherit {said c stem clause base} (around : Reaches p root said c stem)
      (listed : .inherit clause ∈ c.decl.elements)
      (found : p.resolve? c.path (segments clause.base) = some base) :
      Reaches p root (said ++ [⟨stem, c, [], clause.modifiers⟩]) base stem
  | part {said c stem decl type} (around : Reaches p root said c stem)
      (listed : .component decl ∈ c.decl.elements) (whole : decl.isBuiltin = false)
      (found : p.resolve? c.path (segments decl.typeName) = some type) :
      Reaches p root (said.map (·.within decl.name) ++ [⟨stem, c, [], decl.modifiers⟩]) type
        (stem ++ decl.name ++ ".")

/-- A number declared in a class that is reached. -/
structure Declaration (p : Program α) (root : Located α) where
  said : List (Adjustment α)
  owner : Located α
  stem : String
  decl : Component α
  reached : p.Reaches root said owner stem
  listed : .component decl ∈ owner.decl.elements
  number : decl.isBuiltin = true

namespace Declaration

variable (d : p.Declaration root)

/-- The full name of a number. -/
def name : String := d.stem ++ d.decl.name

/-- The value of a number: what is said of it, or else its own binding. -/
def binding? : Option (SourceValue α) :=
  (Adjustment.outermost? d.said [d.decl.name]).or
    (d.decl.binding.map (⟨d.stem, d.owner, ·⟩))

/-- The start value of a number: what is said of it, or else what its own modifiers say. -/
def start? : Option (SourceValue α) :=
  (Adjustment.outermost? d.said [d.decl.name, "start"]).or
    ((Modifier.given? d.decl.modifiers ["start"]).map (⟨d.stem, d.owner, ·⟩))

/-- A number that does not change is a parameter with the value that holds for it. -/
structure GivesParameter (q : FlatParameter α) : Prop where
  unchanging : d.decl.variability ≠ .continuous
  name : q.name = d.name
  isConstant : q.isConstant = decide (d.decl.variability = .constant)
  binding : ∃ written, d.binding? = some written ∧ p.Means written q.binding

/-- A number that changes is a variable with the start value that holds for it. -/
structure GivesVariable (v : FlatVariable α) : Prop where
  changing : d.decl.variability = .continuous
  name : v.name = d.name
  size : v.size = d.decl.size
  start : Option.Rel p.Means d.start? v.start

end Declaration

/-- A modification that says resolved what some modifiers say as they are written, for every part
of the component at hand. -/
def Speaks (p : Program α) (said : List (Adjustment α)) (m : Modification α) : Prop :=
  ∀ name rest, Option.Rel p.Means (Adjustment.outermost? said (name :: rest))
    (m.valueAt? (name :: rest))

theorem speaks_none : p.Speaks [] .none := fun _ _ => .none

theorem Speaks.merge {inner : List (Adjustment α)} {outer m : Modification α}
    (h : p.Speaks said outer) (h' : p.Speaks inner m) :
    p.Speaks (said ++ inner) (outer.merge m) := by
  intro name rest
  rw [Adjustment.outermost?_append, Modification.valueAt?_merge]
  exact rel_or (h name rest) (h' name rest)

theorem Speaks.child {m : Modification α} (h : p.Speaks said m) (name : String) :
    p.Speaks (said.map (·.within name)) (m.child name) := by
  intro next rest
  rw [Adjustment.outermost?_within, Modification.valueAt?_child]
  exact h name (next :: rest)

/-- Modifiers speak for themselves. -/
theorem speaks_ofModifiers {ms ms' : List (Modifier α)}
    (h : p.resolveModifiers (.instantiated stem c) ms = .ok ms') :
    p.Speaks [⟨stem, c, [], ms⟩] (.ofModifiers ms') := by
  intro name rest
  have single : Adjustment.outermost? [⟨stem, c, [], ms⟩] (name :: rest) =
      (Modifier.given? ms (name :: rest)).map (⟨stem, c, ·⟩) := by
    simp [Adjustment.outermost?, Adjustment.given?]
  rw [Modification.valueAt?_ofModifiers, single]
  exact rel_means (rel_given? h _)

/-- What is said of a component speaks of its parts, and then its own modifiers do. -/
theorem Speaks.ofComponent {m : Modification α} {decl : Component α} {modifiers : List (Modifier α)}
    (h : p.Speaks said m) (binding : Option (Expr α))
    (resolved : p.resolveModifiers (.instantiated stem c) decl.modifiers = .ok modifiers) :
    p.Speaks (said.map (·.within decl.name) ++ [⟨stem, c, [], decl.modifiers⟩])
      (m.ofComponent decl.name binding modifiers) := by
  refine (h.child decl.name).merge fun name rest => ?_
  rw [Modification.valueAt?_merge, Modification.valueAt?_ofValue_cons, Option.none_or]
  exact speaks_ofModifiers resolved name rest

section
variable {d : p.Declaration root} {m : Modification α} {binding : Option (Expr α)}
  {modifiers : List (Modifier α)}

theorem Declaration.rel_binding (speaks : p.Speaks d.said m)
    (bound : p.resolveOptional (.instantiated d.stem d.owner) d.decl.binding = .ok binding)
    (modifiers : List (Modifier α)) :
    Option.Rel p.Means d.binding? (m.ofComponent d.decl.name binding modifiers).value? := by
  rw [Modification.value?, Modification.ofComponent, Modification.valueAt?_merge,
    Modification.valueAt?_child, Modification.valueAt?_merge, Modification.valueAt?_ofValue_nil,
    Modification.valueAt?_ofModifiers_nil, Option.or_none]
  exact rel_or (speaks d.decl.name []) (rel_means (rel_resolveOptional bound))

theorem Declaration.rel_start (speaks : p.Speaks d.said m)
    (resolved : p.resolveModifiers (.instantiated d.stem d.owner) d.decl.modifiers =
      .ok modifiers) (binding : Option (Expr α)) :
    Option.Rel p.Means d.start?
      ((m.ofComponent d.decl.name binding modifiers).child "start").value? := by
  rw [Modification.value?, Modification.valueAt?_child, Modification.ofComponent,
    Modification.valueAt?_merge, Modification.valueAt?_child, Modification.valueAt?_merge,
    Modification.valueAt?_ofValue_cons, Option.none_or, Modification.valueAt?_ofModifiers]
  exact rel_or (speaks d.decl.name ["start"]) (rel_means (rel_given? resolved _))

/-- Declaring a number adds what its declaration gives. -/
theorem Declaration.gives_of_declare {i i' : Instance α} (speaks : p.Speaks d.said m)
    (bound : p.resolveOptional (.instantiated d.stem d.owner) d.decl.binding = .ok binding)
    (resolved : p.resolveModifiers (.instantiated d.stem d.owner) d.decl.modifiers =
      .ok modifiers)
    (h : i.declare d.name d.decl (m.ofComponent d.decl.name binding modifiers) = .ok i') :
    (∃ q, d.GivesParameter q ∧ i'.model.parameters = i.model.parameters ++ [q] ∧
        i'.model.unknowns = i.model.unknowns) ∨
      ∃ v, d.GivesVariable v ∧ i'.model.unknowns = i.model.unknowns ++ [v] ∧
        i'.model.parameters = i.model.parameters := by
  have start := d.rel_start speaks resolved binding
  have value := d.rel_binding speaks bound modifiers
  obtain ⟨-, ⟨changing, ⟨-, rfl⟩ | ⟨_, -, rfl⟩⟩ | ⟨unchanging, -, e, given, rfl⟩⟩ :=
    Instance.declare_eq_ok.1 h
  · exact .inr ⟨_, ⟨changing, rfl, rfl, start⟩, rfl, rfl⟩
  · exact .inr ⟨_, ⟨changing, rfl, rfl, start⟩, rfl, rfl⟩
  · refine .inl ⟨_, ⟨unchanging, rfl, rfl, ?_⟩, rfl, rfl⟩
    rw [given] at value
    generalize d.binding? = written at value ⊢
    cases value with
    | some means => exact ⟨_, rfl, means⟩

end

end Program

/-! ## What a layout declares -/

namespace Instance

variable {p : Program α} {root c : Located α} {stem : String} {said : List (Adjustment α)}
  {m : Modification α} {i i' : Instance α} {free : List ClassPath}

/-- All parameters and variables are given by declarations that are reached. -/
structure Given (p : Program α) (root : Located α) (i : Instance α) : Prop where
  parameters : ∀ q ∈ i.model.parameters, ∃ d : p.Declaration root, d.GivesParameter q
  unknowns : ∀ v ∈ i.model.unknowns, ∃ d : p.Declaration root, d.GivesVariable v

theorem given_empty (p : Program α) (root : Located α) (name : String) :
    (empty name).Given p root := ⟨nofun, nofun⟩

/-- What a layout adds is given by declarations that are reached, with what is said on the way. -/
theorem kept_given (p : Program α) (root : Located α) :
    Kept p (fun c stem m => ∃ said, p.Reaches root said c stem ∧ p.Speaks said m)
      (Given p root) where
  base c stem m clause base modifiers here listed found resolved := by
    obtain ⟨said, reached, speaks⟩ := here
    exact ⟨_, reached.inherit listed found, speaks.merge (Program.speaks_ofModifiers resolved)⟩
  part c stem m decl type binding modifiers here listed whole found resolved := by
    obtain ⟨said, reached, speaks⟩ := here
    exact ⟨_, reached.part listed whole found, speaks.ofComponent binding resolved⟩
  addClass _ _ _ _ _ given := ⟨given.parameters, given.unknowns⟩
  addCalls _ _ given := ⟨given.parameters, given.unknowns⟩
  addEquation _ _ given := ⟨given.parameters, given.unknowns⟩
  declare c stem m decl binding modifiers i i' here listed number bound resolved given h := by
    obtain ⟨said, reached, speaks⟩ := here
    let d : p.Declaration root := ⟨said, c, stem, decl, reached, listed, number⟩
    obtain ⟨q, gives, parameters, unknowns⟩ | ⟨v, gives, unknowns, parameters⟩ :=
      Program.Declaration.gives_of_declare (d := d) speaks bound resolved h
    · refine ⟨?_, unknowns ▸ given.unknowns⟩
      rw [parameters, List.forall_mem_append, List.forall_mem_singleton]
      exact ⟨given.parameters, d, gives⟩
    · refine ⟨parameters ▸ given.parameters, ?_⟩
      rw [unknowns, List.forall_mem_append, List.forall_mem_singleton]
      exact ⟨given.unknowns, d, gives⟩

theorem stable_mem_parameters (q : FlatParameter α) :
    Stable fun i : Instance α => q ∈ i.model.parameters where
  addClass _ _ listed := listed
  addCalls _ _ listed := listed
  addEquation _ _ listed := listed
  declare i name decl m i' listed h := by
    obtain ⟨-, ⟨-, ⟨-, rfl⟩ | ⟨_, -, rfl⟩⟩ | ⟨-, -, _, -, rfl⟩⟩ := declare_eq_ok.1 h
    · exact listed
    · exact listed
    · exact List.mem_append_left _ listed

theorem stable_mem_unknowns (v : FlatVariable α) :
    Stable fun i : Instance α => v ∈ i.model.unknowns where
  addClass _ _ listed := listed
  addCalls _ _ listed := listed
  addEquation _ _ listed := listed
  declare i name decl m i' listed h := by
    obtain ⟨-, ⟨-, ⟨-, rfl⟩ | ⟨_, -, rfl⟩⟩ | ⟨-, -, _, -, rfl⟩⟩ := declare_eq_ok.1 h
    · exact List.mem_append_left _ listed
    · exact List.mem_append_left _ listed
    · exact listed

/-- What is reached is laid out on the way, with what is said of it. -/
theorem exists_layout_of_reached (h : layout p free root "" .none i = .ok i')
    (reached : p.Reaches root said c stem) :
    ∃ free' m t t', layout p free' c stem m t = .ok t' ∧ p.Speaks said m ∧ Precedes t' i' := by
  -- Along the chain: each class on it was laid out by the layout of the one before.
  induction reached with
  | root => exact ⟨free, .none, i, i', h, Program.speaks_none, .refl i'⟩
  | inherit _ listed found ih =>
    obtain ⟨free', m, t, t', laid, speaks, precedes⟩ := ih
    obtain ⟨s, s', -, added, before⟩ := exists_step_of_layout laid listed
    obtain ⟨base, modifiers, found', resolved, laid⟩ := addBase_eq_ok.1 added
    rw [found] at found'
    cases found'
    exact ⟨_, _, _, s', laid, speaks.merge (Program.speaks_ofModifiers resolved),
      before.trans precedes⟩
  | part _ listed whole found ih =>
    obtain ⟨free', m, t, t', laid, speaks, precedes⟩ := ih
    obtain ⟨s, s', -, added, before⟩ := exists_step_of_layout laid listed
    obtain ⟨binding, modifiers, -, resolved, ⟨number, -⟩ | ⟨-, added⟩⟩ :=
      addComponent_eq_ok.1 added
    · rw [whole] at number
      cases number
    · obtain ⟨-, type, found', -, -, laid⟩ := addPart_eq_ok.1 added
      rw [found] at found'
      cases found'
      exact ⟨_, _, _, s', laid, speaks.ofComponent binding resolved, before.trans precedes⟩

/-- What a declaration that is reached gives is declared. -/
theorem exists_given_of_layout (h : layout p free root "" .none i = .ok i')
    (d : p.Declaration root) :
    (∃ q ∈ i'.model.parameters, d.GivesParameter q) ∨
      ∃ v ∈ i'.model.unknowns, d.GivesVariable v := by
  obtain ⟨free', m, t, t', laid, speaks, precedes⟩ := exists_layout_of_reached h d.reached
  obtain ⟨s, s', -, added, before⟩ := exists_step_of_layout laid d.listed
  obtain ⟨binding, modifiers, bound, resolved, ⟨-, declared⟩ | ⟨part, -⟩⟩ :=
    addComponent_eq_ok.1 added
  · have later := before.trans precedes
    obtain ⟨q, gives, parameters, -⟩ | ⟨v, gives, unknowns, -⟩ :=
      Program.Declaration.gives_of_declare speaks bound resolved declared
    · exact .inl ⟨q, later _ (stable_mem_parameters q) (by simp [parameters]), gives⟩
    · exact .inr ⟨v, later _ (stable_mem_unknowns v) (by simp [unknowns]), gives⟩
  · rw [d.number] at part
    cases part

end Instance

/-! ## Instances -/

namespace Program

variable {p : Program α} {root : Located α}

/-- What a variable is in a model that is in scalar form or not. -/
def forms (scalar : Bool) (v : FlatVariable α) : List (FlatVariable α) :=
  if scalar then FlatModel.scalarVariables v else [v]

/-- A flat model in which each number has what the outermost of all that is said of it gives. -/
structure OutermostHolds (p : Program α) (root : Located α) (scalar : Bool) (m : FlatModel α) :
    Prop where
  parameters : ∀ q ∈ m.parameters, ∃ d : p.Declaration root, d.GivesParameter q
  parameter (d : p.Declaration root) : d.decl.variability ≠ .continuous →
    ∃ q ∈ m.parameters, d.GivesParameter q ∧ ∀ q' ∈ m.parameters, q'.name = d.name → q' = q
  unknowns : ∀ v ∈ m.unknowns, ∃ d : p.Declaration root, ∃ whole, d.GivesVariable whole ∧
    v ∈ forms scalar whole
  unknown (d : p.Declaration root) : d.decl.variability = .continuous →
    ∃ whole, d.GivesVariable whole ∧ ∀ v ∈ forms scalar whole, v ∈ m.unknowns

theorem outermostHolds_of_layout {free : List ClassPath} {name : String} {i : Instance α}
    (h : Instance.layout p free root "" .none (.empty name) = .ok i) :
    p.OutermostHolds root false i.model where
  parameters := by
    have given := (Instance.kept_given p root).layout free ⟨[], .root, speaks_none⟩
      (Instance.given_empty p root name) h
    exact given.parameters
  parameter d unchanging := by
    have distinct : i.model.names.Nodup :=
      Instance.stable_distinct.layout (show (Instance.empty name).model.names.Nodup from .nil) h
    rcases Instance.exists_given_of_layout h d with ⟨q, listed, gives⟩ | ⟨v, -, gives⟩
    · refine ⟨q, listed, gives, fun q' listed' same => ?_⟩
      rw [FlatModel.names, List.nodup_append] at distinct
      exact List.inj_on_of_nodup_map distinct.1 listed' listed (same.trans gives.name.symm)
    · exact absurd gives.changing unchanging
  unknowns := by
    have given := (Instance.kept_given p root).layout free ⟨[], .root, speaks_none⟩
      (Instance.given_empty p root name) h
    intro v listed
    obtain ⟨d, gives⟩ := given.unknowns v listed
    exact ⟨d, v, gives, List.mem_singleton_self v⟩
  unknown d changing := by
    rcases Instance.exists_given_of_layout h d with ⟨q, -, gives⟩ | ⟨v, listed, gives⟩
    · exact absurd changing gives.unchanging
    · refine ⟨v, gives, fun v' form => ?_⟩
      cases List.mem_singleton.1 form
      exact listed

/-- Expanding arrays leaves parameters as they are and gives every element the start value of its
array. -/
theorem OutermostHolds.scalarize {m s : FlatModel α} (h : p.OutermostHolds root false m)
    (expanded : m.scalarize = .ok s) : p.OutermostHolds root true s := by
  obtain ⟨groups, -, rfl⟩ := FlatModel.scalarize_eq_ok.1 expanded
  refine ⟨h.parameters, h.parameter, fun v listed => ?_, fun d changing => ?_⟩
  · obtain ⟨whole, listed, form⟩ := List.mem_flatMap.1 listed
    obtain ⟨d, v', gives, same⟩ := h.unknowns whole listed
    cases List.mem_singleton.1 same
    exact ⟨d, whole, gives, form⟩
  · obtain ⟨whole, gives, listed⟩ := h.unknown d changing
    refine ⟨whole, gives, fun v form => List.mem_flatMap.2 ⟨whole, ?_, form⟩⟩
    exact listed whole (List.mem_singleton_self whole)

/-- In every instance each parameter has the value, and each variable the start value, that the
outermost modifier for it on the way from the model gives, or else its own declaration; this is
what was written, resolved where it was written, so that its references to components bear the
stem of their writer. Modifications merge in any grouping, and at every path the outer one of two
decides if it says anything there. -/
theorem outermost_modifications_hold {name : String} {scalar : Bool} {i : Instance α}
    (made : p.instantiate name scalar = .ok i) :
    (∃ decl, p.find? (segments name) = some decl ∧
      p.OutermostHolds ⟨segments name, decl⟩ scalar i.model) ∧
    (∀ written e, p.Means written e → ∀ r, r ∈ e.refs ↔
      ∃ inner ∈ written.expr.refs, p.declares written.writer inner.head = true ∧
        r = ⟨written.stem ++ inner.name, inner.index⟩) ∧
    (∀ a b c : Modification α, (a.merge b).merge c = a.merge (b.merge c)) ∧
    ∀ (outer inner : Modification α) path,
      (outer.merge inner).valueAt? path = (outer.valueAt? path).or (inner.valueAt? path) := by
  refine ⟨?_, fun written e means r => mem_refs_of_resolve means, Modification.merge_assoc,
    Modification.valueAt?_merge⟩
  obtain ⟨decl, j, found, -, -, laid, -, ⟨rfl, rfl⟩ | ⟨rfl, model, expanded, rfl⟩⟩ :=
    instantiate_eq_ok.1 made
  · exact ⟨decl, found, outermostHolds_of_layout laid⟩
  · exact ⟨decl, found, (outermostHolds_of_layout laid).scalarize expanded⟩

/-- A spring with a stiffness and a position of its own, and a rig with a spring whose stiffness
and start it sets by a stiffness of its own. -/
def rigs : Program Int :=
  let stiffness (value : Expr Int) : Element Int :=
    .component ⟨"k", "Real", .parameter, none, [], some value, none⟩
  ⟨[⟨"Spring", .model, false, none,
      [stiffness (.number 1),
        .component ⟨"x", "Real", .continuous, none,
          [⟨"start", false, some (.number 0), []⟩], none, none⟩],
      [⟨.der ⟨"x", none⟩, .ref ⟨"k", none⟩⟩]⟩,
    ⟨"Rig", .model, false, none,
      [stiffness (.number 5),
        .component ⟨"s", "Spring", .continuous, none,
          [⟨"k", false, some (.neg (.ref ⟨"k", none⟩)), []⟩,
            ⟨"x", false, none, [⟨"start", false, some (.ref ⟨"k", none⟩), []⟩]⟩], none, none⟩],
      []⟩]⟩

/-- The stiffness of the spring is that of the rig, although the spring has one too. -/
theorem rigs_set_their_springs :
    ∃ i, rigs.instantiate "Rig" true = .ok i ∧
      i.model.parameters =
        [⟨"k", .number 5, false⟩, ⟨"s.k", .neg (.ref ⟨"k", none⟩), false⟩] ∧
      i.model.unknowns = [⟨"s.x", none, some (.ref ⟨"k", none⟩)⟩] ∧
      ∃ decl, rigs.find? ["Rig"] = some decl ∧
        rigs.OutermostHolds ⟨["Rig"], decl⟩ true i.model := by
  have rig : (rigs.instantiate "Rig" true).toOption.map
      (fun i => (i.model.parameters, i.model.unknowns)) =
      some ([⟨"k", .number 5, false⟩, ⟨"s.k", .neg (.ref ⟨"k", none⟩), false⟩],
        [⟨"s.x", none, some (.ref ⟨"k", none⟩)⟩]) := by
    cbv
  obtain ⟨i, made, same⟩ := Option.map_eq_some_iff.1 rig
  rw [toOption_eq_some] at made
  rw [Prod.mk.injEq] at same
  have simple : segments "Rig" = ["Rig"] := by decide
  have holds := (outermost_modifications_hold made).1
  rw [simple] at holds
  exact ⟨i, made, same.1, same.2, holds⟩

end Program

end Acausal
