-- The invariant of an instance. While classes are laid out, the names declared stay distinct
-- and free of brackets, and every expression taken in calls builtins of one argument only, all
-- of which are recorded by then.
import Acausal.Proofs.ClassNames
import Acausal.Proofs.LayoutSteps
import Acausal.Proofs.Resolution
import Acausal.Proofs.ScalarForm

namespace Acausal

variable {α : Type}

/-! ## Recorded calls -/

/-- Every call in an expression is of a builtin with one argument and is recorded so. -/
def FunctionCache.Covers (cache : FunctionCache) (e : Expr α) : Prop :=
  ∀ c ∈ e.applications, Expr.WellApplied c ∧ cache.functions.get? c.1 = some 1

/-- What one cache records of calls with one argument, the other does as well. -/
def FunctionCache.Within (cache cache' : FunctionCache) : Prop :=
  ∀ f, cache.functions.get? f = some 1 → cache'.functions.get? f = some 1

namespace FunctionCache

variable {cache cache' : FunctionCache}

theorem Covers.mono {e : Expr α} (h : cache.Covers e) (more : cache.Within cache') :
    cache'.Covers e := by
  intro c hc
  obtain ⟨applied, recorded⟩ := h c hc
  exact ⟨applied, more c.1 recorded⟩

/-- Recorded calls are of one argument each. -/
theorem get?_addCalls (names : List String) (f : String) :
    (cache.addCalls names).functions.get? f =
      if f ∈ names then some 1 else cache.functions.get? f := by
  unfold addCalls
  simp only
  generalize cache.functions = table
  induction names generalizing table with
  | nil => simp
  | cons name names ih =>
    rw [List.foldl_cons, ih]
    by_cases later : f ∈ names
    · simp [later]
    · by_cases here : f = name
      · simp [here]
      · simp [later, here, Table.get?_insert_ne]

theorem within_addCalls (names : List String) : cache.Within (cache.addCalls names) := by
  intro f hf
  rw [get?_addCalls]
  split
  · rfl
  · exact hf

/-- Recording the calls of an expression covers it. -/
theorem covers_addCalls {e : Expr α} {names : List String} (applied : e.Applied)
    (all : ∀ f ∈ e.calls, f ∈ names) : (cache.addCalls names).Covers e := by
  intro c hc
  refine ⟨applied c hc, ?_⟩
  rw [get?_addCalls, if_pos (all c.1 (Expr.mem_calls.2 ⟨c.2, hc⟩))]

end FunctionCache

/-! ## Modifications -/

mutual
/-- The values that a modifier gives, its own and those inside it. -/
def Modifier.values : Modifier α → List (Expr α)
  | ⟨_, _, value, children⟩ => value.toList ++ Modifier.valuesAll children

/-- The values that some modifiers give. -/
def Modifier.valuesAll : List (Modifier α) → List (Expr α)
  | [] => []
  | m :: rest => Modifier.values m ++ Modifier.valuesAll rest
end

mutual
theorem Modifier.calls_eq : (m : Modifier α) → m.calls = m.values.flatMap (·.calls)
  | ⟨name, each, value, children⟩ => by
    rw [calls, values, List.flatMap_append, Modifier.callsAll_eq children]

theorem Modifier.callsAll_eq : (ms : List (Modifier α)) →
    callsAll ms = (valuesAll ms).flatMap (·.calls)
  | [] => rfl
  | m :: rest => by
    rw [callsAll, valuesAll, List.flatMap_append, Modifier.calls_eq m, Modifier.callsAll_eq rest]
end

namespace Modification

/-- The expressions that a modification sets. -/
def values (m : Modification α) : List (Expr α) := m.settings.map (·.2)

theorem values_merge (outer inner : Modification α) :
    (outer.merge inner).values = outer.values ++ inner.values := List.map_append

theorem values_child_subset (m : Modification α) (name : String) :
    (m.child name).values ⊆ m.values := by
  intro e he
  obtain ⟨setting, hsetting, rfl⟩ := List.mem_map.1 he
  obtain ⟨⟨path, value⟩, horiginal, found⟩ := List.mem_filterMap.1 hsetting
  cases path with
  | nil => cases found
  | cons first rest =>
    simp only at found
    split at found
    · cases found
      exact List.mem_map.2 ⟨_, horiginal, rfl⟩
    · cases found

theorem value?_mem {m : Modification α} {e : Expr α} (h : m.value? = some e) : e ∈ m.values := by
  obtain ⟨before, after, cut, _⟩ := List.lookup_eq_some_iff.1 h
  exact List.mem_map.2 ⟨([], e), by simp [cut], rfl⟩

theorem values_ofValue (value : Option (Expr α)) : (ofValue value).values = value.toList := by
  simp [values, ofValue, Function.comp_def]

theorem values_under (name : String) (m : Modification α) : (under name m).values = m.values := by
  simp [values, under, Function.comp_def]

mutual
theorem values_ofModifier : (m : Modifier α) → (ofModifier m).values ⊆ m.values
  | ⟨name, each, value, children⟩ => by
    rw [ofModifier, values_merge, values_ofValue, Modifier.values]
    exact List.append_subset.2 ⟨List.subset_append_left _ _,
      List.Subset.trans (values_ofModifiers children) (List.subset_append_right _ _)⟩

/-- A modification sets only values that its modifiers give. -/
theorem values_ofModifiers : (ms : List (Modifier α)) →
    (ofModifiers ms).values ⊆ Modifier.valuesAll ms
  | [] => by simp [ofModifiers, values, none]
  | m :: rest => by
    have later := values_ofModifiers rest
    rw [ofModifiers, Modifier.valuesAll]
    split
    · exact List.Subset.trans later (List.subset_append_right _ _)
    · rw [values_merge, values_under]
      exact List.append_subset.2
        ⟨List.Subset.trans (values_ofModifier m) (List.subset_append_left _ _),
          List.Subset.trans later (List.subset_append_right _ _)⟩
end

end Modification

namespace Program

variable {p : Program α} {scope : Scope α}

mutual
theorem resolveModifier_applied : (m : Modifier α) → ∀ m', p.resolveModifier scope m = .ok m' →
    ∀ e ∈ m'.values, e.Applied
  | ⟨name, each, value, children⟩ => by
    intro m' h e he
    rw [resolveModifier] at h
    simp only [bind_eq_ok, pure_eq_ok] at h
    obtain ⟨value', hvalue, children', hchildren, rfl⟩ := h
    rw [Modifier.values, List.mem_append] at he
    rcases he with he | he
    · exact resolveOptional_applied hvalue e (Option.mem_toList.1 he)
    · exact resolveModifiers_applied children children' hchildren e he

/-- Resolved modifiers give values that call builtins only. -/
theorem resolveModifiers_applied : (ms : List (Modifier α)) →
    ∀ ms', p.resolveModifiers scope ms = .ok ms' → ∀ e ∈ Modifier.valuesAll ms', e.Applied
  | [] => by
    intro ms' h e he
    cases h
    simp [Modifier.valuesAll] at he
  | m :: rest => by
    intro ms' h e he
    rw [resolveModifiers] at h
    simp only [bind_eq_ok, pure_eq_ok] at h
    obtain ⟨m', hm, rest', hrest, rfl⟩ := h
    rw [Modifier.valuesAll, List.mem_append] at he
    rcases he with he | he
    · exact resolveModifier_applied m m' hm e he
    · exact resolveModifiers_applied rest rest' hrest e he
end

end Program

/-! ## The invariant -/

namespace FlatModel

/-- The bindings, start values and sides of equations of a model. -/
def expressions (m : FlatModel α) : List (Expr α) :=
  m.parameters.map (·.binding) ++ m.unknowns.filterMap (·.start) ++
    m.equations.flatMap fun e => [e.lhs, e.rhs]

theorem declared?_isSome_iff {m : FlatModel α} {name : String} :
    (m.declared? name).isSome ↔ name ∈ m.names := by
  unfold declared? variableNamed? parameterNamed? names declared
  rw [List.mem_append, List.mem_map, List.mem_map]
  cases hv : m.unknowns.find? (·.name == name) with
  | some v =>
    have found := List.find?_some hv
    simp only [beq_iff_eq] at found
    exact ⟨fun _ => .inr ⟨v, List.mem_of_find?_eq_some hv, found⟩, fun _ => rfl⟩
  | none =>
    rw [List.find?_eq_none] at hv
    simp only [Option.isSome_map, List.find?_isSome, beq_iff_eq]
    constructor
    · exact .inl
    · rintro (h | ⟨v, hv', same⟩)
      · exact h
      · exact absurd (beq_iff_eq.2 same) (hv v hv')

end FlatModel

/-- A name without a bracket, which so is not spelled like an element of an array. -/
def BracketFree (name : String) : Prop := '[' ∉ name.toList

theorem BracketFree.append {a b : String} (ha : BracketFree a) (hb : BracketFree b) :
    BracketFree (a ++ b) := by
  unfold BracketFree at *
  simp [ha, hb]

namespace Instance

/-- Names are distinct and free of brackets, and all calls are recorded. -/
structure Sound (i : Instance α) : Prop where
  distinct : i.model.names.Nodup
  bracketFree : ∀ name ∈ i.model.names, BracketFree name
  covered : ∀ e ∈ i.model.expressions, i.cache.Covers e

/-- An instance as it is later on: still sound, with all that was recorded. -/
structure Grown (i i' : Instance α) : Prop where
  sound : i'.Sound
  within : i.cache.Within i'.cache

variable {i i' : Instance α} {name : String}

theorem Grown.trans {i'' : Instance α} (h : Grown i i') (h' : Grown i' i'') : Grown i i'' :=
  ⟨h'.sound, fun f hf => h'.within f (h.within f hf)⟩

theorem Sound.refl (h : i.Sound) : Grown i i := ⟨h, fun _ => id⟩

theorem sound_empty (name : String) : (empty name : Instance α).Sound :=
  ⟨by simp [empty, FlatModel.names, FlatModel.declared],
    by simp [empty, FlatModel.names, FlatModel.declared],
    by simp [empty, FlatModel.expressions]⟩

theorem Sound.addClass (h : i.Sound) (path : ClassPath) : Grown i (i.addClass path) :=
  ⟨⟨h.distinct, h.bracketFree, h.covered⟩, fun _ => id⟩

theorem Sound.addCalls (h : i.Sound) (names : List String) : Grown i (i.addCalls names) :=
  ⟨⟨h.distinct, h.bracketFree,
      fun e he => (h.covered e he).mono (FunctionCache.within_addCalls names)⟩,
    FunctionCache.within_addCalls names⟩

/-- Declaring one more name that is new and free of brackets keeps the names in order. -/
theorem names_of_perm {names names' : List String} (same : names'.Perm (name :: names))
    (distinct : names.Nodup) (bracketFree : ∀ n ∈ names, BracketFree n) (new : name ∉ names)
    (free : BracketFree name) : names'.Nodup ∧ ∀ n ∈ names', BracketFree n := by
  refine ⟨same.nodup_iff.2 (List.nodup_cons.2 ⟨new, distinct⟩), fun n hn => ?_⟩
  rcases List.mem_cons.1 (same.mem_iff.1 hn) with rfl | hn
  · exact free
  · exact bracketFree n hn

theorem Sound.addParameter (h : i.Sound) {p : FlatParameter α} (new : p.name ∉ i.model.names)
    (free : BracketFree p.name) (covered : i.cache.Covers p.binding) :
    (i.addParameter p).Sound := by
  have same : (i.addParameter p).model.names.Perm (p.name :: i.model.names) := by
    simp only [Instance.addParameter, FlatModel.names, FlatModel.declared, List.map_append,
      List.map_cons, List.map_nil, List.append_assoc, List.singleton_append]
    exact List.perm_middle
  obtain ⟨distinct, bracketFree⟩ := names_of_perm same h.distinct h.bracketFree new free
  refine ⟨distinct, bracketFree, fun e he => ?_⟩
  simp only [Instance.addParameter, FlatModel.expressions, List.map_append, List.map_cons,
    List.map_nil, List.mem_append, List.mem_singleton] at he
  rcases he with ((he | rfl) | he) | he
  · exact h.covered e (List.mem_append_left _ (List.mem_append_left _ he))
  · exact covered
  · exact h.covered e (List.mem_append_left _ (List.mem_append_right _ he))
  · exact h.covered e (List.mem_append_right _ he)

theorem Sound.addVariable (h : i.Sound) {v : FlatVariable α} (new : v.name ∉ i.model.names)
    (free : BracketFree v.name) (covered : ∀ e, v.start = some e → i.cache.Covers e) :
    (i.addVariable v).Sound := by
  have same : (i.addVariable v).model.names.Perm (v.name :: i.model.names) := by
    simp only [Instance.addVariable, FlatModel.names, FlatModel.declared, List.map_append,
      List.map_cons, List.map_nil, ← List.append_assoc]
    exact List.perm_append_singleton _ _
  obtain ⟨distinct, bracketFree⟩ := names_of_perm same h.distinct h.bracketFree new free
  refine ⟨distinct, bracketFree, fun e he => ?_⟩
  simp only [Instance.addVariable, FlatModel.expressions, List.filterMap_append,
    List.mem_append] at he
  rcases he with (he | he | he) | he
  · exact h.covered e (List.mem_append_left _ (List.mem_append_left _ he))
  · exact h.covered e (List.mem_append_left _ (List.mem_append_right _ he))
  · obtain ⟨w, hw, start⟩ := List.mem_filterMap.1 he
    rw [List.mem_singleton] at hw
    exact covered e (hw ▸ start)
  · exact h.covered e (List.mem_append_right _ he)

theorem Sound.addEquation (h : i.Sound) {e : Equation α} (left : i.cache.Covers e.lhs)
    (right : i.cache.Covers e.rhs) : (i.addEquation e).Sound := by
  refine ⟨h.distinct, h.bracketFree, fun s hs => ?_⟩
  simp only [Instance.addEquation, FlatModel.expressions, List.flatMap_append, List.flatMap_cons,
    List.flatMap_nil, List.append_nil, List.mem_append, List.mem_cons, List.not_mem_nil,
    or_false] at hs
  rcases hs with hs | hs | rfl | rfl
  · exact h.covered s (List.mem_append_left _ (List.mem_append.2 hs))
  · exact h.covered s (List.mem_append_right _ hs)
  · exact left
  · exact right

/-! ## Layouts -/

/-- A modification all of whose calls are recorded. -/
def Recorded (i : Instance α) (m : Modification α) : Prop := ∀ e ∈ m.values, i.cache.Covers e

theorem Recorded.merge {outer inner : Modification α} (ho : i.Recorded outer)
    (hi : i.Recorded inner) : i.Recorded (outer.merge inner) := by
  intro e he
  rw [Modification.values_merge, List.mem_append] at he
  exact he.elim (ho e) (hi e)

theorem Recorded.child {m : Modification α} (h : i.Recorded m) (name : String) :
    i.Recorded (m.child name) := fun e he => h e (m.values_child_subset name he)

theorem Recorded.mono {m : Modification α} (h : i.Recorded m) (grown : Grown i i') :
    i'.Recorded m := fun e he => (h e he).mono grown.within

/-- A number is declared soundly. -/
theorem declare_grown {decl : Component α} {m : Modification α} (sound : i.Sound)
    (free : BracketFree name) (recorded : i.Recorded m)
    (h : i.declare name decl m = .ok i') : Grown i i' := by
  obtain ⟨fresh, declared⟩ := declare_eq_ok.1 h
  have new : name ∉ i.model.names := by
    rw [← FlatModel.declared?_isSome_iff, fresh]
    simp
  have value (e : Expr α) (he : m.value? = some e) : i.cache.Covers e :=
    recorded e (Modification.value?_mem he)
  have start (e : Expr α) (he : (m.child "start").value? = some e) : i.cache.Covers e :=
    recorded.child "start" e (Modification.value?_mem he)
  have added :=
    sound.addVariable (v := ⟨name, decl.size, (m.child "start").value?⟩) new free start
  obtain ⟨-, ⟨-, rfl⟩ | ⟨e, he, rfl⟩⟩ | ⟨-, -, e, he, rfl⟩ := declared
  · exact ⟨added, fun _ => id⟩
  · refine ⟨added.addEquation ?_ (value e he), fun _ => id⟩
    intro c hc
    simp [Expr.applications] at hc
  · exact ⟨sound.addParameter new free (value e he), fun _ => id⟩

/-- A layout of classes with bracket-free names grows sound instances. -/
def Layout.Grows (layout : Layout α) : Prop :=
  ∀ {c : Located α} {stem : String} {m : Modification α} {i i' : Instance α},
    (∀ name ∈ c.decl.componentNames, BracketFree name) → BracketFree stem → i.Sound →
    i.Recorded m → layout c stem m i = .ok i' → Grown i i'

section
variable {p : Program α} {layout : Layout α} {owner : Located α} {stem : String}
  {m : Modification α}

theorem recorded_ofModifiers {scope : Scope α} {ms modifiers : List (Modifier α)}
    {names : List String} (h : p.resolveModifiers scope ms = .ok modifiers)
    (all : ∀ f ∈ Modifier.callsAll modifiers, f ∈ names) :
    (i.addCalls names).Recorded (.ofModifiers modifiers) := by
  intro e he
  have given := Modification.values_ofModifiers modifiers he
  refine FunctionCache.covers_addCalls (p.resolveModifiers_applied ms _ h e given) fun f hf => ?_
  refine all f ?_
  rw [Modifier.callsAll_eq]
  exact List.mem_flatMap.2 ⟨e, given, hf⟩

theorem addBase_grown (wellNamed : ∀ name ∈ p.componentNames, BracketFree name)
    (grows : layout.Grows) (free : BracketFree stem) (sound : i.Sound) (recorded : i.Recorded m)
    {clause : Extends α} (h : addBase p layout owner stem m i clause = .ok i') : Grown i i' := by
  obtain ⟨base, modifiers, found, resolved, laid⟩ := addBase_eq_ok.1 h
  have grown := sound.addCalls (Modifier.callsAll modifiers)
  refine grown.trans (grows ?_ free grown.sound ?_ laid)
  · exact fun name hname => wellNamed name (Program.resolve?_subset found hname)
  · exact (recorded.mono grown).merge (recorded_ofModifiers resolved fun _ => id)

theorem addPart_grown (wellNamed : ∀ name ∈ p.componentNames, BracketFree name)
    (grows : layout.Grows) (free : BracketFree name) (sound : i.Sound) (recorded : i.Recorded m)
    {decl : Component α} (h : addPart p layout owner name m i decl = .ok i') : Grown i i' := by
  obtain ⟨-, type, found, -, -, laid⟩ := addPart_eq_ok.1 h
  refine grows ?_ ?_ sound recorded laid
  · exact fun n hn => wellNamed n (Program.resolve?_subset found hn)
  · exact free.append (by simp [BracketFree])

theorem addComponent_grown (wellNamed : ∀ name ∈ p.componentNames, BracketFree name)
    (grows : layout.Grows) (free : BracketFree stem) (sound : i.Sound) (recorded : i.Recorded m)
    {decl : Component α} (named : BracketFree decl.name)
    (h : addComponent p layout owner stem m i decl = .ok i') : Grown i i' := by
  obtain ⟨binding, modifiers, bound, resolved, added⟩ := addComponent_eq_ok.1 h
  have grown := sound.addCalls (componentCalls binding modifiers)
  have own : (i.addCalls (componentCalls binding modifiers)).Recorded
      ((Modification.ofValue binding).merge (.ofModifiers modifiers)) := by
    refine Recorded.merge (fun e he => ?_) (recorded_ofModifiers resolved fun f hf => ?_)
    · rw [Modification.values_ofValue, Option.mem_toList] at he
      refine FunctionCache.covers_addCalls (p.resolveOptional_applied bound e he) fun f hf => ?_
      refine List.mem_append_left _ (List.mem_flatMap.2 ⟨e, ?_, hf⟩)
      exact Option.mem_toList.2 he
    · exact List.mem_append_right _ hf
  have merged := ((recorded.child decl.name).mono grown).merge own
  obtain ⟨-, declared⟩ | ⟨-, laid⟩ := added
  · exact grown.trans (declare_grown grown.sound (free.append named) merged declared)
  · exact grown.trans (addPart_grown wellNamed grows (free.append named) grown.sound merged laid)

theorem addElement_grown (wellNamed : ∀ name ∈ p.componentNames, BracketFree name)
    (grows : layout.Grows) (free : BracketFree stem) (sound : i.Sound) (recorded : i.Recorded m)
    {element : Element α}
    (named : ∀ decl : Component α, element = .component decl → BracketFree decl.name)
    (h : addElement p layout owner stem m i element = .ok i') : Grown i i' := by
  cases element with
  | nested decl =>
    cases h
    exact sound.refl
  | inherit clause => exact addBase_grown wellNamed grows free sound recorded h
  | component decl =>
    exact addComponent_grown wellNamed grows free sound recorded (named decl rfl) h

theorem addResolved_grown (sound : i.Sound) {e : Equation α}
    (h : addResolved p owner stem i e = .ok i') : Grown i i' := by
  obtain ⟨lhs, rhs, left, right, rfl⟩ := addResolved_eq_ok.1 h
  have grown := sound.addCalls (lhs.calls ++ rhs.calls)
  refine grown.trans ⟨grown.sound.addEquation ?_ ?_, fun _ => id⟩
  · exact FunctionCache.covers_addCalls (p.resolve_applied left)
      fun f hf => List.mem_append_left _ hf
  · exact FunctionCache.covers_addCalls (p.resolve_applied right)
      fun f hf => List.mem_append_right _ hf

end

/-- Laying out a class grows a sound instance, whatever classes it leads to. -/
theorem layout_grows {p : Program α} (wellNamed : ∀ name ∈ p.componentNames, BracketFree name)
    (free : List ClassPath) : Layout.Grows (layout p free) := by
  induction hn : free.length using Nat.strongRecOn generalizing free with
  | ind n ih =>
    intro c stem m i i' named stemFree sound recorded h
    obtain ⟨entered, middle, elements, equations⟩ := layout_eq_ok.1 h
    have inner : Layout.Grows (layout p (without c.path free)) :=
      ih _ (hn ▸ length_without_lt entered) _ rfl
    have entry := sound.addClass c.path
    have laid : Grown (i.addClass c.path) middle := by
      refine foldlM_keeps (P := Grown (i.addClass c.path))
        (fun s element helement s' grown step => ?_)
        entry.sound.refl elements
      refine grown.trans (addElement_grown wellNamed inner stemFree grown.sound
        ((recorded.mono entry).mono grown) (fun decl same => ?_) step)
      refine named decl.name ?_
      rw [ClassDecl.componentNames_eq]
      exact ClassDecl.name_mem_componentNamesAll (same ▸ helement)
    refine (entry.trans laid).trans ?_
    refine foldlM_keeps (P := Grown middle) (fun s e _ s' grown step => ?_)
      laid.sound.refl equations
    exact grown.trans (addResolved_grown grown.sound step)

end Instance

end Acausal
