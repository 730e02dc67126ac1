-- Programs inside larger ones. A program is part of another when every path that starts at one
-- of its top names leads to the same class in both. What the smaller one finds from a place of
-- its own, the larger one finds there too; only what the smaller one misses at the top level
-- may be something else in the larger one.
import Acausal.Instance.Lookup
import Mathlib.Data.List.Basic

namespace Acausal

variable {α : Type}

/-! ## Full paths -/

namespace ClassDecl

theorem paths_eq (outer : ClassPath) (c : ClassDecl α) :
    c.paths outer = (outer ++ [c.name]) :: pathsAll (outer ++ [c.name]) c.elements := by
  cases c
  rw [paths]

theorem mem_pathsAll {outer : ClassPath} {elements : List (Element α)} {inner : ClassDecl α}
    (h : .nested inner ∈ elements) {path : ClassPath} (hpath : path ∈ inner.paths outer) :
    path ∈ pathsAll outer elements := by
  induction elements with
  | nil => simp at h
  | cons element rest ih =>
    rcases List.mem_cons.1 h with rfl | h
    · exact List.mem_append_left _ hpath
    · have later := ih h
      cases element with
      | inherit clause => exact later
      | component decl => exact later
      | nested other => exact List.mem_append_right _ later

theorem name_of_nested? {c inner : ClassDecl α} {name : String} (h : c.nested? name = some inner) :
    inner.name = name ∧ .nested inner ∈ c.elements := by
  unfold nested? at h
  obtain ⟨element, helement, found⟩ := List.exists_of_findSome?_eq_some h
  cases element with
  | inherit clause => cases found
  | component decl => cases found
  | nested decl =>
    simp only at found
    split at found
    · rename_i same
      cases found
      exact ⟨same, helement⟩
    · cases found

theorem mem_bases {c : ClassDecl α} {clause : Extends α} :
    clause ∈ c.bases ↔ .inherit clause ∈ c.elements := by
  unfold bases
  rw [List.mem_filterMap]
  constructor
  · rintro ⟨element, listed, found⟩
    cases element with
    | inherit other =>
      cases found
      exact listed
    | component decl => cases found
    | nested decl => cases found
  · exact fun listed => ⟨_, listed, rfl⟩

/-- A class inside a class is among the paths of the outer one. -/
theorem mem_paths_of_descend? {c inner : ClassDecl α} {outer path : ClassPath}
    (h : c.descend? path = some inner) : outer ++ c.name :: path ∈ c.paths outer := by
  induction path generalizing c outer with
  | nil =>
    rw [paths_eq]
    exact List.mem_cons_self
  | cons name rest ih =>
    rw [descend?, Option.bind_eq_some_iff] at h
    obtain ⟨middle, first, later⟩ := h
    obtain ⟨named, nested⟩ := name_of_nested? first
    rw [paths_eq]
    refine List.mem_cons_of_mem _ (mem_pathsAll nested ?_)
    have deeper : (outer ++ [c.name]) ++ middle.name :: rest ∈ middle.paths (outer ++ [c.name]) :=
      ih later
    rw [named] at deeper
    simpa using deeper

mutual
/-- Descriptions are no part of paths. -/
theorem paths_undescribed (outer : ClassPath) : (c : ClassDecl α) →
    c.undescribed.paths outer = c.paths outer
  | ⟨name, kind, isPartial, _, elements, equations⟩ => by
    rw [undescribed, paths, paths, pathsAll_undescribed _ elements]

theorem pathsAll_undescribed (outer : ClassPath) : (elements : List (Element α)) →
    pathsAll outer (undescribedAll elements) = pathsAll outer elements
  | [] => rfl
  | .inherit clause :: rest => by
    rw [undescribedAll, pathsAll, pathsAll, pathsAll_undescribed outer rest]
  | .component decl :: rest => by
    rw [undescribedAll, pathsAll, pathsAll, pathsAll_undescribed outer rest]
  | .nested decl :: rest => by
    rw [undescribedAll, pathsAll, pathsAll, paths_undescribed outer decl,
      pathsAll_undescribed outer rest]
end

end ClassDecl

namespace Program

variable {p q : Program α}

/-- Whether a program has a class at a path. -/
def Holds (p : Program α) (path : ClassPath) : Prop := (p.find? path).isSome

/-- A class that stands at its path in a program. -/
def Places (p : Program α) (c : Located α) : Prop := p.find? c.path = some c.decl

/-- A path that starts at a top name of a program; the empty path does not start anywhere. -/
def Rooted (p : Program α) (path : ClassPath) : Prop := ∀ top ∈ path.head?, top ∈ p.classNames

theorem Places.holds {c : Located α} (h : p.Places c) : p.Holds c.path := by
  unfold Holds
  rw [h]
  rfl

theorem Places.eq_of_path {c c' : Located α} (h : p.Places c) (h' : p.Places c')
    (same : c.path = c'.path) : c = c' := by
  unfold Places at h h'
  rw [same, h'] at h
  cases c
  cases c'
  cases same
  cases h
  rfl

theorem mem_paths_of_holds {path : ClassPath} (h : p.Holds path) : path ∈ p.paths := by
  obtain ⟨decl, h⟩ := Option.isSome_iff_exists.1 h
  cases path with
  | nil => cases h
  | cons name rest =>
    rw [find?, Option.bind_eq_some_iff] at h
    obtain ⟨outer, houter, later⟩ := h
    have named : outer.name = name := by simpa using List.find?_some houter
    refine List.mem_flatMap.2 ⟨outer, List.mem_of_find?_eq_some houter, ?_⟩
    have inside : [] ++ outer.name :: rest ∈ outer.paths [] :=
      ClassDecl.mem_paths_of_descend? later
    rwa [named] at inside

theorem Holds.rooted {path : ClassPath} (h : p.Holds path) : p.Rooted path := by
  obtain ⟨decl, h⟩ := Option.isSome_iff_exists.1 h
  cases path with
  | nil => cases h
  | cons name rest =>
    rw [find?, Option.bind_eq_some_iff] at h
    obtain ⟨outer, houter, _⟩ := h
    intro top htop
    cases htop
    have named : outer.name = name := by simpa using List.find?_some houter
    exact List.mem_map.2 ⟨outer, List.mem_of_find?_eq_some houter, named⟩

/-! ## Parts of a program -/

/-- Every path from a top name of the first program leads to the same class in the second. -/
def Within (p q : Program α) : Prop :=
  ∀ top ∈ p.classNames, ∀ rest, q.find? (top :: rest) = p.find? (top :: rest)

/-- What stands in front is part of the whole. -/
theorem within_prepend (library model : Program α) : library.Within (library.prepend model) := by
  intro top htop rest
  obtain ⟨c, hc, rfl⟩ := List.mem_map.1 htop
  have first : (library.classes.find? (·.name == c.name)).isSome :=
    List.find?_isSome.2 ⟨c, hc, beq_self_eq_true _⟩
  obtain ⟨found, hfound⟩ := Option.isSome_iff_exists.1 first
  unfold find? prepend
  simp only [List.find?_append, hfound, Option.some_or]

/-- What stands behind is part of the whole where nothing in front has one of its names. -/
theorem prepend_within {library model : Program α}
    (apart : ∀ top ∈ library.classNames, top ∉ model.classNames) :
    model.Within (library.prepend model) := by
  intro top htop rest
  have absent : library.classes.find? (·.name == top) = none := by
    apply List.find?_eq_none.2
    intro c hc same
    refine apart top ?_ htop
    exact List.mem_map.2 ⟨c, hc, by simpa using same⟩
  unfold find? prepend
  simp only [List.find?_append, absent, Option.none_or]

/-! ## Scopes from the inside outwards -/

/-- The scopes around a place without the top level. -/
def inward (scope : ClassPath) : List ClassPath :=
  (List.range scope.length).reverse.map fun i => scope.take (i + 1)

theorem outward_eq (scope : ClassPath) : outward scope = inward scope ++ [[]] := by
  unfold outward inward
  rw [List.range_succ_eq_map]
  simp [Function.comp_def]

/-- A scope around a place starts where the place does. -/
theorem exists_of_mem_inward {scope outer : ClassPath} (h : outer ∈ inward scope) :
    ∃ top rest, outer = top :: rest ∧ scope.head? = some top := by
  unfold inward at h
  obtain ⟨i, hi, rfl⟩ := List.mem_map.1 h
  cases scope with
  | nil => simp at hi
  | cons top rest => exact ⟨top, rest.take i, by simp, rfl⟩

theorem mem_inward_of_enclosing {scope outer : ClassPath} (h : outer ∈ enclosing scope) :
    outer ∈ inward scope := by
  unfold enclosing at h
  obtain ⟨i, hi, rfl⟩ := List.mem_map.1 h
  rw [List.mem_reverse, List.range_eq_range', List.drop_range', List.mem_range'_1] at hi
  refine List.mem_map.2 ⟨i - 1, ?_, ?_⟩
  · rw [List.mem_reverse, List.mem_range]
    omega
  · rw [Nat.sub_add_cancel (by omega)]

theorem Rooted.inward {scope outer : ClassPath} (h : p.Rooted scope)
    (houter : outer ∈ inward scope) :
    ∃ top rest, outer = top :: rest ∧ top ∈ p.classNames := by
  obtain ⟨top, rest, rfl, start⟩ := exists_of_mem_inward houter
  exact ⟨top, rest, rfl, h top start⟩

/-! ## Lookups in the larger program -/

/-- Two searches that agree on every item of a list find the same. -/
theorem findSome?_congr {β γ : Type} {f g : β → Option γ} {l : List β} (h : ∀ x ∈ l, f x = g x) :
    l.findSome? f = l.findSome? g := by
  induction l with
  | nil => rfl
  | cons x l ih =>
    rw [List.forall_mem_cons] at h
    rw [List.findSome?_cons, List.findSome?_cons, h.1, ih h.2]

theorem Within.find?_eq (h : p.Within q) {path : ClassPath} {c : ClassDecl α}
    (found : p.find? path = some c) : q.find? path = some c := by
  have rooted : p.Rooted path := Holds.rooted (by rw [Holds, found]; rfl)
  cases path with
  | nil => cases found
  | cons top rest => rw [h top (rooted top rfl), found]

theorem Within.places (h : p.Within q) {c : Located α} (placed : p.Places c) : q.Places c :=
  h.find?_eq placed

theorem places_of_resolve? {scope name : ClassPath} {c : Located α}
    (h : p.resolve? scope name = some c) : p.Places c := by
  unfold resolve? at h
  obtain ⟨outer, _, found⟩ := List.exists_of_findSome?_eq_some h
  obtain ⟨decl, hdecl, rfl⟩ := Option.map_eq_some_iff.1 found
  exact hdecl

/-- A class that is found by its name is the same in the larger program. -/
theorem Within.resolve?_eq (h : p.Within q) {scope name : ClassPath} {c : Located α}
    (rooted : p.Rooted scope) (found : p.resolve? scope name = some c) :
    q.resolve? scope name = some c := by
  unfold resolve? at *
  rw [outward_eq, List.findSome?_append] at *
  -- Below the top level the programs agree whether or not there is a class.
  have inner : (inward scope).findSome? (fun outer =>
        (q.find? (outer ++ name)).map fun decl => (⟨outer ++ name, decl⟩ : Located α)) =
      (inward scope).findSome? fun outer =>
        (p.find? (outer ++ name)).map fun decl => ⟨outer ++ name, decl⟩ := by
    apply findSome?_congr
    intro outer houter
    obtain ⟨top, rest, rfl, htop⟩ := rooted.inward houter
    rw [List.cons_append, h top htop]
  rw [inner]
  rw [Option.or_eq_some_iff] at found ⊢
  refine found.imp id (And.imp id fun top => ?_)
  simp only [List.findSome?_cons, List.findSome?_nil, List.nil_append] at top ⊢
  cases hp : p.find? name with
  | none => simp [hp] at top
  | some decl => rwa [h.find?_eq hp, ← hp]

/-! ## Constants in the larger program -/

/-- A constant around a scope is the same in the larger program, and so is that there is
none. -/
theorem Within.enclosingConstant?_eq (h : p.Within q) {scope : ClassPath} (rooted : p.Rooted scope)
    (name : String) : q.enclosingConstant? scope name = p.enclosingConstant? scope name := by
  unfold enclosingConstant?
  apply findSome?_congr
  intro outer houter
  obtain ⟨top, rest, rfl, htop⟩ := rooted.inward (mem_inward_of_enclosing houter)
  unfold constantAt?
  rw [h top htop]

theorem Within.qualifiedConstant?_eq (h : p.Within q) {scope owner : ClassPath} {name : String}
    {found : Located α × Component α} (rooted : p.Rooted scope)
    (constant : p.qualifiedConstant? scope owner name = some found) :
    q.qualifiedConstant? scope owner name = some found := by
  unfold qualifiedConstant? at *
  simp only [Option.bind_eq_bind, Option.bind_eq_some_iff] at constant ⊢
  obtain ⟨c, hc, rest⟩ := constant
  exact ⟨c, h.resolve?_eq rooted hc, rest⟩

theorem places_of_enclosingConstant? {scope : ClassPath} {name : String}
    {found : Located α × Component α} (h : p.enclosingConstant? scope name = some found) :
    p.Places found.1 := by
  unfold enclosingConstant? at h
  obtain ⟨outer, _, constant⟩ := List.exists_of_findSome?_eq_some h
  unfold constantAt? at constant
  simp only [Option.bind_eq_bind, Option.bind_eq_some_iff, Option.pure_def,
    Option.some.injEq] at constant
  obtain ⟨decl, hdecl, _, _, rfl⟩ := constant
  exact hdecl

theorem places_of_qualifiedConstant? {scope owner : ClassPath} {name : String}
    {found : Located α × Component α} (h : p.qualifiedConstant? scope owner name = some found) :
    p.Places found.1 := by
  unfold qualifiedConstant? at h
  simp only [Option.bind_eq_bind, Option.bind_eq_some_iff, Option.pure_def,
    Option.some.injEq] at h
  obtain ⟨c, hc, _, _, rfl⟩ := h
  exact places_of_resolve? hc

/-! ## Inherited components in the larger program -/

/-- A class all of whose base classes are there, and those of the base classes, and so on. -/
inductive Grounded (p : Program α) : Located α → Prop
  | intro (c : Located α)
      (found : ∀ clause ∈ c.decl.bases, (p.resolve? c.path (segments clause.base)).isSome)
      (above : ∀ clause ∈ c.decl.bases, ∀ base,
        p.resolve? c.path (segments clause.base) = some base → Grounded p base) : Grounded p c

/-- Two pools that hold the same paths of a program. -/
def SamePool (p : Program α) (free free' : List ClassPath) : Prop :=
  ∀ path, p.Holds path → (path ∈ free ↔ path ∈ free')

theorem SamePool.without {free free' : List ClassPath} (h : p.SamePool free free')
    (path : ClassPath) : p.SamePool (Acausal.without path free) (Acausal.without path free') := by
  intro other held
  rw [mem_without, mem_without, h other held]

theorem Within.samePool (h : p.Within q) : p.SamePool p.paths q.paths := by
  intro path held
  refine ⟨fun _ => ?_, fun _ => mem_paths_of_holds held⟩
  obtain ⟨decl, found⟩ := Option.isSome_iff_exists.1 held
  apply mem_paths_of_holds
  rw [Holds, h.find?_eq found]
  rfl

/-- The base classes of a grounded class are those in the larger program. -/
theorem Within.bases_eq (h : p.Within q) {c : Located α} (placed : p.Places c)
    (grounded : p.Grounded c) : q.bases c = p.bases c := by
  cases grounded with
  | intro _ found above =>
    unfold bases
    apply List.filterMap_congr
    intro clause hclause
    obtain ⟨base, hbase⟩ := Option.isSome_iff_exists.1 (found clause hclause)
    rw [h.resolve?_eq placed.holds.rooted hbase, hbase]

theorem grounded_of_mem_bases {c base : Located α} (grounded : p.Grounded c)
    (h : base ∈ p.bases c) : p.Places base ∧ p.Grounded base := by
  cases grounded with
  | intro _ found above =>
    obtain ⟨clause, hclause, hbase⟩ := List.mem_filterMap.1 h
    exact ⟨places_of_resolve? hbase, above clause hclause base hbase⟩

/-- The classes that grounded ones inherit from are those in the larger program. -/
theorem Within.ancestry_eq (h : p.Within q) {free free' : List ClassPath}
    {pending : List (Located α)} (pool : p.SamePool free free')
    (grounded : ∀ c ∈ pending, p.Places c ∧ p.Grounded c) :
    q.ancestry free' pending = p.ancestry free pending := by
  fun_induction p.ancestry free pending generalizing free' with
  | case1 free => rw [ancestry]
  | case2 free c pending entered ih =>
    have ⟨here, later⟩ := List.forall_mem_cons.1 grounded
    rw [ancestry, if_pos ((pool c.path here.1.holds).1 entered), h.bases_eq here.1 here.2,
      ih (pool.without c.path)]
    intro base hbase
    rcases List.mem_append.1 hbase with hbase | hbase
    · exact grounded_of_mem_bases here.2 hbase
    · exact later base hbase
  | case3 free c pending passed ih =>
    have ⟨here, later⟩ := List.forall_mem_cons.1 grounded
    rw [ancestry, if_neg (fun entered => passed ((pool c.path here.1.holds).2 entered)),
      ih pool later]

/-- A grounded class declares and inherits the same components in the larger program. -/
theorem Within.declares_eq (h : p.Within q) {c : Located α} (placed : p.Places c)
    (grounded : p.Grounded c) (name : String) : q.declares c name = p.declares c name := by
  unfold declares
  rw [h.bases_eq placed grounded,
    h.ancestry_eq h.samePool fun base hbase => grounded_of_mem_bases grounded hbase]

end Program

end Acausal
