-- Names that a class inherits. A name is one of a class just where the class itself, or one that
-- extends clauses lead to from it, declares it. Extends clauses may lead in circles and meet
-- again. A walk that enters each path once leaves out no class for it, and so does a search that
-- passes over the dotted names it has seen, with the names seen below one base class passed on
-- to the next.
import Acausal.Proofs.LargerPrograms
import Acausal.Proofs.ParsedClasses
import Mathlib.Logic.Relation

namespace Acausal

open Relation

variable {α : Type}

/-! ## Extends clauses -/

/-- A class declares a component of a name itself. -/
def ClassDecl.HasComponent (c : ClassDecl α) (name : String) : Prop :=
  ∃ decl, .component decl ∈ c.elements ∧ decl.name = name

theorem ClassDecl.component?_isSome {c : ClassDecl α} {name : String} :
    (c.component? name).isSome = true ↔ c.HasComponent name := by
  unfold component? HasComponent
  rw [List.findSome?_isSome_iff]
  constructor
  · rintro ⟨element, listed, found⟩
    cases element with
    | inherit clause => cases found
    | nested decl => cases found
    | component decl =>
      by_cases same : decl.name = name
      · exact ⟨decl, listed, same⟩
      · simp [same] at found
  · rintro ⟨decl, listed, same⟩
    exact ⟨_, listed, by simp [same]⟩

namespace Program

variable {p : Program α} {c base a : Located α} {name : String}

/-- A class is based on another one if one of its extends clauses means it, as seen from inside
the class. -/
def BasedOn (p : Program α) (c base : Located α) : Prop :=
  ∃ clause, .inherit clause ∈ c.decl.elements ∧
    p.resolve? c.path (segments clause.base) = some base

theorem mem_bases : base ∈ p.bases c ↔ p.BasedOn c base := by
  unfold bases BasedOn
  rw [List.mem_filterMap]
  exact exists_congr fun clause => and_congr_left fun _ => ClassDecl.mem_bases

theorem BasedOn.places (h : p.BasedOn c base) : p.Places base := by
  obtain ⟨clause, -, found⟩ := h
  exact places_of_resolve? found

theorem BasedOn.mem_paths (h : p.BasedOn c base) : base.path ∈ p.paths :=
  mem_paths_of_holds h.places.holds

/-! ## The walk -/

/-- What extends clauses lead to from some classes, as long as all paths on the way are in a
pool. -/
inductive ReachedIn (p : Program α) (free : List ClassPath) (pending : List (Located α)) :
    Located α → Prop
  | first {x} (listed : x ∈ pending) (entered : x.path ∈ free) : ReachedIn p free pending x
  | base {x y} (reached : ReachedIn p free pending x) (based : p.BasedOn x y)
    (entered : y.path ∈ free) : ReachedIn p free pending y

section
variable {free : List ClassPath} {pending : List (Located α)}

theorem ReachedIn.places (h : p.ReachedIn free pending a)
    (placed : ∀ c ∈ pending, p.Places c) : p.Places a := by
  cases h with
  | first listed _ => exact placed a listed
  | base _ based _ => exact based.places

/-- What is reached through the bases of a class is reached through the class. -/
theorem ReachedIn.of_entered (entered : c.path ∈ free)
    (h : p.ReachedIn (without c.path free) (p.bases c ++ pending) a) :
    p.ReachedIn free (c :: pending) a := by
  induction h with
  | first listed allowed =>
    have allowed := (mem_without.1 allowed).1
    rcases List.mem_append.1 listed with based | listed
    · exact .base (.first List.mem_cons_self entered) (mem_bases.1 based) allowed
    · exact .first (List.mem_cons_of_mem _ listed) allowed
  | base _ based allowed ih => exact .base ih based (mem_without.1 allowed).1

/-- What is reached through a class is the class or reached through its bases: a way that comes
back to the class may as well start there. -/
theorem ReachedIn.enter (placed : ∀ x ∈ c :: pending, p.Places x)
    (h : p.ReachedIn free (c :: pending) a) :
    a = c ∨ p.ReachedIn (without c.path free) (p.bases c ++ pending) a := by
  have whole : p.Places c := placed c List.mem_cons_self
  have apart {x : Located α} (there : p.Places x) (other : x ≠ c) (allowed : x.path ∈ free) :
      x.path ∈ without c.path free :=
    mem_without.2 ⟨allowed, fun same => other (there.eq_of_path whole same)⟩
  induction h with
  | @first x listed allowed =>
    rcases List.mem_cons.1 listed with rfl | later
    · exact .inl rfl
    · by_cases same : x = c
      · exact .inl same
      · exact .inr (.first (List.mem_append_right _ later) (apart (placed x listed) same allowed))
  | @base x y _ based allowed ih =>
    by_cases same : y = c
    · exact .inl same
    · have allowed := apart based.places same allowed
      rcases ih with rfl | reached
      · exact .inr (.first (List.mem_append_left _ (mem_bases.2 based)) allowed)
      · exact .inr (.base reached based allowed)

/-- Nothing is reached through a class that may not be entered. -/
theorem reachedIn_pass (passed : c.path ∉ free) :
    p.ReachedIn free (c :: pending) a ↔ p.ReachedIn free pending a := by
  constructor <;> intro h
  · induction h with
    | first listed entered =>
      rcases List.mem_cons.1 listed with rfl | later
      · exact absurd entered passed
      · exact .first later entered
    | base _ based entered ih => exact .base ih based entered
  · induction h with
    | first listed entered => exact .first (List.mem_cons_of_mem c listed) entered
    | base _ based entered ih => exact .base ih based entered

/-- The walk enters just the classes that are reached inside its pool. -/
theorem mem_ancestry (placed : ∀ x ∈ pending, p.Places x) :
    a ∈ p.ancestry free pending ↔ p.ReachedIn free pending a := by
  fun_induction p.ancestry free pending with
  | case1 free =>
    refine ⟨fun h => absurd h List.not_mem_nil, fun h => ?_⟩
    induction h with
    | first listed _ => exact listed
    | base _ _ _ ih => cases ih
  | case2 free c pending entered ih =>
    have deeper : ∀ x ∈ p.bases c ++ pending, p.Places x := fun x hx =>
      (List.mem_append.1 hx).elim (fun based => (mem_bases.1 based).places)
        fun listed => placed x (List.mem_cons_of_mem c listed)
    rw [List.mem_cons, ih deeper]
    constructor
    · rintro (rfl | reached)
      · exact .first List.mem_cons_self entered
      · exact reached.of_entered entered
    · exact ReachedIn.enter placed
  | case3 free c pending passed ih =>
    rw [ih fun x hx => placed x (List.mem_cons_of_mem c hx), reachedIn_pass passed]

end

/-- Where all paths are free, the walk from the bases of a class enters all that extends clauses
lead to from it. -/
theorem mem_ancestry_bases : a ∈ p.ancestry p.paths (p.bases c) ↔ TransGen p.BasedOn c a := by
  rw [mem_ancestry fun x hx => (mem_bases.1 hx).places]
  constructor
  · intro h
    induction h with
    | first listed _ => exact .single (mem_bases.1 listed)
    | base _ based _ ih => exact ih.tail based
  · intro h
    induction h with
    | single based => exact .first (mem_bases.2 based) based.mem_paths
    | tail _ based ih => exact .base ih based based.mem_paths

theorem declares_iff :
    p.declares c name = true ↔ ∃ a, ReflTransGen p.BasedOn c a ∧ a.decl.HasComponent name := by
  unfold declares
  rw [List.any_eq_true]
  refine exists_congr fun a => and_congr ?_ ClassDecl.component?_isSome
  rw [List.mem_cons, mem_ancestry_bases, reflTransGen_iff_eq_or_transGen]

/-! ## The search -/

/-- No two classes of a program have the same dotted name. -/
def ToldApart (p : Program α) : Prop :=
  ∀ path ∈ p.paths, ∀ path' ∈ p.paths, dotted path = dotted path' → path = path'

/-- The paths whose dotted names have not been seen. -/
def unseen (p : Program α) (seen : List String) : List ClassPath :=
  p.paths.filter fun path => dotted path ∉ seen

/-- What a search comes to: whether it has found what it looked for, and all names seen by then,
the latest first, with those seen before it at the end. -/
structure Search (seen : List String) where
  found : Bool
  names : List String
  grows : seen <:+ names

/-- The same search, counted from a point when less had been seen. -/
def Search.since {seen names : List String} (s : Search names) (grows : seen <:+ names) :
    Search seen :=
  ⟨s.found, s.names, grows.trans s.grows⟩

section
variable {seen names : List String} {path : ClassPath}

theorem unseen_nil : p.unseen [] = p.paths := by
  simp [unseen]

theorem mem_unseen : path ∈ p.unseen seen ↔ path ∈ p.paths ∧ dotted path ∉ seen := by
  simp [unseen]

theorem unseen_cons (listed : path ∈ p.paths) (apart : p.ToldApart) :
    p.unseen (dotted path :: seen) = without path (p.unseen seen) := by
  unfold unseen without
  rw [List.filter_filter]
  refine List.filter_congr fun other hother => ?_
  have same : dotted other = dotted path ↔ other = path :=
    ⟨apart other hother path listed, fun h => h ▸ rfl⟩
  simp [same]

theorem length_unseen_le (grows : seen <:+ names) :
    (p.unseen names).length ≤ (p.unseen seen).length := by
  unfold unseen
  rw [← List.countP_eq_length_filter, ← List.countP_eq_length_filter]
  refine List.countP_mono_left fun path _ fresh => ?_
  simp only [decide_eq_true_eq] at fresh ⊢
  exact fun old => fresh (grows.subset old)

theorem length_unseen_lt (listed : path ∈ p.paths) (fresh : dotted path ∉ seen) :
    (p.unseen (dotted path :: seen)).length < (p.unseen seen).length := by
  have smaller : p.unseen (dotted path :: seen) =
      (p.unseen seen).filter fun other => dotted other ≠ dotted path := by
    unfold unseen
    rw [List.filter_filter]
    exact List.filter_congr fun other _ => by simp
  rw [smaller]
  exact List.length_filter_lt_length_iff_exists.2
    ⟨path, mem_unseen.2 ⟨listed, fresh⟩, by simp⟩

end

/-- The bases of a class, each with the fact that its path is one of the program. -/
def knownBases (p : Program α) (c : Located α) : List {base : Located α // base.path ∈ p.paths} :=
  (p.bases c).attachWith (·.path ∈ p.paths) fun _ based => (mem_bases.1 based).mem_paths

mutual
/-- A search for a component of a name, in a class and then in its bases. -/
def search (p : Program α) (name : String) (seen : List String) (c : Located α) : Search seen :=
  if (c.decl.component? name).isSome then ⟨true, seen, List.suffix_rfl⟩
  else searchAll p name seen (p.knownBases c)
termination_by ((p.unseen seen).length, 1, 0)

/-- A search in one class after another. A class whose dotted name has been seen is passed over,
and what has been seen by the end of one search has been seen for the next. -/
def searchAll (p : Program α) (name : String) (seen : List String) :
    List {base : Located α // base.path ∈ p.paths} → Search seen
  | [] => ⟨false, seen, List.suffix_rfl⟩
  | base :: rest =>
    if dotted base.1.path ∈ seen then searchAll p name seen rest
    else
      let first := (search p name (dotted base.1.path :: seen) base.1).since (List.suffix_cons _ _)
      if first.found then first else (searchAll p name first.names rest).since first.grows
termination_by bases => ((p.unseen seen).length, 0, bases.length)
decreasing_by
  · exact .right _ (.right _ (Nat.lt_succ_self _))
  · exact .left _ _ (length_unseen_lt base.2 (by assumption))
  · exact .right' _ (length_unseen_le first.grows) (.right _ (Nat.lt_succ_self _))
end

/-! ## The search beside the walk -/

/-- Some of the classes declare a component of a name. -/
def anyDeclares (name : String) (classes : List (Located α)) : Bool :=
  classes.any fun a => (a.decl.component? name).isSome

mutual
/-- A search finds what the walk does before it comes to the classes that are pending behind; if
it finds nothing, the walk goes on there with the paths that are still unseen. -/
theorem anyDeclares_search (apart : p.ToldApart) (name : String) (seen : List String)
    (c : Located α) (more : List (Located α)) :
    ((c.decl.component? name).isSome ||
        anyDeclares name (p.ancestry (p.unseen seen) (p.bases c ++ more))) =
      ((p.search name seen c).found ||
        anyDeclares name (p.ancestry (p.unseen (p.search name seen c).names) more)) := by
  rw [search]
  split
  · next own => simp [own]
  · next other =>
    rw [← anyDeclares_searchAll apart name seen (p.knownBases c) more, knownBases,
      List.attachWith_map_subtype_val]
    simp [other]
termination_by ((p.unseen seen).length, 1, 0)

theorem anyDeclares_searchAll (apart : p.ToldApart) (name : String) (seen : List String)
    (bases : List {base : Located α // base.path ∈ p.paths}) (more : List (Located α)) :
    anyDeclares name (p.ancestry (p.unseen seen) (bases.map (·.1) ++ more)) =
      ((p.searchAll name seen bases).found ||
        anyDeclares name (p.ancestry (p.unseen (p.searchAll name seen bases).names) more)) := by
  cases bases with
  | nil => simp [searchAll]
  | cons base rest =>
    rw [List.map_cons, List.cons_append, ancestry, searchAll]
    by_cases old : dotted base.1.path ∈ seen
    · -- Both pass over the class: its dotted name is seen, so its path is not free.
      rw [if_neg fun entered => (mem_unseen.1 entered).2 old, if_pos old]
      exact anyDeclares_searchAll apart name seen rest more
    · -- The walk has the bases of the class in front of the rest, where the search goes first too.
      rw [if_pos (mem_unseen.2 ⟨base.2, old⟩), if_neg old, ← unseen_cons base.2 apart]
      have first := anyDeclares_search apart name (dotted base.1.path :: seen) base.1
        (rest.map (·.1) ++ more)
      have later := anyDeclares_searchAll apart name
        (p.search name (dotted base.1.path :: seen) base.1).names rest more
      rw [anyDeclares, List.any_cons, ← anyDeclares, first, later]
      by_cases found : (p.search name (dotted base.1.path :: seen) base.1).found = true
      · simp [found, Search.since]
      · simp [found, Search.since]
termination_by ((p.unseen seen).length, 0, bases.length)
decreasing_by
  · exact .right _ (.right _ (Nat.lt_succ_self _))
  · exact .left _ _ (length_unseen_lt base.2 old)
  · exact .right' _ (length_unseen_le ((List.suffix_cons _ _).trans (search ..).grows))
      (.right _ (Nat.lt_succ_self _))
end

/-- Where no two classes share a dotted name, the search finds what the walk does. -/
theorem found_search (apart : p.ToldApart) (name : String) (c : Located α) :
    (p.search name [] c).found = p.declares c name := by
  have both := anyDeclares_search apart name [] c []
  have idle (free : List ClassPath) : anyDeclares name (p.ancestry free []) = false := by
    rw [ancestry]
    rfl
  rw [idle, Bool.or_false, List.append_nil, unseen_nil] at both
  exact both.symm

/-- Classes that are read from texts are told apart by their dotted names, for no word has a dot. -/
theorem Parsed.toldApart {p : Program Float} (h : p.Parsed) : p.ToldApart := by
  have back {path : ClassPath} (listed : path ∈ p.paths) : segments (dotted path) = path := by
    obtain ⟨some_segment, words⟩ := h.paths path listed
    exact segments_dotted some_segment fun step hstep => (words step hstep).not_mem (by decide)
  intro path listed path' listed' same
  rw [← back listed, same, back listed']

/-- A tram with two bases. -/
def tram : Located Int :=
  ⟨["Tram"],
    ⟨"Tram", .model, false, none,
      [.inherit ⟨"Parts.Carriage", []⟩, .inherit ⟨"Parts.Cabin", []⟩], []⟩⟩

/-- The bases of a tram extend a body both, and the body extends one of them in turn. -/
def trams : Program Int :=
  let part (name base : String) (elements : List (Element Int)) : Element Int :=
    .nested ⟨name, .model, false, none, .inherit ⟨base, []⟩ :: elements, []⟩
  let seats : Component Int := ⟨"seats", "Real", .parameter, none, [], some (.number 40), none⟩
  ⟨[⟨"Parts", .package, false, none,
      [part "Body" "Carriage" [], part "Carriage" "Body" [],
        part "Cabin" "Body" [.component seats]], []⟩,
    tram.decl]⟩

end Program

end Acausal
