-- The order of definitions. An order that is found lists each defined name once and behind
-- what its definition reads; one is found exactly when no definition reads itself through
-- others, and a loop that is reported is one. Visits follow their rule and come to an end.
import Acausal.System.Order
import Acausal.Proofs.Names
import Acausal.Proofs.Success
import Mathlib.Data.List.Chain
import Mathlib.Data.Set.Finite.List
import Mathlib.Logic.Relation
import Mathlib.Order.WellFounded

namespace Acausal

open Relation

variable {α : Type}

/-! ## Waiting -/

/-- Where each of finitely many names is blocked or waits for one of them, every name leads to
one that is blocked or into a loop. -/
theorem blocked_or_loop {waits : String → String → Prop} {blocked : String → Prop}
    {names : List String} (each : ∀ n ∈ names, blocked n ∨ ∃ other ∈ names, waits n other)
    {name : String} (inside : name ∈ names) :
    ∃ last, ReflTransGen waits name last ∧ (blocked last ∨ TransGen waits last last) := by
  by_contra free
  push Not at free
  -- The names led to are finitely many, so without a loop one of them leads to no other.
  let Led := {n // n ∈ names ∧ ReflTransGen waits name n}
  let reaches (a b : Led) := TransGen waits b.1 a.1
  have := Finite.of_injective (fun n : Led => (⟨n.1, n.2.1⟩ : {n // n ∈ names}))
    fun _ _ same => Subtype.ext (Subtype.mk.inj same)
  have : IsTrans Led reaches := ⟨fun _ _ _ hab hbc => hbc.trans hab⟩
  have : Std.Irrefl reaches := ⟨fun a => (free a.1 a.2.2).2⟩
  have founded : WellFounded reaches := Finite.wellFounded_of_trans_of_irrefl reaches
  obtain ⟨⟨n, listed, led⟩, -, least⟩ := founded.has_min Set.univ ⟨⟨name, inside, .refl⟩, trivial⟩
  rcases each n listed with isBlocked | ⟨other, hother, step⟩
  · exact (free n led).1 isBlocked
  · exact least ⟨other, hother, led.tail step⟩ trivial (.single step)

/-! ## What definitions read -/

namespace Definitions

/-- One definition reads the other. -/
def Reads (d : Definitions α) (name read : String) : Prop := read ∈ d.reads name

/-- No definition reads itself, be it through others. -/
def Acyclic (d : Definitions α) : Prop := ∀ name, ¬ TransGen d.Reads name name

theorem mem_reads {d : Definitions α} {name read : String} :
    read ∈ d.reads name ↔
      ∃ e, d.lookup name = some e ∧ (∃ r ∈ e.refs, r.flatName = read) ∧ d.defines read := by
  unfold reads
  cases d.lookup name <;> simp

theorem defines_of_reads {d : Definitions α} {name read : String} (h : d.Reads name read) :
    d.defines read := by
  obtain ⟨_, _, _, defined⟩ := mem_reads.1 h
  exact defined

/-- A name that a loop comes back to is defined. -/
theorem defines_of_loop {d : Definitions α} {name : String} (loop : TransGen d.Reads name name) :
    d.defines name := by
  obtain ⟨_, _, last⟩ := TransGen.tail'_iff.1 loop
  exact defines_of_reads last

/-- Among finitely many definitions without a loop, some reads none of them. -/
theorem Acyclic.exists_reads_none {d : Definitions α} (acyclic : d.Acyclic) (names : List String)
    (nonempty : names ≠ []) : ∃ name ∈ names, ∀ n ∈ names, ¬ d.Reads name n := by
  by_contra reads
  push Not at reads
  obtain ⟨first, hfirst⟩ := List.exists_mem_of_ne_nil names nonempty
  obtain ⟨name, -, stuck⟩ :=
    @blocked_or_loop d.Reads (fun _ => False) names (fun n hn => .inr (reads n hn)) first hfirst
  exact stuck.elim id (acyclic name)

theorem defines_iff {d : Definitions α} {name : String} :
    d.defines name ↔ name ∈ d.map (·.1) := lookup_isSome_iff_mem

end Definitions

/-- The names of a loop start and end with one name, and each reads the next. -/
def Loop.Genuine (loop : Loop) (d : Definitions α) : Prop :=
  ∃ first between, loop.names = first :: between ++ [first] ∧ loop.names.IsChain d.Reads

theorem Loop.Genuine.reads_itself {d : Definitions α} {loop : Loop} (h : loop.Genuine d) :
    ∃ name, TransGen d.Reads name name := by
  obtain ⟨first, between, names, chain⟩ := h
  rw [names] at chain
  refine ⟨first, ?_⟩
  have walked : ∀ (between : List String) (start : String),
      (start :: between ++ [first]).IsChain d.Reads → TransGen d.Reads start first := by
    intro between
    induction between with
    | nil =>
      intro start chain
      exact .single (by simpa using chain)
    | cons next between ih =>
      intro start chain
      rw [List.cons_append, List.cons_append, List.isChain_cons_cons] at chain
      exact .head chain.1 (ih next chain.2)
  exact walked between first chain

namespace Definitions

/-- In an order with layers, each name is new and stands behind all that its definition
reads. -/
inductive Layered (d : Definitions α) : List String → Prop where
  | nil : Layered d []
  | snoc {order : List String} {name : String} (earlier : Layered d order)
      (new : name ∉ order) (behind : ∀ n ∈ d.reads name, n ∈ order) : Layered d (order ++ [name])

namespace Layered

variable {d : Definitions α} {order : List String}

theorem nodup (h : Layered d order) : order.Nodup := by
  induction h with
  | nil => exact List.nodup_nil
  | snoc _ new _ ih => simpa [List.nodup_append] using ⟨ih, fun n hn hne => new (hne ▸ hn)⟩

/-- What a definition reads comes before it. -/
theorem reads_before (h : Layered d order) {before after : List String} {name : String}
    (cut : order = before ++ name :: after) : ∀ n ∈ d.reads name, n ∈ before := by
  induction h generalizing after with
  | nil => simp at cut
  | snoc earlier new behind ih =>
    rcases List.eq_nil_or_concat after with rfl | ⟨middle, last, rfl⟩
    · obtain ⟨rfl, h⟩ := List.append_inj' cut rfl
      cases h
      exact behind
    · rw [List.concat_eq_append, ← List.cons_append, ← List.append_assoc] at cut
      exact ih (List.append_inj' cut rfl).1

theorem reads_mem (h : Layered d order) {name : String} (hname : name ∈ order) :
    ∀ n ∈ d.reads name, n ∈ order := by
  intro n hn
  obtain ⟨before, after, rfl⟩ := List.append_of_mem hname
  exact List.mem_append_left _ (h.reads_before rfl n hn)

/-- A name of the order is not read back from what it reads. -/
theorem no_loop (h : Layered d order) : ∀ name ∈ order, ¬ TransGen d.Reads name name := by
  induction h with
  | nil => simp
  | @snoc order name earlier new behind ih =>
    intro a ha loop
    rcases List.mem_append.1 ha with ha | ha
    · exact ih a ha loop
    · rw [List.mem_singleton] at ha
      subst ha
      have closed : ∀ b, TransGen d.Reads a b → b ∈ order := by
        intro b hb
        induction hb with
        | single hb => exact behind _ hb
        | tail _ step inside => exact earlier.reads_mem inside _ step
      exact new (closed a loop)

end Layered

/-! ## Visits -/

/-- What a visit makes of an order: it only adds names, taken from the free ones, and keeps
the layers. -/
structure Grows (d : Definitions α) (free order order' : List String) : Prop where
  keeps : order ⊆ order'
  from_free : ∀ n ∈ order', n ∈ order ∨ n ∈ free
  layered : Layered d order → Layered d order'

namespace Grows

variable {d : Definitions α} {free free' a b c : List String}

theorem refl : Grows d free a a := ⟨List.Subset.refl a, fun _ => .inl, id⟩

theorem trans (h : Grows d free a b) (h' : Grows d free b c) : Grows d free a c where
  keeps := List.Subset.trans h.keeps h'.keeps
  from_free n hn := (h'.from_free n hn).elim (h.from_free n) .inr
  layered := h'.layered ∘ h.layered

theorem mono (h : Grows d free a b) (le : free ⊆ free') : Grows d free' a b :=
  ⟨h.keeps, fun n hn => (h.from_free n hn).imp_right (le ·), h.layered⟩

end Grows

variable {d : Definitions α}

/-- A visit of a free name visits what its definition reads, on a longer path. -/
theorem visit_free {free path order : List String} {name : String} (new : name ∉ order)
    (isFree : name ∈ free) :
    d.visit free path order name =
      ((d.reads name).foldlM (d.visit (without name free) (path ++ [name])) order >>=
        fun order => .ok (order ++ [name])) := by
  rw [visit, if_neg new, dif_pos isFree]
  rfl

/-- Visits one after another put every name they start from into the order. -/
theorem foldlM_grows {visit : List String → String → Except Loop (List String)}
    {free names order order' : List String}
    (step : ∀ order name order', visit order name = .ok order' →
      Grows d free order order' ∧ name ∈ order')
    (h : names.foldlM visit order = .ok order') :
    Grows d free order order' ∧ ∀ n ∈ names, n ∈ order' := by
  induction names generalizing order with
  | nil =>
    rw [List.foldlM_nil, pure_eq_ok] at h
    subst h
    exact ⟨.refl, by simp⟩
  | cons name names ih =>
    rw [List.foldlM_cons, bind_eq_ok] at h
    obtain ⟨middle, first, rest⟩ := h
    obtain ⟨grown, inside⟩ := step _ _ _ first
    obtain ⟨grown', inside'⟩ := ih rest
    exact ⟨grown.trans grown', List.forall_mem_cons.2 ⟨grown'.keeps inside, inside'⟩⟩

theorem visit_grows {free path order order' : List String} {name : String}
    (h : d.visit free path order name = .ok order') :
    Grows d free order order' ∧ name ∈ order' := by
  induction free, path, order, name using visit.induct d generalizing order' with
  | case1 free path order name seen =>
    rw [visit, if_pos seen] at h
    cases h
    exact ⟨.refl, seen⟩
  | case2 free path order name new isFree ih =>
    rw [visit_free new isFree] at h
    obtain ⟨middle, visited, done⟩ := bind_eq_ok.1 h
    cases done
    obtain ⟨grown, inside⟩ := foldlM_grows (fun o n o' hv => ih o n hv) visited
    -- The name itself is no longer free while what it reads is visited.
    have still : name ∉ middle := by
      intro hmem
      rcases grown.from_free name hmem with h | h
      · exact new h
      · exact (mem_without.1 h).2 rfl
    have wide := grown.mono fun n hn => (mem_without.1 hn).1
    refine ⟨⟨fun n hn => ?_, fun n hn => ?_, fun layers => ?_⟩, by simp⟩
    · exact List.mem_append_left _ (wide.keeps hn)
    · rcases List.mem_append.1 hn with hn | hn
      · exact wide.from_free n hn
      · exact .inr (List.mem_singleton.1 hn ▸ isFree)
    · exact .snoc (wide.layered layers) still inside
  | case3 free path order name new taken =>
    rw [visit, if_neg new, dif_neg taken] at h
    cases h

/-! ## Loops -/

theorem dropWhile_of_mem {name : String} {path : List String} (h : name ∈ path) :
    ∃ before after, path = before ++ name :: after ∧
      path.dropWhile (· != name) = name :: after := by
  induction path with
  | nil => simp at h
  | cons first path ih =>
    by_cases hf : first = name
    · subst hf
      exact ⟨[], path, rfl, by simp⟩
    · obtain ⟨before, after, rfl, drop⟩ := ih (by simpa [Ne.symm hf] using h)
      exact ⟨first :: before, after, rfl, by simp [hf, drop]⟩

/-- A visit that fails has walked a loop, where every defined name is free or on the path and
each name of the path reads the next. -/
theorem visit_error {free path order : List String} {name : String} {loop : Loop}
    (h : d.visit free path order name = .error loop) (defined : d.defines name)
    (cover : ∀ n, d.defines n → n ∈ free ∨ n ∈ path)
    (walk : (path ++ [name]).IsChain d.Reads) : loop.Genuine d := by
  induction free, path, order, name using visit.induct d with
  | case1 free path order name seen =>
    rw [visit, if_pos seen] at h
    cases h
  | case2 free path order name new isFree ih =>
    rw [visit_free new isFree] at h
    cases hv : (d.reads name).foldlM (d.visit (without name free) (path ++ [name])) order with
    | ok middle =>
      rw [hv] at h
      cases h
    | error _ =>
      rw [hv] at h
      cases h
      obtain ⟨order', n, hn, fails⟩ := foldlM_error hv
      refine ih order' n fails (defines_of_reads hn) (fun m hm => ?_) ?_
      · by_cases hmn : m = name
        · exact .inr (by simp [hmn])
        · exact (cover m hm).imp (fun h => mem_without.2 ⟨h, hmn⟩) fun h => by simp [h]
      · rw [List.isChain_append]
        refine ⟨walk, List.isChain_singleton _, fun last hlast next hnext => ?_⟩
        simp only [List.getLast?_append, List.getLast?_singleton, List.head?_singleton,
          Option.mem_def, Option.some_or, Option.some.injEq] at hlast hnext
        subst hlast hnext
        exact hn
  | case3 free path order name new taken =>
    rw [visit, if_neg new, dif_neg taken] at h
    cases h
    obtain ⟨before, after, rfl, drop⟩ := dropWhile_of_mem ((cover name defined).resolve_left taken)
    refine ⟨name, after, by simp [drop], ?_⟩
    simp only [drop]
    rw [List.append_assoc, List.isChain_append] at walk
    exact walk.2.1

/-! ## The order -/

/-- An order that is found has layers, holds only defined names, and holds every declared
name that is defined. -/
theorem sorted_eq_ok {declared order : List String} (h : d.sorted declared = .ok order) :
    Layered d order ∧ (∀ n ∈ order, d.defines n) ∧ ∀ n ∈ declared, d.defines n → n ∈ order := by
  obtain ⟨grown, inside⟩ := foldlM_grows (fun _ _ _ => visit_grows) h
  refine ⟨grown.layered .nil, fun n hn => ?_, fun n hn defined => ?_⟩
  · rcases grown.from_free n hn with h | h
    · simp at h
    · exact defines_iff.2 h
  · exact inside n (List.mem_filter.2 ⟨hn, defined⟩)

theorem sorted_eq_error {declared : List String} {loop : Loop}
    (h : d.sorted declared = .error loop) : loop.Genuine d := by
  obtain ⟨order, name, hname, fails⟩ := foldlM_error h
  exact visit_error fails (List.mem_filter.1 hname).2
    (fun n hn => .inl (defines_iff.1 hn)) (List.isChain_singleton _)

/-- Definitions of declared names can be put in an order exactly when there is no loop. -/
theorem exists_sorted_eq_ok {declared : List String}
    (covered : ∀ n, d.defines n → n ∈ declared) :
    (∃ order, d.sorted declared = .ok order) ↔ d.Acyclic := by
  constructor
  · rintro ⟨order, h⟩ name loop
    obtain ⟨layers, _, inside⟩ := sorted_eq_ok h
    have defined := defines_of_loop loop
    exact layers.no_loop name (inside name (covered name defined) defined) loop
  · intro acyclic
    cases h : d.sorted declared with
    | ok order => exact ⟨order, rfl⟩
    | error loop =>
      obtain ⟨name, around⟩ := (sorted_eq_error h).reads_itself
      exact absurd around (acyclic name)

/-! ## Visits along a path -/

/-- A visit that may enter every defined name that is not on its path. -/
def visitAlong (d : Definitions α) (path : List String) :
    List String → String → Except Loop (List String) :=
  d.visit (path.reverse.foldr without (d.map (·.1))) path

/-- A visit finds its name in the order or, where a loop closes, on its path, or else visits what
its definition reads and puts the name behind it. -/
theorem visitAlong_eq (path order : List String) {name : String} (defined : d.defines name) :
    d.visitAlong path order name =
      if name ∈ order then .ok order
      else if name ∈ path then .error ⟨path.dropWhile (· != name) ++ [name]⟩
      else (d.reads name).foldlM (d.visitAlong (path ++ [name])) order >>=
        fun order => .ok (order ++ [name]) := by
  have isFree : name ∈ path.reverse.foldr without (d.map (·.1)) ↔ name ∉ path := by
    rw [mem_foldr_without, List.mem_reverse]
    exact and_iff_right (defines_iff.1 defined)
  by_cases seen : name ∈ order
  · rw [if_pos seen, visitAlong, visit, if_pos seen]
  · rw [if_neg seen]
    by_cases looped : name ∈ path
    · rw [if_pos looped, visitAlong, visit, if_neg seen, dif_neg (by rwa [isFree, not_not])]
    · rw [if_neg looped, visitAlong, visit_free seen (isFree.2 looped)]
      simp only [visitAlong, List.reverse_append, List.reverse_singleton, List.singleton_append,
        List.foldr_cons]

/-- The visit of one name makes that of another inside it. A visit is given by its path and its
name. -/
def VisitsInside (d : Definitions α) (next here : List String × String) : Prop :=
  here.2 ∉ here.1 ∧ next.1 = here.1 ++ [here.2] ∧ next.2 ∈ d.reads here.2

/-- Visits inside visits come to an end, as each takes one more defined name onto its path. -/
theorem visitsInside_wellFounded (d : Definitions α) : WellFounded d.VisitsInside := by
  have entered := entering_wellFounded id (d.map (·.1)) (fun here next => next ∈ d.reads here)
    fun _ _ read => defines_iff.1 (defines_of_reads read)
  refine Subrelation.wf ?_
    (InvImage.wf (fun visit : List String × String => (visit.1.reverse, visit.2)) entered)
  rintro next here ⟨fresh, path, read⟩
  exact ⟨by simpa using fresh, by simp [path], read⟩

/-- Visits end, whatever the definitions are. Definitions of declared names are put in an order
exactly when there is no loop among them; the order lists each defined name once and behind all
that its definition reads. Otherwise the names of a loop are reported, of which each reads the
next. -/
theorem definitions_are_sorted (d : Definitions α) (declared : List String)
    (covered : ∀ n, d.defines n → n ∈ declared) :
    (d.sorted declared = (declared.filter d.defines).foldlM (d.visitAlong []) [] ∧
      (∀ path order name, d.defines name → d.visitAlong path order name =
        if name ∈ order then .ok order
        else if name ∈ path then .error ⟨path.dropWhile (· != name) ++ [name]⟩
        else (d.reads name).foldlM (d.visitAlong (path ++ [name])) order >>=
          fun order => .ok (order ++ [name])) ∧
      WellFounded d.VisitsInside) ∧
    ((∃ order, d.sorted declared = .ok order) ↔ d.Acyclic) ∧
    (∀ order, d.sorted declared = .ok order →
      order.Nodup ∧ (∀ n, n ∈ order ↔ d.defines n) ∧
        ∀ before name after, order = before ++ name :: after →
          ∀ n ∈ d.reads name, n ∈ before) ∧
    ∀ loop, d.sorted declared = .error loop → loop.Genuine d := by
  refine ⟨⟨rfl, fun path order _ => visitAlong_eq path order, visitsInside_wellFounded d⟩,
    exists_sorted_eq_ok covered, fun order found => ?_, fun loop => sorted_eq_error⟩
  obtain ⟨layers, defined, inside⟩ := sorted_eq_ok found
  exact ⟨layers.nodup, fun n => ⟨defined n, fun h => inside n (covered n h) h⟩,
    fun before name after cut => layers.reads_before cut⟩

/-- A sum of two forces that share a length, of which the definition of one may be closed into a
loop. -/
def forces (length : Expr Int) : Definitions Int :=
  [("sum", .binary (.ref ⟨"left", none⟩) .add (.ref ⟨"right", none⟩)),
    ("left", .neg (.ref ⟨"length", none⟩)), ("right", .ref ⟨"length", none⟩),
    ("length", length)]

theorem forces_are_sorted :
    (forces .time).sorted ["sum", "left", "x", "right", "length"] =
        .ok ["length", "left", "right", "sum"] ∧
      (forces .time).Acyclic ∧
      (forces (.ref ⟨"sum", none⟩)).sorted ["sum", "left", "x", "right", "length"] =
        .error ⟨["sum", "left", "length", "sum"]⟩ ∧
      Loop.Genuine ⟨["sum", "left", "length", "sum"]⟩ (forces (.ref ⟨"sum", none⟩)) := by
  have covered (length : Expr Int) (n : String) (defined : (forces length).defines n) :
      n ∈ ["sum", "left", "x", "right", "length"] := by
    have := defines_iff.1 defined
    simp only [forces, List.map_cons, List.map_nil] at this
    grind
  have found : (forces .time).sorted ["sum", "left", "x", "right", "length"] =
      .ok ["length", "left", "right", "sum"] := by
    with_unfolding_all rfl
  have looped : (forces (.ref ⟨"sum", none⟩)).sorted ["sum", "left", "x", "right", "length"] =
      .error ⟨["sum", "left", "length", "sum"]⟩ := by
    with_unfolding_all rfl
  have flat := definitions_are_sorted (forces .time) _ (covered _)
  have closed := definitions_are_sorted (forces (.ref ⟨"sum", none⟩)) _ (covered _)
  exact ⟨found, flat.2.1.1 ⟨_, found⟩, looped, closed.2.2.2 _ looped⟩

end Definitions

end Acausal
