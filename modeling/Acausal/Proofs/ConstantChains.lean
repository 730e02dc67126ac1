-- Chains of constants. The binding of a constant may name other constants, whose own bindings take
-- their place. Chains of constants are followed up to a fixed length: where none is longer, every
-- constant that does not depend on itself is inlined, and only dependence on itself is reported as
-- such. A longer chain is refused although it ends.
import Acausal.Proofs.ResolvedReferences
import Mathlib

namespace Acausal

open Relation

variable {α : Type}

/-! ## Definitions that lead to each other -/

namespace Program

/-- A constant leads to those that its binding names. -/
def LeadsTo (p : Program α) (d next : Located α × Component α) : Prop :=
  ∃ binding, d.2.binding = some binding ∧
    ∃ r ∈ binding.refs, p.constant? (.binding d.1) (segments r.name) = some next

/-- A constant has a definition if it has a binding, in which all names are those of constants
and all calls are of builtins with one argument. -/
def Defines (p : Program α) (d : Located α × Component α) : Prop :=
  ∃ binding, d.2.binding = some binding ∧ binding.Applied ∧
    ∀ r ∈ binding.refs, (p.constant? (.binding d.1) (segments r.name)).isSome

/-- The binding of a constant takes others as they are: none of an array, none of a derivative. -/
def Bare (d : Located α × Component α) : Prop :=
  ∀ binding, d.2.binding = some binding →
    binding.derivatives = [] ∧ ∀ r ∈ binding.refs, r.index = none

/-- An expression in a class becomes another one when each constant in it is replaced by what its
own binding becomes. -/
inductive Inlines (p : Program α) : Located α → Expr α → Expr α → Prop
  | number (owner value) : Inlines p owner (.number value) (.number value)
  | time (owner) : Inlines p owner .time .time
  | neg {owner operand inner} (h : Inlines p owner operand inner) :
      Inlines p owner (.neg operand) (.neg inner)
  | binary {owner lhs rhs left right} (op) (hl : Inlines p owner lhs left)
      (hr : Inlines p owner rhs right) :
      Inlines p owner (.binary lhs op rhs) (.binary left op right)
  | call {owner arg inner} (function) (h : Inlines p owner arg inner) :
      Inlines p owner (.call function [arg]) (.call function [inner])
  | constant {owner name found binding e}
      (looked : p.constant? (.binding owner) (segments name) = some found)
      (bound : found.2.binding = some binding) (h : Inlines p found.1 binding e) :
      Inlines p owner (.ref ⟨name, none⟩) e

variable {p : Program α} {d next : Located α × Component α}

/-- When all constants are replaced no reference is left. -/
theorem Inlines.refs_eq_nil {owner : Located α} {e e' : Expr α} (h : p.Inlines owner e e') :
    e'.refs = [] := by
  induction h with
  | number => rfl
  | time => rfl
  | neg _ ih => exact ih
  | binary op _ _ ihl ihr => rw [Expr.refs, ihl, ihr, List.append_nil]
  | call function _ ih => rw [Expr.refs, Expr.refsAll, ih, Expr.refsAll, List.append_nil]
  | constant _ _ _ ih => exact ih

end Program

/-! ## Chains -/

section
variable {β : Type} {R : β → β → Prop} {x : β} {l : List β}

/-- Along a chain nothing comes again, unless it leads to itself. -/
theorem nodup_of_isChain (acyclic : ∀ y, ReflTransGen R x y → ¬ TransGen R y y)
    (chain : (x :: l).IsChain R) : (x :: l).Nodup := by
  have later : (x :: l).Pairwise (TransGen R) :=
    List.isChain_iff_pairwise.1 (chain.imp fun _ _ => .single)
  refine later.imp_of_mem fun {a b} ha _ leads same => ?_
  subst same
  refine acyclic a ?_ leads
  rcases List.mem_cons.1 ha with rfl | ha
  · exact .refl
  · exact (List.rel_of_pairwise_cons later ha).to_reflTransGen

end

/-! ## Following a chain -/

namespace Expr

/-- An expression in the binding of a constant is resolved if each name in it is. -/
theorem exists_resolve_inlines {p : Program α} {owner : Located α}
    {meaning : Ref → Except ResolveError (Expr α)} {e : Expr α} (applied : e.Applied)
    (underived : e.derivatives = [])
    (meant : ∀ r ∈ e.refs, ∃ x, meaning r = .ok x ∧ p.Inlines owner (.ref r) x) :
    ∃ e', e.resolve meaning = .ok e' ∧ p.Inlines owner e e' := by
  induction e with
  | number value => exact ⟨_, rfl, .number owner value⟩
  | time => exact ⟨_, rfl, .time owner⟩
  | ref r =>
    rw [resolve]
    exact meant r (by simp [refs])
  | der r => cases underived
  | neg operand ih =>
    obtain ⟨inner, resolved, inlined⟩ := ih applied underived meant
    refine ⟨.neg inner, ?_, .neg inlined⟩
    rw [resolve, resolved]
    rfl
  | binary lhs op rhs ihl ihr =>
    rw [derivatives, List.append_eq_nil_iff] at underived
    simp only [refs, List.mem_append, or_imp, forall_and] at meant
    obtain ⟨left, hleft, inlinedLeft⟩ :=
      ihl (fun c hc => applied c (List.mem_append_left _ hc)) underived.1 meant.1
    obtain ⟨right, hright, inlinedRight⟩ :=
      ihr (fun c hc => applied c (List.mem_append_right _ hc)) underived.2 meant.2
    refine ⟨.binary left op right, ?_, .binary op inlinedLeft inlinedRight⟩
    rw [resolve, hleft, hright]
    rfl
  | call function args ih =>
    have own : WellApplied (function, args) := applied _ (by simp [applications])
    obtain ⟨f, arg, known, rfl⟩ := wellApplied_iff.1 own
    rw [derivatives, derivativesAll, derivativesAll, List.append_nil] at underived
    rw [refs, refsAll, refsAll, List.append_nil] at meant
    have inside : arg.Applied := fun c hc => applied c (by simp [applications, applicationsAll, hc])
    obtain ⟨inner, resolved, inlined⟩ := ih arg (by simp) inside underived meant
    refine ⟨.call function [inner], ?_, .call function inlined⟩
    simp only [resolve, resolveAll, known, resolved]
    rfl

/-- Only a name leads further than constants may lead. -/
theorem exists_circular_of_resolve {meaning : Ref → Except ResolveError (Expr α)} {e : Expr α}
    {name : String} (h : e.resolve meaning = .error (.circularConstant name)) :
    ∃ r ∈ e.refs, meaning r = .error (.circularConstant name) := by
  induction e with
  | number value => cases h
  | time => cases h
  | ref r =>
    rw [resolve] at h
    exact ⟨r, by simp [refs], h⟩
  | der r =>
    rw [resolve, bind_eq_error] at h
    rcases h with h | ⟨x, -, h⟩
    · exact ⟨r, by simp [refs], h⟩
    · split at h <;> cases h
  | neg operand ih =>
    rw [resolve, bind_eq_error] at h
    rcases h with h | ⟨_, -, h⟩
    · exact ih h
    · cases h
  | binary lhs op rhs ihl ihr =>
    rw [resolve, bind_eq_error] at h
    rcases h with h | ⟨_, -, h⟩
    · obtain ⟨r, hr, fails⟩ := ihl h
      exact ⟨r, List.mem_append_left _ hr, fails⟩
    · rcases bind_eq_error.1 h with h | ⟨_, -, h⟩
      · obtain ⟨r, hr, fails⟩ := ihr h
        exact ⟨r, List.mem_append_right _ hr, fails⟩
      · cases h
  | call function args ih =>
    rw [resolve] at h
    split at h
    · cases h
    · split at h
      · cases h
      · rcases bind_eq_error.1 h with h | ⟨_, -, h⟩
        · rw [resolveAll_eq_mapM] at h
          obtain ⟨arg, harg, fails⟩ := mapM_error h
          obtain ⟨r, hr, fails⟩ := ih arg harg fails
          exact ⟨r, mem_refsAll.2 ⟨arg, harg, hr⟩, fails⟩
        · cases h

end Expr

namespace Program

variable {p : Program α} {scope : Scope α} {r : Ref} {d : Located α × Component α}

/-- A constant is inlined where no chain from it is longer than constants may lead. -/
theorem exists_inlined (depth : Nat) (outside : p.componentRef? scope r = none)
    (bare : r.index = none) (looked : p.constant? scope (segments r.name) = some d)
    (defined : ∀ x, ReflTransGen p.LeadsTo d x → p.Defines x ∧ Bare x)
    (bounded : ∀ l, (d :: l).IsChain p.LeadsTo → (d :: l).length ≤ depth) :
    ∃ binding e, d.2.binding = some binding ∧ p.meaning depth scope r = .ok e ∧
      p.Inlines d.1 binding e := by
  induction depth generalizing scope r d with
  | zero =>
    have none_left := bounded [] (.singleton d)
    simp at none_left
  | succ depth ih =>
    obtain ⟨⟨binding, bound, applied, named⟩, taken⟩ := defined d .refl
    obtain ⟨underived, unsubscripted⟩ := taken binding bound
    have meant (inner : Ref) (listed : inner ∈ binding.refs) :
        ∃ x, p.meaning depth (.binding d.1) inner = .ok x ∧ p.Inlines d.1 (.ref inner) x := by
      obtain ⟨next, found⟩ := Option.isSome_iff_exists.1 (named inner listed)
      have leads : p.LeadsTo d next := ⟨binding, bound, inner, listed, found⟩
      have outside : p.componentRef? (.binding d.1) inner = none := rfl
      -- A chain from the constant named here is longer by one from the constant at hand.
      obtain ⟨binding', x, bound', made, inlined⟩ :=
        ih outside (unsubscripted inner listed) found
          (fun y reaches => defined y (.head leads reaches)) fun l chain => by
            have longer := bounded (next :: l) (.cons_cons leads chain)
            simpa using longer
      refine ⟨x, made, ?_⟩
      obtain ⟨name, index⟩ := inner
      cases unsubscripted _ listed
      exact .constant found bound' inlined
    obtain ⟨e, resolved, inlined⟩ := Expr.exists_resolve_inlines applied underived meant
    refine ⟨binding, e, bound, meaning_eq_ok_iff.2 (.inr ?_), inlined⟩
    exact ⟨outside, bare, d.1, d.2, depth, binding, looked, rfl, bound, resolved⟩

/-- Constants lead too far from a name when they may not lead on at all, or too far from its
binding. -/
theorem circular_of_meaning {depth : Nat} {name : String}
    (h : p.meaning depth scope r = .error (.circularConstant name)) :
    ∃ d, p.constant? scope (segments r.name) = some d ∧
      (depth = 0 ∨ ∃ rest binding, depth = rest + 1 ∧ d.2.binding = some binding ∧
        binding.resolve (p.meaning rest (.binding d.1)) = .error (.circularConstant name)) := by
  unfold meaning at h
  extract_lets component at h
  clear_value component
  split at h
  · cases h
  · split at h
    · cases h
    · split at h
      · cases h
      · next owner constant looked =>
        refine ⟨(owner, constant), looked, ?_⟩
        cases depth with
        | zero => exact .inl rfl
        | succ rest =>
          simp only at h
          split at h
          · cases h
          · next binding bound => exact .inr ⟨rest, binding, rfl, bound, h⟩

/-- Where constants lead too far there is a chain of more of them than may lead on. -/
theorem exists_chain_of_circular {depth : Nat} {name : String}
    (h : p.meaning depth scope r = .error (.circularConstant name)) :
    ∃ d l, p.constant? scope (segments r.name) = some d ∧ (d :: l).IsChain p.LeadsTo ∧
      l.length = depth := by
  induction depth generalizing scope r with
  | zero =>
    obtain ⟨d, looked, -⟩ := circular_of_meaning h
    exact ⟨d, [], looked, .singleton d, rfl⟩
  | succ depth ih =>
    obtain ⟨d, looked, none_left | ⟨_, binding, same, bound, fails⟩⟩ := circular_of_meaning h
    · cases none_left
    · cases same
      obtain ⟨inner, listed, fails⟩ := Expr.exists_circular_of_resolve fails
      obtain ⟨next, l, found, chain, length⟩ := ih fails
      have leads : p.LeadsTo d next := ⟨binding, bound, inner, listed, found⟩
      exact ⟨d, next :: l, looked, .cons_cons leads chain, by simp [length]⟩

/-- A reference to a constant from which no chain of different constants is longer than constants
may lead. Where nothing it leads to leads to itself, it is resolved to its binding with every
constant in it replaced, in which no reference is left; and only where something does is a
constant reported as one that depends on itself. -/
theorem constants_resolve_along_short_chains (outside : p.componentRef? scope r = none)
    (bare : r.index = none) (looked : p.constant? scope (segments r.name) = some d)
    (short : ∀ l, (d :: l).IsChain p.LeadsTo → (d :: l).Nodup → (d :: l).length ≤ constantDepth) :
    ((∀ x, ReflTransGen p.LeadsTo d x → p.Defines x ∧ Bare x) →
      (∀ x, ReflTransGen p.LeadsTo d x → ¬ TransGen p.LeadsTo x x) →
      ∃ binding e, d.2.binding = some binding ∧ p.resolve scope (.ref r) = .ok e ∧
        p.Inlines d.1 binding e ∧ e.refs = []) ∧
    ∀ name, p.resolve scope (.ref r) = .error (.circularConstant name) →
      ∃ x, ReflTransGen p.LeadsTo d x ∧ TransGen p.LeadsTo x x := by
  unfold resolve
  simp only [Expr.resolve]
  refine ⟨fun defined acyclic => ?_, fun name circular => ?_⟩
  · obtain ⟨binding, e, bound, made, inlined⟩ :=
      exists_inlined constantDepth outside bare looked defined fun l chain =>
        short l chain (nodup_of_isChain acyclic chain)
    exact ⟨binding, e, bound, made, inlined, inlined.refs_eq_nil⟩
  · obtain ⟨d', l, found, chain, length⟩ := exists_chain_of_circular circular
    rw [looked] at found
    cases found
    by_contra acyclic
    have apart : ∀ x, ReflTransGen p.LeadsTo d x → ¬ TransGen p.LeadsTo x x := by
      simpa using acyclic
    have bounded := short l chain (nodup_of_isChain apart chain)
    rw [List.length_cons, length] at bounded
    omega

end Program

/-! ## Ladders -/

/-- The name of a rung, with one letter more for each rung. -/
def rungName (i : Nat) : String := String.ofList (List.replicate (i + 1) 'c')

theorem rungName_inj {i j : Nat} (h : rungName i = rungName j) : i = j := by
  have lengths := congrArg String.length h
  simpa [rungName] using lengths

theorem segments_rungName (i : Nat) : segments (rungName i) = [rungName i] :=
  segments_of_simple (by simp [rungName])

/-- A ladder of constants, each defined by a step to the next one, and a model that takes the
first of them. -/
structure Ladder where
  step : Ref → Expr Int
  subscript : Option Nat
  length : Nat
  refs_step (r : Ref) : (step r).refs = [r]
  applications_step (r : Ref) : (step r).applications = []

namespace Ladder

/-- A ladder of constants that are each the next one. -/
def plain (length : Nat) : Ladder := ⟨.ref, none, length, fun _ => rfl, fun _ => rfl⟩

/-- A constant that is an element of another one. -/
def subscripted : Ladder := ⟨.ref, some 1, 1, fun _ => rfl, fun _ => rfl⟩

/-- A constant that is the derivative of another one. -/
def derived : Ladder := ⟨.der, none, 1, fun _ => rfl, fun _ => rfl⟩

/-- What a constant of the ladder is; the last one takes no step. -/
def binding (w : Ladder) (i : Nat) : Expr Int :=
  if i < w.length then w.step ⟨rungName (i + 1), w.subscript⟩ else .number 1

def rung (w : Ladder) (i : Nat) : Component Int :=
  ⟨rungName i, "Real", .constant, none, [], some (w.binding i), none⟩

def package (w : Ladder) : Located Int :=
  ⟨["P"], ⟨"P", .package, false, none,
    (List.range (w.length + 1)).map fun i => .component (w.rung i), []⟩⟩

def user : Located Int :=
  ⟨["M"], ⟨"M", .model, false, none,
    [.component ⟨"x", "Real", .parameter, none, [], some (.ref ⟨"P.c", none⟩), none⟩], []⟩⟩

def program (w : Ladder) : Program Int := ⟨[w.package.decl, user.decl]⟩

/-- A rung with the package that it stands in. -/
def constant (w : Ladder) (i : Nat) : Located Int × Component Int := (w.package, w.rung i)

variable {w : Ladder} {i : Nat}

theorem constant?_rungName (h : i ≤ w.length) :
    w.package.decl.constant? (rungName i) = some (w.rung i) := by
  have named : w.package.decl.component? (rungName i) = some (w.rung i) := by
    have elements : w.package.decl.elements =
        (List.range (w.length + 1)).map fun j => .component (w.rung j) := rfl
    rw [ClassDecl.component?, elements, List.findSome?_map]
    generalize upTo : w.length + 1 = k
    have inside : i < k := by omega
    clear upTo
    induction k with
    | zero => omega
    | succ k ih =>
      rw [List.range_succ, List.findSome?_append]
      by_cases earlier : i < k
      · rw [ih earlier, Option.some_or]
      · have last : i = k := by omega
        subst last
        rw [List.findSome?_eq_none_iff.2, Option.none_or]
        · simp [rung]
        · intro j hj
          rw [List.mem_range] at hj
          have differ : rungName j ≠ rungName i := fun same => by
            have := rungName_inj same
            omega
          simp [rung, differ]
  rw [ClassDecl.constant?, named]
  rfl

/-- The next rung is found by its name. -/
theorem constant?_next (h : i ≤ w.length) :
    w.program.constant? (.binding w.package) (segments (rungName i)) = some (w.constant i) := by
  rw [segments_rungName]
  simp [Program.constant?, constant?_rungName h, constant]

theorem constant?_first :
    w.program.constant? (.instantiated "" user) (segments "P.c") = some (w.constant 0) := by
  have cut : segments "P.c" = ["P", rungName 0] := by decide +kernel
  have found : w.program.resolve? ["M"] ["P"] = some w.package := rfl
  rw [cut]
  change w.program.qualifiedConstant? ["M"] ["P"] (rungName 0) = _
  simp [Program.qualifiedConstant?, found, constant?_rungName, constant]

/-- A rung leads to the next one only. -/
theorem eq_of_leadsTo {x : Located Int × Component Int}
    (leads : w.program.LeadsTo (w.constant i) x) : i < w.length ∧ x = w.constant (i + 1) := by
  obtain ⟨binding, bound, r, listed, found⟩ := leads
  cases bound
  unfold Ladder.binding at listed
  split at listed
  · next inside =>
    rw [w.refs_step, List.mem_singleton] at listed
    subst listed
    have next := constant?_next (w := w) (i := i + 1) inside
    exact ⟨inside, Option.some.inj (found.symm.trans next)⟩
  · cases listed

/-- Every rung has a definition. -/
theorem defines (w : Ladder) (i : Nat) : w.program.Defines (w.constant i) := by
  refine ⟨w.binding i, rfl, ?_⟩
  unfold Ladder.binding
  split
  · next inside =>
    refine ⟨fun c hc => by simp [w.applications_step] at hc, fun r listed => ?_⟩
    rw [w.refs_step, List.mem_singleton] at listed
    subst listed
    exact Option.isSome_of_eq_some (constant?_next inside)
  · refine ⟨fun c hc => ?_, fun r listed => ?_⟩
    · cases hc
    · cases listed

/-- What is reached from a rung is a later one. -/
theorem later_of_leads {x : Located Int × Component Int}
    (leads : TransGen w.program.LeadsTo (w.constant i) x) :
    ∃ j, i < j ∧ j ≤ w.length ∧ x = w.constant j := by
  induction leads with
  | single leads =>
    obtain ⟨inside, rfl⟩ := eq_of_leadsTo leads
    exact ⟨i + 1, by omega, inside, rfl⟩
  | tail _ leads ih =>
    obtain ⟨j, later, -, rfl⟩ := ih
    obtain ⟨further, rfl⟩ := eq_of_leadsTo leads
    exact ⟨j + 1, by omega, further, rfl⟩

/-- What is reached from the first rung are rungs. -/
theorem exists_rung_of_reached {x : Located Int × Component Int}
    (reached : ReflTransGen w.program.LeadsTo (w.constant 0) x) :
    ∃ i, i ≤ w.length ∧ x = w.constant i := by
  rcases reflTransGen_iff_eq_or_transGen.1 reached with rfl | leads
  · exact ⟨0, Nat.zero_le _, rfl⟩
  · obtain ⟨j, -, inside, rfl⟩ := later_of_leads leads
    exact ⟨j, inside, rfl⟩

/-- A rung does not lead to itself. -/
theorem not_leads_to_itself (w : Ladder) (i : Nat) :
    ¬ TransGen w.program.LeadsTo (w.constant i) (w.constant i) := fun leads => by
  obtain ⟨j, later, -, same⟩ := later_of_leads leads
  have := rungName_inj (congrArg (fun d => d.2.name) same)
  omega

/-- A rung of a plain ladder takes the next one as it is. -/
theorem bare_plain (length i : Nat) : Program.Bare ((plain length).constant i) := by
  rintro _ ⟨⟩
  unfold Ladder.binding
  split
  · refine ⟨rfl, fun r listed => ?_⟩
    rw [(plain length).refs_step, List.mem_singleton] at listed
    rw [listed]
    rfl
  · exact ⟨rfl, fun r listed => nomatch listed⟩

/-- A chain of rungs is no longer than the ladder. -/
theorem length_le_of_isChain {l : List (Located Int × Component Int)} (h : i ≤ w.length)
    (chain : (w.constant i :: l).IsChain w.program.LeadsTo) : i + l.length ≤ w.length := by
  induction l generalizing i with
  | nil => exact h
  | cons x l ih =>
    rw [List.isChain_cons_cons] at chain
    obtain ⟨inside, rfl⟩ := eq_of_leadsTo chain.1
    have shorter := ih inside chain.2
    rw [List.length_cons]
    omega

/-- On a plain ladder the rung at which constants may lead on no more is reported. -/
theorem meaning_plain {length : Nat} (depth : Nat) (h : i + depth ≤ length) :
    (plain length).program.meaning depth (.binding (plain length).package) ⟨rungName i, none⟩ =
      .error (.circularConstant (rungName (i + depth))) := by
  induction depth generalizing i with
  | zero =>
    rw [Program.meaning]
    simp [constant?_next (w := plain length) (show i ≤ length by omega), constant]
  | succ depth ih =>
    have step : (plain length).binding i = .ref ⟨rungName (i + 1), none⟩ :=
      if_pos (show i < length by omega)
    rw [Program.meaning]
    simp only [constant?_next (w := plain length) (show i ≤ length by omega), constant, rung, step,
      Expr.resolve]
    simpa [Nat.add_assoc, Nat.add_comm 1] using ih (i := i + 1) (by omega)

/-- The name that the model takes is not one of its own. -/
theorem not_declares (w : Ladder) : w.program.declares user "P" = false := by
  have bases : w.program.bases user = [] := rfl
  rw [Program.declares, bases, Program.ancestry]
  rfl

theorem componentRef?_first (w : Ladder) :
    w.program.componentRef? (.instantiated "" user) ⟨"P.c", none⟩ = none := by
  have head : Ref.head ⟨"P.c", none⟩ = "P" := by decide +kernel
  simp [Program.componentRef?, head, not_declares]

/-- The first constant of a ladder means what its binding means. -/
theorem resolve_first (w : Ladder) :
    w.program.resolve (.instantiated "" user) (.ref ⟨"P.c", none⟩) =
      (w.binding 0).resolve (w.program.meaning 31 (.binding w.package)) := by
  have head : Ref.head ⟨"P.c", none⟩ = "P" := by decide +kernel
  rw [Program.resolve, Expr.resolve, constantDepth, Program.meaning, constant?_first]
  simp only [head, not_declares]
  rfl

/-- The first constant of a ladder is one in a package, all that it leads to has a definition and
does not lead to itself, and still it is refused. -/
def Refused (w : Ladder) (cause : ResolveError) : Prop :=
  w.program.componentRef? (.instantiated "" user) ⟨"P.c", none⟩ = none ∧
  w.program.constant? (.instantiated "" user) (segments "P.c") = some (w.constant 0) ∧
  (∀ x, ReflTransGen w.program.LeadsTo (w.constant 0) x →
    w.program.Defines x ∧ ¬ TransGen w.program.LeadsTo x x) ∧
  w.program.resolve (.instantiated "" user) (.ref ⟨"P.c", none⟩) = .error cause

theorem refused_of_resolve {cause : ResolveError}
    (h : w.program.resolve (.instantiated "" user) (.ref ⟨"P.c", none⟩) = .error cause) :
    w.Refused cause := by
  refine ⟨componentRef?_first w, constant?_first, fun x reached => ?_, h⟩
  obtain ⟨i, -, rfl⟩ := exists_rung_of_reached reached
  exact ⟨defines w i, not_leads_to_itself w i⟩

end Ladder

open Ladder in
/-- A chain of constants that ends is refused if it is too long, and so is one in which a constant
is an element or the derivative of another one. -/
theorem ending_chains_are_refused :
    (plain 32).Refused (.circularConstant (rungName 32)) ∧
    subscripted.Refused (.unknownArray (rungName 1)) ∧
    derived.Refused (.derivativeOfConstant ⟨rungName 1, none⟩) := by
  refine ⟨refused_of_resolve ?_, refused_of_resolve ?_, refused_of_resolve ?_⟩
  · rw [resolve_first]
    exact meaning_plain 31 (by omega)
  · have element : subscripted.binding 0 = .ref ⟨rungName 1, some 1⟩ := rfl
    rw [resolve_first, element, Expr.resolve, Program.meaning]
    rfl
  · have derivative : derived.binding 0 = .der ⟨rungName 1, none⟩ := rfl
    have meant : derived.program.meaning 31 (.binding derived.package) ⟨rungName 1, none⟩ =
        .ok (.number 1) := by
      have last : (derived.rung 1).binding = some (.number 1) := rfl
      have found := constant?_next (w := derived) (i := 1) le_rfl
      rw [Program.meaning]
      simp [found, constant, last, Expr.resolve]
    rw [resolve_first, derivative, Expr.resolve, meant]
    rfl

open Ladder in
/-- A chain of three constants is inlined. -/
theorem short_ladder_is_inlined :
    ∃ binding e, ((plain 2).constant 0).2.binding = some binding ∧
      (plain 2).program.resolve (.instantiated "" user) (.ref ⟨"P.c", none⟩) = .ok e ∧
      (plain 2).program.Inlines (plain 2).package binding e ∧ e.refs = [] := by
  have short (l : List (Located Int × Component Int))
      (chain : ((plain 2).constant 0 :: l).IsChain (plain 2).program.LeadsTo) :
      ((plain 2).constant 0 :: l).length ≤ constantDepth := by
    have bounded := length_le_of_isChain (Nat.zero_le _) chain
    simp only [plain, constantDepth, List.length_cons] at bounded ⊢
    omega
  refine (Program.constants_resolve_along_short_chains (componentRef?_first _) rfl
    constant?_first
    fun l chain _ => short l chain).1 (fun x reached => ?_) fun x reached => ?_
  · obtain ⟨i, -, rfl⟩ := exists_rung_of_reached reached
    exact ⟨defines _ i, bare_plain 2 i⟩
  · obtain ⟨i, -, rfl⟩ := exists_rung_of_reached reached
    exact not_leads_to_itself _ i

end Acausal
