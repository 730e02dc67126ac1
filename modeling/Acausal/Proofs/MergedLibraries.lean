-- Libraries in front of a model. An instance of a class of a program is the same instance in
-- every larger program that finds the program's own classes first. So a library keeps its
-- meaning whatever comes behind it, and a model keeps its meaning behind a library that has
-- none of its top names.
import Acausal.Proofs.LargerPrograms
import Acausal.Proofs.LayoutSteps
import Acausal.Proofs.Resolution
import Mathlib

namespace Acausal

variable {α : Type}

/-! ## Resolving -/

/-- A resolution that succeeds does so the same way under every meaning that says as much of
references. -/
theorem Expr.resolve_mono {meaning meaning' : Ref → Except ResolveError (Expr α)}
    (le : ∀ r e, meaning r = .ok e → meaning' r = .ok e) {e e' : Expr α}
    (h : e.resolve meaning = .ok e') : e.resolve meaning' = .ok e' := by
  induction e generalizing e' with
  | number value => exact h
  | time => exact h
  | ref r => exact le r e' h
  | der r =>
    rw [resolve, bind_eq_ok] at h ⊢
    obtain ⟨found, hr, h⟩ := h
    exact ⟨found, le r found hr, h⟩
  | neg operand ih =>
    rw [resolve, bind_eq_ok] at h ⊢
    obtain ⟨inner, hinner, h⟩ := h
    exact ⟨inner, ih hinner, h⟩
  | binary lhs op rhs ihl ihr =>
    rw [resolve] at h ⊢
    simp only [bind_eq_ok] at h ⊢
    obtain ⟨left, hleft, right, hright, h⟩ := h
    exact ⟨left, ihl hleft, right, ihr hright, h⟩
  | call function args ih =>
    rw [resolve] at h ⊢
    split at h
    · cases h
    · rename_i known
      rw [if_neg known]
      split at h
      · cases h
      · rename_i one
        rw [if_neg one]
        simp only [bind_eq_ok, resolveAll_eq_ok] at h ⊢
        obtain ⟨out, hout, h⟩ := h
        refine ⟨out, ?_, h⟩
        exact forall₂_imp_of_mem hout fun arg harg _ made => ih arg harg made

namespace Program

variable {p q : Program α}

/-- A scope that stands in a program; a class of which an instance is made also has all that it
inherits from. -/
def Settled (p : Program α) : Scope α → Prop
  | .instantiated _ owner => p.Places owner ∧ p.Grounded owner
  | .binding owner => p.Places owner

theorem Settled.places {scope : Scope α} (h : p.Settled scope) : p.Places scope.owner := by
  cases scope with
  | instantiated stem owner => exact h.1
  | binding owner => exact h

theorem Within.constant?_eq (h : p.Within q) {scope : Scope α} {name : ClassPath}
    {found : Located α × Component α} (placed : p.Places scope.owner)
    (constant : p.constant? scope name = some found) : q.constant? scope name = some found := by
  unfold constant? at *
  split at constant
  · cases constant
  · rwa [h.enclosingConstant?_eq placed.holds.rooted]
  · exact h.qualifiedConstant?_eq placed.holds.rooted constant

theorem places_of_constant? {scope : Scope α} {name : ClassPath}
    {found : Located α × Component α} (placed : p.Places scope.owner)
    (h : p.constant? scope name = some found) : p.Places found.1 := by
  unfold constant? at h
  split at h
  · cases h
  · simp only [Option.orElse_eq_or, Option.or_eq_some_iff] at h
    rcases h with own | ⟨_, around⟩
    · cases scope with
      | instantiated stem owner => cases own
      | binding owner =>
        obtain ⟨_, _, rfl⟩ := Option.map_eq_some_iff.1 own
        exact placed
    · exact places_of_enclosingConstant? around
  · exact places_of_qualifiedConstant? h

/-- The component of the instance at hand that a reference names. -/
def componentRef? (p : Program α) : Scope α → Ref → Option Ref
  | .instantiated stem owner, r =>
    if p.declares owner r.head then some ⟨stem ++ r.name, r.index⟩ else none
  | .binding _, _ => none

/-- A reference means the component that it names; where there is none, it stands for the
binding of the constant it names. -/
theorem meaning_eq_ok_iff {depth : Nat} {scope : Scope α} {r : Ref} {e : Expr α} :
    p.meaning depth scope r = .ok e ↔
      (∃ resolved, p.componentRef? scope r = some resolved ∧ .ref resolved = e) ∨
        p.componentRef? scope r = none ∧ r.index = none ∧
          ∃ owner constant rest binding,
            p.constant? scope (segments r.name) = some (owner, constant) ∧ depth = rest + 1 ∧
              constant.binding = some binding ∧
                binding.resolve (p.meaning rest (.binding owner)) = .ok e := by
  unfold meaning
  extract_lets component
  have same : component = p.componentRef? scope r := by
    cases scope <;> rfl
  rw [same]
  clear_value component
  cases p.componentRef? scope r with
  | some resolved => simp
  | none =>
    simp only [reduceCtorEq, false_and, exists_false, true_and, false_or]
    cases r.index with
    | some i => simp
    | none =>
      simp only [Option.isSome_none, Bool.false_eq_true, if_false, true_and]
      cases p.constant? scope (segments r.name) with
      | none => simp
      | some found =>
        obtain ⟨owner, constant⟩ := found
        cases depth with
        | zero => simp
        | succ rest => cases hb : constant.binding <;> simp [hb]

theorem Within.componentRef?_eq (h : p.Within q) {scope : Scope α} (settled : p.Settled scope)
    (r : Ref) : q.componentRef? scope r = p.componentRef? scope r := by
  cases scope with
  | binding owner => rfl
  | instantiated stem owner =>
    simp only [componentRef?]
    rw [h.declares_eq settled.1 settled.2]

/-- What a reference means in a settled scope, it means in the larger program. -/
theorem Within.meaning_eq (h : p.Within q) {depth : Nat} {scope : Scope α} {r : Ref} {e : Expr α}
    (settled : p.Settled scope) (found : p.meaning depth scope r = .ok e) :
    q.meaning depth scope r = .ok e := by
  induction depth using Nat.strongRecOn generalizing scope r e with
  | ind depth ih =>
    rw [meaning_eq_ok_iff, h.componentRef?_eq settled]
    rw [meaning_eq_ok_iff] at found
    refine found.imp id (And.imp id (And.imp id ?_))
    rintro ⟨owner, constant, rest, binding, named, rfl, bound, resolved⟩
    refine ⟨owner, constant, rest, binding, h.constant?_eq settled.places named, rfl, bound, ?_⟩
    have placed : p.Settled (.binding owner) := places_of_constant? settled.places named
    exact Expr.resolve_mono (fun _ _ inner => ih rest (by omega) placed inner) resolved

theorem Within.resolve_eq (h : p.Within q) {scope : Scope α} (settled : p.Settled scope)
    {e e' : Expr α} (resolved : p.resolve scope e = .ok e') : q.resolve scope e = .ok e' :=
  Expr.resolve_mono (fun _ _ found => h.meaning_eq settled found) resolved

theorem Within.resolveOptional_eq (h : p.Within q) {scope : Scope α} (settled : p.Settled scope)
    {e e' : Option (Expr α)} (resolved : p.resolveOptional scope e = .ok e') :
    q.resolveOptional scope e = .ok e' := by
  cases e with
  | none => exact resolved
  | some e =>
    unfold resolveOptional at resolved ⊢
    rw [bind_eq_ok] at resolved ⊢
    obtain ⟨value, found, made⟩ := resolved
    exact ⟨value, h.resolve_eq settled found, made⟩

mutual
theorem Within.resolveModifier_eq (h : p.Within q) {scope : Scope α} (settled : p.Settled scope) :
    (m : Modifier α) → ∀ m', p.resolveModifier scope m = .ok m' →
      q.resolveModifier scope m = .ok m'
  | ⟨name, each, value, children⟩ => by
    intro m' resolved
    rw [resolveModifier] at resolved ⊢
    simp only [bind_eq_ok] at resolved ⊢
    obtain ⟨value', hvalue, children', hchildren, made⟩ := resolved
    exact ⟨value', h.resolveOptional_eq settled hvalue, children',
      Within.resolveModifiers_eq h settled children children' hchildren, made⟩

/-- Modifiers are resolved the same way in the larger program. -/
theorem Within.resolveModifiers_eq (h : p.Within q) {scope : Scope α} (settled : p.Settled scope) :
    (ms : List (Modifier α)) → ∀ ms', p.resolveModifiers scope ms = .ok ms' →
      q.resolveModifiers scope ms = .ok ms'
  | [] => by
    intro ms' resolved
    exact resolved
  | m :: rest => by
    intro ms' resolved
    rw [resolveModifiers] at resolved ⊢
    simp only [bind_eq_ok] at resolved ⊢
    obtain ⟨m', hm, rest', hrest, made⟩ := resolved
    exact ⟨m', Within.resolveModifier_eq h settled m m' hm, rest',
      Within.resolveModifiers_eq h settled rest rest' hrest, made⟩
end

end Program

/-! ## Laying out -/

namespace Instance

variable {p q : Program α}

/-- A class that was laid out has all that it inherits from. -/
theorem grounded_of_layout {free : List ClassPath} {c : Located α} {stem : String}
    {m : Modification α} {i i' : Instance α} (h : layout p free c stem m i = .ok i') :
    p.Grounded c := by
  induction hn : free.length using Nat.strongRecOn generalizing free c stem m i i' with
  | ind n ih =>
    have entered := (layout_eq_ok.1 h).1
    -- What each extends clause needed when its turn came.
    have step (clause : Extends α) (hclause : clause ∈ c.decl.bases) :
        ∃ base, p.resolve? c.path (segments clause.base) = some base ∧ p.Grounded base := by
      obtain ⟨s, s', -, added, -⟩ := exists_step_of_layout h (ClassDecl.mem_bases.1 hclause)
      obtain ⟨base, modifiers, found, -, laid⟩ := addBase_eq_ok.1 added
      exact ⟨base, found, ih _ (hn ▸ length_without_lt entered) laid rfl⟩
    refine .intro c (fun clause hclause => ?_) fun clause hclause base found => ?_
    · obtain ⟨base, found, _⟩ := step clause hclause
      rw [found]
      rfl
    · obtain ⟨base', found', grounded⟩ := step clause hclause
      rw [found] at found'
      cases found'
      exact grounded

/-- A layout that does for the classes of a program what another one does. -/
def Layout.Follows (p : Program α) (inner inner' : Layout α) : Prop :=
  ∀ c stem m i i', p.Places c → inner c stem m i = .ok i' → inner' c stem m i = .ok i'

section
variable {inner inner' : Layout α} {owner : Located α} {stem : String} {m : Modification α}
  {i i' : Instance α}

theorem addBase_follows (h : p.Within q) (follows : Layout.Follows p inner inner')
    (settled : p.Settled (.instantiated stem owner)) {clause : Extends α}
    (added : addBase p inner owner stem m i clause = .ok i') :
    addBase q inner' owner stem m i clause = .ok i' := by
  obtain ⟨base, modifiers, found, resolved, laid⟩ := addBase_eq_ok.1 added
  exact addBase_eq_ok.2 ⟨base, modifiers, h.resolve?_eq settled.1.holds.rooted found,
    h.resolveModifiers_eq settled _ _ resolved,
    follows _ _ _ _ _ (Program.places_of_resolve? found) laid⟩

theorem addPart_follows (h : p.Within q) (follows : Layout.Follows p inner inner')
    (settled : p.Settled (.instantiated stem owner)) {name : String} {decl : Component α}
    (added : addPart p inner owner name m i decl = .ok i') :
    addPart q inner' owner name m i decl = .ok i' := by
  obtain ⟨single, type, found, whole, complete, laid⟩ := addPart_eq_ok.1 added
  exact addPart_eq_ok.2 ⟨single, type, h.resolve?_eq settled.1.holds.rooted found, whole, complete,
    follows _ _ _ _ _ (Program.places_of_resolve? found) laid⟩

theorem addComponent_follows (h : p.Within q) (follows : Layout.Follows p inner inner')
    (settled : p.Settled (.instantiated stem owner)) {decl : Component α}
    (added : addComponent p inner owner stem m i decl = .ok i') :
    addComponent q inner' owner stem m i decl = .ok i' := by
  obtain ⟨binding, modifiers, bound, resolved, declared⟩ := addComponent_eq_ok.1 added
  refine addComponent_eq_ok.2 ⟨binding, modifiers, h.resolveOptional_eq settled bound,
    h.resolveModifiers_eq settled _ _ resolved, ?_⟩
  exact declared.imp id (And.imp_right (addPart_follows h follows settled))

/-- An element is added the same way in the larger program. -/
theorem addElement_follows (h : p.Within q) (follows : Layout.Follows p inner inner')
    (settled : p.Settled (.instantiated stem owner)) {element : Element α}
    (added : addElement p inner owner stem m i element = .ok i') :
    addElement q inner' owner stem m i element = .ok i' := by
  cases element with
  | nested decl => exact added
  | inherit clause => exact addBase_follows h follows settled added
  | component decl => exact addComponent_follows h follows settled added

theorem addResolved_follows (h : p.Within q) (settled : p.Settled (.instantiated stem owner))
    {e : Equation α} (added : addResolved p owner stem i e = .ok i') :
    addResolved q owner stem i e = .ok i' := by
  obtain ⟨lhs, rhs, left, right, same⟩ := addResolved_eq_ok.1 added
  exact addResolved_eq_ok.2
    ⟨lhs, rhs, h.resolve_eq settled left, h.resolve_eq settled right, same⟩

end

/-- A class is laid out the same way in the larger program, from a pool with the same paths. -/
theorem layout_follows (h : p.Within q) {free free' : List ClassPath}
    (pool : p.SamePool free free') : Layout.Follows p (layout p free) (layout q free') := by
  induction hn : free.length using Nat.strongRecOn generalizing free free' with
  | ind n ih =>
    intro c stem m i i' placed laid
    have settled : p.Settled (.instantiated stem c) := ⟨placed, grounded_of_layout laid⟩
    obtain ⟨entered, middle, elements, equations⟩ := layout_eq_ok.1 laid
    have inner : Layout.Follows p (layout p (without c.path free))
        (layout q (without c.path free')) :=
      ih _ (hn ▸ length_without_lt entered) (pool.without c.path) rfl
    refine layout_eq_ok.2 ⟨(pool c.path placed.holds).1 entered, middle, ?_, ?_⟩
    · exact foldlM_mono (fun _ _ _ _ => addElement_follows h inner settled) elements
    · exact foldlM_mono (fun _ _ _ _ => addResolved_follows h settled) equations

end Instance

/-! ## Instances in larger programs -/

namespace Program

variable {p q : Program α}

/-- An instance of a class of a program is an instance in every larger program. -/
theorem Within.instantiate_eq (h : p.Within q) {name : String} {scalar : Bool} {i : Instance α}
    (made : p.instantiate name scalar = .ok i) : q.instantiate name scalar = .ok i := by
  obtain ⟨decl, j, found, whole, model, laid, finished⟩ := instantiate_eq_ok.1 made
  exact instantiate_eq_ok.2 ⟨decl, j, h.find?_eq found, whole, model,
    Instance.layout_follows h h.samePool _ _ _ _ _ found laid, finished⟩

/-- Putting a library in front of a model changes neither. What the library can make of its own
it makes all the same, whatever the model declares; and what the model can make of its own it
makes all the same, if no top name of the library is one of the model's. -/
theorem merging_is_conservative (library model : Program α) (name : String) (scalar : Bool)
    (i : Instance α) :
    (library.instantiate name scalar = .ok i →
      (library.prepend model).instantiate name scalar = .ok i) ∧
    ((∀ top ∈ library.classNames, top ∉ model.classNames) →
      model.instantiate name scalar = .ok i →
        (library.prepend model).instantiate name scalar = .ok i) := by
  refine ⟨fun made => ?_, fun apart made => ?_⟩
  · exact (within_prepend library model).instantiate_eq made
  · exact (prepend_within apart).instantiate_eq made

/-- A position that starts at some value. -/
def position (start : Int) : ClassDecl Int :=
  ⟨"Position", .model, false, none,
    [.component ⟨"x", "Real", .continuous, none,
      [⟨"start", false, some (.number start), []⟩], none, none⟩], []⟩

/-- A model that inherits a position, with an equation for its rate. -/
def moving (name : String) (rate : Expr Int) : ClassDecl Int :=
  ⟨name, .model, false, none, [.inherit ⟨"Position", []⟩], [⟨.der ⟨"x", none⟩, rate⟩]⟩

/-- A package of springs, all of one stiffness that is a constant of the package. -/
def springs (stiffness start : Int) : Program Int :=
  ⟨[⟨"Springs", .package, false, none,
    [.component ⟨"k", "Real", .constant, none, [], some (.number stiffness), none⟩,
      .nested (position start),
      .nested (moving "Spring" (.binary (.ref ⟨"k", none⟩) .mul (.ref ⟨"x", none⟩)))], []⟩]⟩

/-- A cart, and the position that it inherits, at the top. -/
def carts : Program Int := ⟨[position 5, moving "Cart" (.neg (.ref ⟨"x", none⟩))]⟩

/-- Springs stay as they are in front of other springs, and carts behind springs whose package
has a position of its own. -/
theorem springs_and_carts_keep_their_meaning :
    ∃ spring cart,
      (springs 2 1).instantiate "Springs.Spring" true = .ok spring ∧
        ((springs 2 1).prepend (springs 3 0)).instantiate "Springs.Spring" true = .ok spring ∧
        (∀ top ∈ (springs 2 1).classNames, top ∉ carts.classNames) ∧
        carts.instantiate "Cart" true = .ok cart ∧
        ((springs 2 1).prepend carts).instantiate "Cart" true = .ok cart := by
  have spring : ((springs 2 1).instantiate "Springs.Spring" true).toOption.isSome = true := by
    cbv
  have cart : (carts.instantiate "Cart" true).toOption.isSome = true := by
    cbv
  obtain ⟨spring, hspring⟩ := Option.isSome_iff_exists.1 spring
  obtain ⟨cart, hcart⟩ := Option.isSome_iff_exists.1 cart
  rw [toOption_eq_some] at hspring hcart
  have apart : ∀ top ∈ (springs 2 1).classNames, top ∉ carts.classNames := by
    decide
  exact ⟨spring, cart, hspring,
    (merging_is_conservative (springs 2 1) (springs 3 0) _ _ _).1 hspring, apart, hcart,
    (merging_is_conservative (springs 2 1) carts _ _ _).2 apart hcart⟩

end Program

end Acausal
