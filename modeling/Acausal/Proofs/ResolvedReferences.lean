-- The references that resolving leaves. A name of a component becomes its full name, under the
-- stem of the instance that the expression is written in; a constant is replaced by its binding,
-- in which only constants can be named, so that no reference is left of it.
import Acausal.Proofs.MergedLibraries

namespace Acausal

variable {α : Type}

namespace Expr

/-- The references left are those in what the references mean. -/
theorem mem_refs_resolve {meaning : Ref → Except ResolveError (Expr α)} {e e' : Expr α}
    (h : e.resolve meaning = .ok e') {r' : Ref} :
    r' ∈ e'.refs ↔ ∃ r ∈ e.refs, ∃ x, meaning r = .ok x ∧ r' ∈ x.refs := by
  induction e generalizing e' with
  | number value =>
    cases h
    simp [refs]
  | time =>
    cases h
    simp [refs]
  | ref r =>
    rw [resolve] at h
    simp [refs, h]
  | der r =>
    rw [resolve, bind_eq_ok] at h
    obtain ⟨found, meant, h⟩ := h
    split at h
    · cases h
      simp [refs, meant]
    · cases h
  | neg operand ih =>
    rw [resolve, bind_eq_ok] at h
    obtain ⟨inner, resolved, h⟩ := h
    cases h
    rw [refs, refs]
    exact ih resolved
  | binary lhs op rhs ihl ihr =>
    rw [resolve] at h
    simp only [bind_eq_ok, pure_eq_ok] at h
    obtain ⟨left, hleft, right, hright, rfl⟩ := h
    simp only [refs, List.mem_append, ihl hleft, ihr hright, or_and_right, exists_or]
  | call function args ih =>
    rw [resolve] at h
    split at h
    · cases h
    · split at h
      · cases h
      · simp only [bind_eq_ok, pure_eq_ok, resolveAll_eq_ok] at h
        obtain ⟨out, resolved, rfl⟩ := h
        rw [refs, refs, mem_refsAll]
        simp only [mem_refsAll]
        constructor
        · rintro ⟨arg', listed, hr'⟩
          obtain ⟨arg, harg, made⟩ := exists_of_forall₂_right resolved arg' listed
          obtain ⟨r, hr, meant⟩ := (ih arg harg made).1 hr'
          exact ⟨r, ⟨arg, harg, hr⟩, meant⟩
        · rintro ⟨r, ⟨arg, harg, hr⟩, meant⟩
          obtain ⟨arg', listed, made⟩ := exists_of_forall₂_right resolved.flip arg harg
          exact ⟨arg', listed, (ih arg harg made).2 ⟨r, hr, meant⟩⟩

end Expr

namespace Program

variable {p : Program α}

/-- Of a constant no reference is left. -/
theorem refs_of_binding {depth : Nat} {owner : Located α} {r : Ref} {e : Expr α}
    (h : p.meaning depth (.binding owner) r = .ok e) : e.refs = [] := by
  induction depth generalizing owner r e with
  | zero =>
    obtain ⟨_, none, _⟩ | ⟨-, -, _, _, rest, _, -, more, -⟩ := meaning_eq_ok_iff.1 h
    · cases none
    · cases more
  | succ depth ih =>
    obtain ⟨_, none, _⟩ | ⟨-, -, inner, _, rest, binding, -, more, -, made⟩ :=
      meaning_eq_ok_iff.1 h
    · cases none
    · cases more
      rw [List.eq_nil_iff_forall_not_mem]
      intro r' hr'
      obtain ⟨r, -, x, meant, hx⟩ := (Expr.mem_refs_resolve made).1 hr'
      rw [ih meant] at hx
      cases hx

/-- A reference means a component of the instance at hand, or leaves no reference. -/
theorem refs_of_meaning {depth : Nat} {stem : String} {owner : Located α} {r : Ref} {e : Expr α}
    (h : p.meaning depth (.instantiated stem owner) r = .ok e) :
    p.declares owner r.head = true ∧ e = .ref ⟨stem ++ r.name, r.index⟩ ∨
      p.declares owner r.head = false ∧ e.refs = [] := by
  obtain ⟨resolved, component, rfl⟩ | ⟨none, -, inner, _, rest, binding, -, -, -, made⟩ :=
    meaning_eq_ok_iff.1 h
  · rw [componentRef?] at component
    split at component
    · next declared =>
      cases component
      exact .inl ⟨declared, rfl⟩
    · cases component
  · refine .inr ⟨?_, ?_⟩
    · simpa [componentRef?] using none
    · rw [List.eq_nil_iff_forall_not_mem]
      intro r' hr'
      obtain ⟨r, -, x, meant, hx⟩ := (Expr.mem_refs_resolve made).1 hr'
      rw [refs_of_binding meant] at hx
      cases hx

/-- What is left of an expression written in a class of which an instance is made are its
references to components, under the stem of the instance. -/
theorem mem_refs_of_resolve {stem : String} {owner : Located α} {e e' : Expr α}
    (h : p.resolve (.instantiated stem owner) e = .ok e') {r' : Ref} :
    r' ∈ e'.refs ↔
      ∃ r ∈ e.refs, p.declares owner r.head = true ∧ r' = ⟨stem ++ r.name, r.index⟩ := by
  rw [Expr.mem_refs_resolve h]
  constructor
  · rintro ⟨r, hr, x, hx, hr'⟩
    obtain ⟨declared, rfl⟩ | ⟨-, closed⟩ := refs_of_meaning hx
    · exact ⟨r, hr, declared, by simpa [Expr.refs] using hr'⟩
    · rw [closed] at hr'
      cases hr'
  · rintro ⟨r, hr, declared, rfl⟩
    refine ⟨r, hr, .ref ⟨stem ++ r.name, r.index⟩, ?_, by simp [Expr.refs]⟩
    exact meaning_eq_ok_iff.2 (.inl ⟨_, if_pos declared, rfl⟩)

end Program

end Acausal
