-- Resolved expressions call only builtins, each with one argument. Constants are resolved
-- before they take the place of a name, so this holds however far a name leads, and the calls
-- in a resolved expression are all that is ever recorded of it.
import Acausal.Instance.Resolve
import Acausal.Proofs.Expressions
import Acausal.Proofs.Success

namespace Acausal

variable {α : Type}

/-! ## Calls -/

/-- Every call in an expression is of a builtin with one argument. -/
def Expr.Applied (e : Expr α) : Prop := ∀ c ∈ e.applications, Expr.WellApplied c

theorem Expr.mem_callsAll {es : List (Expr α)} {f : String} :
    f ∈ callsAll es ↔ ∃ e ∈ es, f ∈ e.calls := by
  induction es with
  | nil => simp [callsAll]
  | cons e es ih => simp [callsAll, ih]

/-- The functions called are those of the calls. -/
theorem Expr.mem_calls {e : Expr α} {f : String} :
    f ∈ e.calls ↔ ∃ args, (f, args) ∈ e.applications := by
  induction e with
  | number value => simp [calls, applications]
  | ref r => simp [calls, applications]
  | time => simp [calls, applications]
  | der r => simp [calls, applications]
  | neg operand ih => exact ih
  | binary lhs op rhs ihl ihr =>
    simp only [calls, applications, List.mem_append, ihl, ihr]
    rw [exists_or]
  | call function args ih =>
    simp only [calls, applications, List.mem_cons, mem_callsAll, mem_applicationsAll, Prod.mk.injEq]
    constructor
    · rintro (rfl | ⟨e, he, hf⟩)
      · exact ⟨args, .inl ⟨rfl, rfl⟩⟩
      · obtain ⟨inner, h⟩ := (ih e he).1 hf
        exact ⟨inner, .inr ⟨e, he, h⟩⟩
    · rintro ⟨inner, ⟨rfl, _⟩ | ⟨e, he, h⟩⟩
      · exact .inl rfl
      · exact .inr ⟨e, he, (ih e he).2 ⟨inner, h⟩⟩

namespace Expr.Applied

theorem binary {lhs rhs : Expr α} {op : Operator} (left : lhs.Applied) (right : rhs.Applied) :
    (Expr.binary lhs op rhs).Applied := by
  intro c hc
  rw [applications, List.mem_append] at hc
  exact hc.elim (left c) (right c)

theorem call {function : String} {args : List (Expr α)} (own : WellApplied (function, args))
    (each : ∀ arg ∈ args, arg.Applied) : (Expr.call function args).Applied := by
  intro c hc
  rw [applications, List.mem_cons, mem_applicationsAll] at hc
  rcases hc with rfl | ⟨arg, harg, hc⟩
  · exact own
  · exact each arg harg c hc

theorem ref (r : Ref) : (Expr.ref r : Expr α).Applied := by
  intro c hc
  simp [applications] at hc

end Expr.Applied

/-! ## Resolution -/

section
variable {meaning : Ref → Except ResolveError (Expr α)}

theorem resolveAll_eq_mapM (es : List (Expr α)) :
    Expr.resolveAll meaning es = es.mapM (Expr.resolve meaning) := by
  induction es with
  | nil => rfl
  | cons e es ih => rw [Expr.resolveAll, List.mapM_cons, ih]

theorem resolveAll_eq_ok {es out : List (Expr α)} :
    Expr.resolveAll meaning es = .ok out ↔
      List.Forall₂ (fun e e' => e.resolve meaning = .ok e') es out := by
  rw [resolveAll_eq_mapM, mapM_eq_ok]

/-- Resolving checks every call that it passes. -/
theorem resolve_applied (sound : ∀ r e, meaning r = .ok e → e.Applied) {e e' : Expr α}
    (h : e.resolve meaning = .ok e') : e'.Applied := by
  induction e generalizing e' with
  | number value =>
    cases h
    intro c hc
    simp [Expr.applications] at hc
  | time =>
    cases h
    intro c hc
    simp [Expr.applications] at hc
  | ref r =>
    rw [Expr.resolve] at h
    exact sound r e' h
  | der r =>
    rw [Expr.resolve, bind_eq_ok] at h
    obtain ⟨found, _, h⟩ := h
    split at h
    · cases h
      intro c hc
      simp [Expr.applications] at hc
    · cases h
  | neg operand ih =>
    rw [Expr.resolve, bind_eq_ok] at h
    obtain ⟨inner, hinner, h⟩ := h
    cases h
    intro c hc
    exact ih hinner c hc
  | binary lhs op rhs ihl ihr =>
    rw [Expr.resolve] at h
    simp only [bind_eq_ok, pure_eq_ok] at h
    obtain ⟨left, hleft, right, hright, rfl⟩ := h
    exact (ihl hleft).binary (ihr hright)
  | call function args ih =>
    rw [Expr.resolve] at h
    split at h
    · cases h
    · rename_i builtin
      split at h
      · cases h
      · rename_i one
        simp only [bind_eq_ok, pure_eq_ok, resolveAll_eq_ok] at h
        obtain ⟨out, hout, rfl⟩ := h
        refine .call ⟨?_, ?_⟩ fun arg harg => ?_
        · cases hb : Builtin.ofName? function with
          | none => simp [hb] at builtin
          | some f => rfl
        · rw [← hout.length_eq]
          simpa using one
        · obtain ⟨original, horiginal, resolved⟩ := exists_of_forall₂_right hout arg harg
          exact ih original horiginal resolved

end

namespace Program

variable {p : Program α} {scope : Scope α}

/-- A reference means a component, or it stands for the binding of a constant. -/
theorem meaning_eq_ok {depth : Nat} {r : Ref} {e : Expr α} (h : p.meaning depth scope r = .ok e) :
    (∃ resolved, e = .ref resolved) ∨ ∃ rest owner binding, depth = rest + 1 ∧
      Expr.resolve (p.meaning rest (.binding owner)) binding = .ok e := by
  unfold meaning at h
  extract_lets component at h
  clear_value component
  split at h
  · cases h
    exact .inl ⟨_, rfl⟩
  · split at h
    · cases h
    · split at h
      · cases h
      · cases depth with
        | zero => cases h
        | succ rest =>
          simp only at h
          split at h
          · cases h
          · exact .inr ⟨rest, _, _, rfl, h⟩

/-- What a reference means calls builtins only, however many constants it leads through. -/
theorem meaning_applied {depth : Nat} {scope : Scope α} {r : Ref} {e : Expr α}
    (h : p.meaning depth scope r = .ok e) : e.Applied := by
  induction depth generalizing scope r e with
  | zero =>
    rcases meaning_eq_ok h with ⟨resolved, rfl⟩ | ⟨rest, _, _, more, _⟩
    · exact .ref resolved
    · omega
  | succ depth ih =>
    rcases meaning_eq_ok h with ⟨resolved, rfl⟩ | ⟨rest, owner, binding, more, resolved⟩
    · exact .ref resolved
    · cases more
      exact Acausal.resolve_applied (fun _ _ inner => ih inner) resolved

theorem resolve_applied {e e' : Expr α} (h : p.resolve scope e = .ok e') : e'.Applied :=
  Acausal.resolve_applied (fun _ _ => meaning_applied) h

theorem resolveOptional_applied {e e' : Option (Expr α)} (h : p.resolveOptional scope e = .ok e') :
    ∀ value ∈ e', value.Applied := by
  cases e with
  | none =>
    cases h
    simp
  | some e =>
    rw [resolveOptional, bind_eq_ok] at h
    obtain ⟨value, resolved, h⟩ := h
    cases h
    intro _ hv
    cases hv
    exact resolve_applied resolved

end Program

end Acausal
