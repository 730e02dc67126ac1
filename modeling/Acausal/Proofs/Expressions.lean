-- What an expression is made of: the references it reads, the derivatives it mentions and the
-- functions it calls. An expression has a value exactly when it mentions no derivative, calls
-- only builtins of one argument, and reads only names that have a value.
import Acausal.Expr.Value

namespace Acausal.Expr

variable {α β : Type}

/-! ## Induction -/

/-- Induction over an expression, in which a call may use what holds of its arguments. -/
@[induction_eliminator]
theorem induct {motive : Expr α → Prop} (number : ∀ value, motive (.number value))
    (ref : ∀ r, motive (.ref r)) (time : motive .time)
    (binary : ∀ lhs op rhs, motive lhs → motive rhs → motive (.binary lhs op rhs))
    (neg : ∀ operand, motive operand → motive (.neg operand))
    (call : ∀ function args, (∀ arg ∈ args, motive arg) → motive (.call function args))
    (der : ∀ r, motive (.der r)) (e : Expr α) : motive e :=
  @Expr.rec α motive (fun es => ∀ e ∈ es, motive e) number ref time binary neg call der
    (by simp) (fun _ _ first later => List.forall_mem_cons.2 ⟨first, later⟩) e

/-! ## Parts of an expression -/

mutual
/-- The components whose derivatives an expression mentions. -/
def derivatives : Expr α → List Ref
  | number _ => []
  | ref _ => []
  | time => []
  | binary lhs _ rhs => derivatives lhs ++ derivatives rhs
  | neg operand => derivatives operand
  | call _ args => derivativesAll args
  | der r => [r]

/-- The components whose derivatives a list of expressions mentions. -/
def derivativesAll : List (Expr α) → List Ref
  | [] => []
  | e :: es => derivatives e ++ derivativesAll es
end

mutual
/-- The calls in an expression, each with its arguments. -/
def applications : Expr α → List (String × List (Expr α))
  | number _ => []
  | ref _ => []
  | time => []
  | binary lhs _ rhs => applications lhs ++ applications rhs
  | neg operand => applications operand
  | call function args => (function, args) :: applicationsAll args
  | der _ => []

/-- The calls in a list of expressions. -/
def applicationsAll : List (Expr α) → List (String × List (Expr α))
  | [] => []
  | e :: es => applications e ++ applicationsAll es
end

theorem mem_refsAll {es : List (Expr α)} {r : Ref} : r ∈ refsAll es ↔ ∃ e ∈ es, r ∈ e.refs := by
  induction es with
  | nil => simp [refsAll]
  | cons e es ih => simp [refsAll, ih]

theorem mem_derivativesAll {es : List (Expr α)} {r : Ref} :
    r ∈ derivativesAll es ↔ ∃ e ∈ es, r ∈ e.derivatives := by
  induction es with
  | nil => simp [derivativesAll]
  | cons e es ih => simp [derivativesAll, ih]

theorem mem_applicationsAll {es : List (Expr α)} {c : String × List (Expr α)} :
    c ∈ applicationsAll es ↔ ∃ e ∈ es, c ∈ e.applications := by
  induction es with
  | nil => simp [applicationsAll]
  | cons e es ih => simp [applicationsAll, ih]

/-! ## Expressions that can be computed -/

/-- A call of a builtin with one argument. -/
def WellApplied (c : String × List (Expr α)) : Prop :=
  (Builtin.ofName? c.1).isSome ∧ c.2.length = 1

/-- An expression that can be computed once the names that `known` holds of have values. -/
structure ComputableFrom (known : String → Prop) (e : Expr α) : Prop where
  plain : ∀ r, r ∉ e.derivatives
  applied : ∀ c ∈ e.applications, WellApplied c
  reads : ∀ r ∈ e.refs, known r.flatName

namespace ComputableFrom

variable {known : String → Prop}

@[simp] theorem number_iff (value : α) : (Expr.number value).ComputableFrom known ↔ True :=
  ⟨fun _ => trivial, fun _ => ⟨by simp [derivatives], by simp [applications], by simp [refs]⟩⟩

@[simp] theorem time_iff : (Expr.time : Expr α).ComputableFrom known ↔ True :=
  ⟨fun _ => trivial, fun _ => ⟨by simp [derivatives], by simp [applications], by simp [refs]⟩⟩

@[simp] theorem ref_iff (r : Ref) :
    (Expr.ref r : Expr α).ComputableFrom known ↔ known r.flatName := by
  constructor
  · intro h
    exact h.reads r (by simp [refs])
  · intro h
    exact ⟨by simp [derivatives], by simp [applications], by simpa [refs] using h⟩

@[simp] theorem der_iff (r : Ref) : (Expr.der r : Expr α).ComputableFrom known ↔ False :=
  ⟨fun h => h.plain r (by simp [derivatives]), False.elim⟩

@[simp] theorem neg_iff (e : Expr α) :
    (Expr.neg e).ComputableFrom known ↔ e.ComputableFrom known :=
  ⟨fun ⟨plain, applied, reads⟩ => ⟨plain, applied, reads⟩,
    fun ⟨plain, applied, reads⟩ => ⟨plain, applied, reads⟩⟩

@[simp] theorem binary_iff (lhs : Expr α) (op : Operator) (rhs : Expr α) :
    (Expr.binary lhs op rhs).ComputableFrom known ↔
      lhs.ComputableFrom known ∧ rhs.ComputableFrom known := by
  constructor
  · rintro ⟨plain, applied, reads⟩
    simp only [derivatives, applications, refs, List.mem_append, not_or] at plain applied reads
    exact ⟨⟨fun r => (plain r).1, fun c h => applied c (.inl h), fun r h => reads r (.inl h)⟩,
      ⟨fun r => (plain r).2, fun c h => applied c (.inr h), fun r h => reads r (.inr h)⟩⟩
  · rintro ⟨left, right⟩
    refine ⟨fun r h => ?_, fun c h => ?_, fun r h => ?_⟩
    · rw [derivatives, List.mem_append] at h
      exact h.elim (left.plain r) (right.plain r)
    · rw [applications, List.mem_append] at h
      exact h.elim (left.applied c) (right.applied c)
    · rw [refs, List.mem_append] at h
      exact h.elim (left.reads r) (right.reads r)

@[simp] theorem call_iff (function : String) (args : List (Expr α)) :
    (Expr.call function args).ComputableFrom known ↔
      WellApplied (function, args) ∧ ∀ arg ∈ args, arg.ComputableFrom known := by
  constructor
  · rintro ⟨plain, applied, reads⟩
    simp only [derivatives, applications, refs, mem_derivativesAll, mem_applicationsAll,
      mem_refsAll, List.mem_cons] at plain applied reads
    refine ⟨applied _ (.inl rfl), fun arg harg => ⟨fun r h => ?_, fun c h => ?_, fun r h => ?_⟩⟩
    · exact plain r ⟨arg, harg, h⟩
    · exact applied c (.inr ⟨arg, harg, h⟩)
    · exact reads r ⟨arg, harg, h⟩
  · rintro ⟨own, each⟩
    refine ⟨fun r h => ?_, fun c h => ?_, fun r h => ?_⟩
    · rw [derivatives, mem_derivativesAll] at h
      obtain ⟨arg, harg, h⟩ := h
      exact (each arg harg).plain r h
    · rw [applications, List.mem_cons, mem_applicationsAll] at h
      rcases h with rfl | ⟨arg, harg, h⟩
      · exact own
      · exact (each arg harg).applied c h
    · rw [refs, mem_refsAll] at h
      obtain ⟨arg, harg, h⟩ := h
      exact (each arg harg).reads r h

theorem mono {wider : String → Prop} {e : Expr α} (h : e.ComputableFrom known)
    (le : ∀ r ∈ e.refs, known r.flatName → wider r.flatName) : e.ComputableFrom wider :=
  ⟨h.plain, h.applied, fun r hr => le r hr (h.reads r hr)⟩

end ComputableFrom

/-- A call of a builtin with one argument, taken apart. -/
theorem wellApplied_iff {function : String} {args : List (Expr α)} :
    WellApplied (function, args) ↔ ∃ f arg, Builtin.ofName? function = some f ∧ args = [arg] := by
  constructor
  · rintro ⟨known, one⟩
    obtain ⟨f, hf⟩ := Option.isSome_iff_exists.1 known
    obtain ⟨arg, harg⟩ := List.length_eq_one_iff.1 one
    exact ⟨f, arg, hf, harg⟩
  · rintro ⟨f, arg, hf, rfl⟩
    exact ⟨by simp [hf], rfl⟩

/-! ## Values -/

section
variable [Add β] [Sub β] [Mul β] [Div β] [Neg β] [Elementary β] {read : String → Option β}
  {lift : α → β} {t : β}

/-- An expression has a value exactly when it can be computed from the names that can be
read. -/
theorem value?_isSome_iff (e : Expr α) :
    (e.value? read lift t).isSome ↔ e.ComputableFrom fun name => (read name).isSome := by
  induction e with
  | number value => simp [value?]
  | ref r => simp [value?]
  | time => simp [value?]
  | der r => simp [value?]
  | neg operand ih =>
    rw [ComputableFrom.neg_iff, ← ih]
    cases h : operand.value? read lift t <;> simp [value?, h]
  | binary lhs op rhs ihl ihr =>
    rw [ComputableFrom.binary_iff, ← ihl, ← ihr]
    cases hl : lhs.value? read lift t <;> cases hr : rhs.value? read lift t <;>
      simp [value?, hl, hr]
  | call function args ih =>
    rw [ComputableFrom.call_iff, wellApplied_iff]
    rcases args with _ | ⟨arg, _ | ⟨second, rest⟩⟩
    · simp [value?]
    · have ih := ih arg (by simp)
      cases hf : Builtin.ofName? function <;> cases hv : arg.value? read lift t <;>
        simp [value?, hf, hv, ← ih]
    · simp [value?]

/-- The value of an expression in which derivatives have values too: `read` gives those of
references and `rate` those of derivatives. -/
def meaning? (read rate : Ref → Option β) (lift : α → β) (t : β) : Expr α → Option β
  | number value => some (lift value)
  | ref r => read r
  | time => some t
  | binary lhs op rhs => do
    let a ← meaning? read rate lift t lhs
    let b ← meaning? read rate lift t rhs
    return op.apply a b
  | neg operand => do return -(← meaning? read rate lift t operand)
  | call function [arg] => do
    let f ← Builtin.ofName? function
    return f.apply (← meaning? read rate lift t arg)
  | call _ _ => none
  | der r => rate r

/-- An expression with a value mentions no derivative, so the rates make no difference to it. -/
theorem meaning?_of_value? {rate : Ref → Option β} {e : Expr α} {v : β}
    (h : e.value? read lift t = some v) :
    e.meaning? (fun r => read r.flatName) rate lift t = some v := by
  induction e generalizing v with
  | number value => exact h
  | ref r => exact h
  | time => exact h
  | der r => cases h
  | neg operand ih =>
    simp only [value?, Option.bind_eq_bind, Option.bind_eq_some_iff, Option.pure_def,
      Option.some.injEq] at h
    obtain ⟨a, ha, rfl⟩ := h
    simp [meaning?, ih ha]
  | binary lhs op rhs ihl ihr =>
    simp only [value?, Option.bind_eq_bind, Option.bind_eq_some_iff, Option.pure_def,
      Option.some.injEq] at h
    obtain ⟨a, ha, b, hb, rfl⟩ := h
    simp [meaning?, ihl ha, ihr hb]
  | call function args ih =>
    rcases args with _ | ⟨arg, _ | ⟨second, rest⟩⟩
    · cases h
    · simp only [value?, Option.bind_eq_bind, Option.bind_eq_some_iff, Option.pure_def,
        Option.some.injEq] at h
      obtain ⟨f, hf, a, ha, rfl⟩ := h
      simp [meaning?, hf, ih arg (by simp) ha]
    · cases h

/-- The value of an expression depends only on what its references read. -/
theorem value?_congr {read' : String → Option β} (e : Expr α)
    (h : ∀ r ∈ e.refs, read r.flatName = read' r.flatName) :
    e.value? read lift t = e.value? read' lift t := by
  induction e with
  | number value => rfl
  | ref r => exact h r (by simp [refs])
  | time => rfl
  | der r => rfl
  | neg operand ih => simp only [value?, ih h]
  | binary lhs op rhs ihl ihr =>
    have hl := ihl fun r hr => h r (by simp [refs, hr])
    have hr := ihr fun r hr => h r (by simp [refs, hr])
    simp only [value?, hl, hr]
  | call function args ih =>
    rcases args with _ | ⟨arg, _ | ⟨second, rest⟩⟩
    · rfl
    · have ih := ih arg (by simp) fun r hr => h r (by simp [refs, refsAll, hr])
      simp only [value?, ih]
    · rfl

end

end Acausal.Expr
