-- Slopes that stay zero. Where no operand changes, the result of an operation does not change
-- either; the rules for slopes say so only at points where what they multiply by is finite and
-- what they divide by is neither zero nor no number. Elsewhere the slope is lost, and it stays
-- lost: a partial derivative by a state that is never read is zero or no number.
import Acausal.Proofs.SpecialDoubles
import Acausal.Proofs.UnfoldedCode

namespace Acausal

/-! ## Regular points -/

/-- Where the rule for the slope of an operator takes zero slopes to zero. -/
def Operator.Regular : Operator → Float → Float → Prop
  | add, _, _ => True
  | sub, _, _ => True
  | mul, x, y => x.isFinite = true ∧ y.isFinite = true
  | div, x, y => (x.isFinite = true ∧ y.isFinite = true) ∧ IsDivisor (y * y)
  | pow, x, n => (n * Float.pow x (n - 1)).isFinite = true

/-- Where the rule for the slope of a builtin takes a zero slope to zero. -/
def Builtin.Regular : Builtin → Float → Prop
  | sin, x => (Float.cos x).isFinite = true
  | cos, x => (Float.sin x).isFinite = true
  | tan, x => (1 + Float.tan x * Float.tan x).isFinite = true
  | exp, x => (Float.exp x).isFinite = true
  | log, x => IsDivisor x
  | sqrt, x => IsDivisor (2.0 * Float.sqrt x)
  | abs, _ => True

instance (op : Operator) (x y : Float) : Decidable (op.Regular x y) :=
  match op with
  | .add => inferInstanceAs (Decidable True)
  | .sub => inferInstanceAs (Decidable True)
  | .mul => inferInstanceAs (Decidable (_ ∧ _))
  | .div => inferInstanceAs (Decidable (_ ∧ _))
  | .pow => inferInstanceAs (Decidable (_ = true))

instance (f : Builtin) (x : Float) : Decidable (f.Regular x) :=
  match f with
  | .sin | .cos | .tan | .exp => inferInstanceAs (Decidable (_ = true))
  | .log | .sqrt => inferInstanceAs (Decidable (IsDivisor _))
  | .abs => inferInstanceAs (Decidable True)

namespace Dual

variable {p q : Prop} {x y : Dual Float}

theorem zeroIff_operate (op : Operator) (hx : ZeroIff p x.slope) (hy : ZeroIff q y.slope) :
    ZeroIff ((p ∧ q) ∧ op.Regular x.value y.value) (op.apply x y).slope := by
  cases op with
  | add => exact (hx.add hy).congr (by simp [Operator.Regular])
  | sub => exact (hx.sub hy).congr (by simp [Operator.Regular])
  | mul =>
    have sum := (hy.mul_left x.value).add (hx.mul_right y.value)
    exact sum.congr (by simp only [Operator.Regular]; tauto)
  | div =>
    have quotient := ((hx.mul_right y.value).sub (hy.mul_left x.value)).div (y.value * y.value)
    exact quotient.congr (by simp only [Operator.Regular]; tauto)
  | pow =>
    change ZeroIff _ (Dual.pow x y).slope
    unfold Dual.pow
    by_cases steady : q
    · have zero : (y.slope == 0) = true := beq_zero_iff.2 (hy.zero steady)
      rw [if_pos zero]
      have product := hx.mul_left (y.value * Float.pow x.value (y.value - 1))
      exact product.congr
        ⟨fun ⟨hp, finite⟩ => ⟨⟨hp, steady⟩, finite⟩, fun ⟨⟨hp, _⟩, finite⟩ => ⟨hp, finite⟩⟩
    · have lost := hy.lost steady
      have moves : ¬ (y.slope == 0) = true := fun zero =>
        not_isNaN_of_isZero (beq_zero_iff.1 zero) lost
      rw [if_neg moves]
      refine ⟨fun holds => absurd holds.1.2 steady, fun _ => ?_⟩
      exact isNaN_mul (.inr (isNaN_add (.inl (isNaN_mul (.inl lost)))))

theorem zeroIff_call (f : Builtin) (hx : ZeroIff p x.slope) :
    ZeroIff (p ∧ f.Regular x.value) (f.apply x).slope := by
  cases f with
  | sin => exact hx.mul_right _
  | cos => exact hx.neg.mul_right _
  | tan => exact hx.mul_right _
  | exp => exact hx.mul_left _
  | log => exact hx.div _
  | sqrt => exact hx.div _
  | abs =>
    refine ZeroIff.congr (p := p) ?_ (by simp [Builtin.Regular])
    change ZeroIff p (if 0 ≤ x.value then x.slope else -x.slope)
    split
    · exact hx
    · exact hx.neg

theorem zeroIff_constant (x : Float) : ZeroIff True (constant x).slope :=
  ⟨fun _ => isZero_zero, fun fails => absurd trivial fails⟩

end Dual

/-! ## Regular runs -/

/-- Whether an instruction meets its operands at a regular point. -/
def Instruction.Regular (stack : Array Float) : Instruction Float → Prop
  | operate op => op.Regular (pop (pop stack).2).1 (pop stack).1
  | call f => f.Regular (pop stack).1
  | _ => True

/-- Whether every instruction of code meets its operands at a regular point, on the way from a
given stack. -/
def Code.RegularFrom (slots : Array Float) (t : Float) : Array Float → Code Float → Prop
  | _, [] => True
  | stack, instruction :: rest =>
    instruction.Regular stack ∧ RegularFrom slots t (instruction.run id slots t stack) rest

/-- Whether code runs through regular points only. -/
def Code.Regular (slots : Array Float) (t : Float) (code : Code Float) : Prop :=
  code.RegularFrom slots t #[]

instance (stack : Array Float) (instruction : Instruction Float) :
    Decidable (instruction.Regular stack) :=
  match instruction with
  | .const _ | .load _ | .time | .neg => inferInstanceAs (Decidable True)
  | .operate op => inferInstanceAs (Decidable (op.Regular _ _))
  | .call f => inferInstanceAs (Decidable (f.Regular _))

instance decidableRegularFrom (slots : Array Float) (t : Float) :
    (stack : Array Float) → (code : Code Float) → Decidable (code.RegularFrom slots t stack)
  | _, [] => inferInstanceAs (Decidable True)
  | stack, instruction :: rest =>
    have := decidableRegularFrom slots t (instruction.run id slots t stack) rest
    inferInstanceAs (Decidable (_ ∧ _))

instance (slots : Array Float) (t : Float) (code : Code Float) :
    Decidable (code.Regular slots t) :=
  decidableRegularFrom slots t #[] code

/-- A stack whose slopes are zero or lost, and all zero where a condition holds. -/
structure ZeroSlopes (condition : Prop) (stack : Array (Dual Float)) : Prop where
  each : ∀ d ∈ stack, ZeroIff (IsZero d.slope) d.slope
  all : (∀ d ∈ stack, IsZero d.slope) ↔ condition

namespace ZeroSlopes

variable {p q : Prop} {stack rest after : Array (Dual Float)}

theorem congr (h : ZeroSlopes p stack) (same : p ↔ q) : ZeroSlopes q stack := by
  rwa [← propext same]

theorem empty : ZeroSlopes True #[] := ⟨by simp, by simp⟩

theorem push {d : Dual Float} (h : ZeroSlopes p stack) (top : ZeroIff q d.slope) :
    ZeroSlopes (p ∧ q) (stack.push d) where
  each := by
    intro e listed
    rcases Array.mem_push.1 listed with below | rfl
    · exact h.each e below
    · exact top.congr top.iff.symm
  all := by
    rw [← h.all, ← top.iff]
    simp only [Array.mem_push, or_imp, forall_and, forall_eq]

theorem of_push {d : Dual Float} (h : ZeroSlopes p (stack.push d)) :
    ∃ q r, ZeroSlopes q stack ∧ ZeroIff r d.slope ∧ (p ↔ q ∧ r) := by
  refine ⟨_, _, ⟨fun e below => h.each e (Array.mem_push_of_mem d below), Iff.rfl⟩,
    h.each d Array.mem_push_self, ?_⟩
  rw [← h.all]
  simp only [Array.mem_push, or_imp, forall_and, forall_eq]

end ZeroSlopes

theorem eq_push_of_pop? {β : Type} {stack rest : Array β} {d : β}
    (h : pop? stack = some (d, rest)) : stack = rest.push d := by
  obtain ⟨v, back, same⟩ := Option.map_eq_some_iff.1 h
  cases same
  obtain ⟨below, rfl⟩ := Array.back?_eq_some_iff.1 back
  simp

section
variable {slots stack after : Array (Dual Float)} {t : Dual Float} {p : Prop}

/-- An instruction that loads no slope keeps the slopes zero at a regular point, and loses them at
any other. -/
theorem Instruction.zeroSlopes_run? {instruction : Instruction Float}
    (loads : ∀ slot, instruction = .load slot → ∀ d, slots[slot]? = some d → IsZero d.slope)
    (time : IsZero t.slope) (h : instruction.run? Dual.constant slots t stack = some after)
    (before : ZeroSlopes p stack) :
    ZeroSlopes (p ∧ instruction.Regular (stack.map (·.value))) after := by
  have zero {d : Dual Float} (h : IsZero d.slope) : ZeroIff True d.slope :=
    ⟨fun _ => h, fun fails => absurd trivial fails⟩
  cases instruction with
  | const value =>
    cases h
    exact before.push (Dual.zeroIff_constant value)
  | time =>
    cases h
    exact before.push (zero time)
  | load slot =>
    obtain ⟨d, place, rfl⟩ := Option.map_eq_some_iff.1 h
    exact before.push (zero (loads slot rfl d place))
  | operate op =>
    obtain ⟨⟨b, below⟩, first, h⟩ := Option.bind_eq_some_iff.1 h
    obtain ⟨⟨a, rest⟩, second, h⟩ := Option.bind_eq_some_iff.1 h
    cases h
    obtain rfl := eq_push_of_pop? first
    obtain rfl := eq_push_of_pop? second
    obtain ⟨q, r, inner, right, split⟩ := before.of_push
    obtain ⟨q', l, bottom, left, split'⟩ := inner.of_push
    refine (bottom.push (Dual.zeroIff_operate op left right)).congr ?_
    simp only [Instruction.Regular, Array.map_push, pop_push]
    tauto
  | neg =>
    obtain ⟨⟨a, rest⟩, first, h⟩ := Option.bind_eq_some_iff.1 h
    cases h
    obtain rfl := eq_push_of_pop? first
    obtain ⟨q, r, bottom, operand, split⟩ := before.of_push
    refine (bottom.push operand.neg).congr ?_
    simp only [Instruction.Regular]
    tauto
  | call function =>
    obtain ⟨⟨a, rest⟩, first, h⟩ := Option.bind_eq_some_iff.1 h
    cases h
    obtain rfl := eq_push_of_pop? first
    obtain ⟨q, r, bottom, operand, split⟩ := before.of_push
    refine (bottom.push (Dual.zeroIff_call function operand)).congr ?_
    simp only [Instruction.Regular, Array.map_push, pop_push]
    tauto

/-- Code that loads no slope keeps the slopes zero exactly where it runs through regular points
only. -/
theorem zeroSlopes_runOn? {code : Code Float}
    (loads : ∀ slot, .load slot ∈ code → ∀ d, slots[slot]? = some d → IsZero d.slope)
    (time : IsZero t.slope) (h : code.runOn? Dual.constant slots t stack = some after)
    (before : ZeroSlopes p stack) :
    ZeroSlopes (p ∧ code.RegularFrom (slots.map (·.value)) t.value (stack.map (·.value))) after := by
  induction code generalizing stack p with
  | nil =>
    cases h
    exact before.congr (by simp [Code.RegularFrom])
  | cons instruction rest ih =>
    obtain ⟨next, step, h⟩ := Option.bind_eq_some_iff.1 h
    have one := instruction.zeroSlopes_run?
      (fun slot same => loads slot (same ▸ List.mem_cons_self ..)) time step before
    have all := ih (fun slot listed => loads slot (List.mem_cons_of_mem _ listed)) h one
    refine all.congr ?_
    rw [Code.RegularFrom, ← Instruction.run_map_value, Instruction.run_of_run? step, and_assoc]

end

/-! ## Partial derivatives -/

/-- The slope of a rate by a state that its unfolded code does not load is zero where the code runs
through regular points only, and lost elsewhere. -/
theorem FlatModel.Assembled.zeroIff_rate {m : FlatModel Float} {known : Valuation Float}
    {c : CompiledModel Float} (h : m.Assembled known c) {i j : Fin c.dimension} {code : Code Float}
    (unfolds : c.Unfolds (c.states.get i).rate code) (unread : .load j.val ∉ code) (t : Float)
    (x : Vector Float c.dimension) :
    ZeroIff (code.Regular x.toArray t)
      ((c.rates Dual.constant (Dual.constant t) (seeded x j)).get i).slope := by
  have run := h.runOn?_unfolded unfolds Dual.constant (Dual.constant t) (seeded x j)
  have loads (slot : Nat) (loaded : .load slot ∈ code) (d : Dual Float)
      (place : (seeded x j).toArray[slot]? = some d) : IsZero d.slope := by
    obtain ⟨inside, rfl⟩ := Array.getElem?_eq_some_iff.1 place
    have other : slot ≠ j := fun same => unread (same ▸ loaded)
    simp [seeded, Fin.ext_iff, other, isZero_zero]
  have steady : IsZero (Dual.constant t).slope := isZero_zero
  have result := zeroSlopes_runOn? loads steady run .empty
  rw [← Vector.toArray_map, value_seeded] at result
  have only : IsZero ((c.rates Dual.constant (Dual.constant t) (seeded x j)).get i).slope ↔
      code.Regular x.toArray t := by
    have all := result.all
    simp only [List.mem_toArray, List.mem_singleton, forall_eq, true_and, Array.map_empty] at all
    exact all
  exact (result.each _ (by simp)).congr only

/-- In a model that compiles, each rate can be unfolded to code that loads states only. The partial
derivative of the rate by a state that this code does not load is zero where every operation of
the code meets its operands at a regular point; everywhere else it is no number. -/
theorem partials_by_unread_states_are_zero_or_lost {m : FlatModel Float} {name : String}
    {c : CompiledModel Float} (compiled : m.compile name = .ok c) (i : Fin c.dimension) :
    (∃ code, c.Unfolds (c.states.get i).rate code) ∧
    ∀ code, c.Unfolds (c.states.get i).rate code → ∀ j : Fin c.dimension, .load j.val ∉ code →
      ∀ (t : Float) (x : Vector Float c.dimension) (buffer : Matrix Float c.dimension),
        (((c.flow.jacobian t x buffer).entry i j == 0) = true ↔ code.Regular x.toArray t) ∧
        (¬ code.Regular x.toArray t → ((c.flow.jacobian t x buffer).entry i j).isNaN = true) := by
  obtain ⟨s, known, -, assembled⟩ := FlatModel.assembled_of_compile compiled
  refine ⟨assembled.readsBefore.exists_unfolds i, fun code unfolds j unread t x buffer => ?_⟩
  have slope := assembled.zeroIff_rate unfolds unread t x
  have entry : (c.flow.jacobian t x buffer).entry i j =
      ((c.rates Dual.constant (Dual.constant t) (seeded x j)).get i).slope :=
    entry_dualJacobian _ t x buffer i j
  rw [entry, beq_zero_iff, isNaN_iff]
  exact ⟨slope.iff, slope.lost⟩

/-- A body that falls through air: its height, its speed and the force on it. -/
def fall : FlatModel Float where
  name := "Fall"
  parameters := [⟨"k", .number 0.5, false⟩]
  unknowns := [⟨"h", none, some (.number 9)⟩, ⟨"v", none, none⟩, ⟨"f", none, none⟩]
  equations :=
    [⟨.der ⟨"h", none⟩, .neg (.ref ⟨"v", none⟩)⟩,
      ⟨.der ⟨"v", none⟩, .binary (.number 9.81) .sub (.ref ⟨"f", none⟩)⟩,
      ⟨.ref ⟨"f", none⟩,
        .binary (.ref ⟨"k", none⟩) .mul (.binary (.ref ⟨"v", none⟩) .div (.number 4))⟩]

def compiledFall : CompiledModel Float where
  name := "Fall"
  states := [⟨"h", 9, [.load 1, .neg]⟩, ⟨"v", 0, [.const 9.81, .load 2, .operate .sub]⟩]
  algebraics := [⟨"f", [.const 0.5, .load 1, .const 4, .operate .div, .operate .mul]⟩]
  parameters := [("k", 0.5)]

/-- How the body speeds up, without the force. -/
def unfoldedFall : Code Float :=
  [.const 9.81, .const 0.5, .load 1, .const 4, .operate .div, .operate .mul, .operate .sub]

/-- The height has no part in how the body speeds up. -/
theorem height_does_not_speed_up :
    fall.compile "Fall" = .ok compiledFall ∧
      compiledFall.Unfolds (compiledFall.states.get ⟨1, by decide⟩).rate unfoldedFall ∧
      .load 0 ∉ unfoldedFall ∧ unfoldedFall.Regular #[9, 2] 0 ∧
      ((compiledFall.flow.jacobian 0 #v[9, 2] (.replicate 2 (.replicate 2 5))).entry
        ⟨1, by decide⟩ ⟨0, by decide⟩ == 0) = true := by
  have compiled : fall.compile "Fall" = .ok compiledFall := by with_unfolding_all rfl
  have push : compiledFall.Unfolds [.const 0.5, .load 1, .const 4, .operate .div, .operate .mul]
      [.const 0.5, .load 1, .const 4, .operate .div, .operate .mul] := by
    refine .keep nofun (.keep ?_ (.keep nofun (.keep nofun (.keep nofun .nil))))
    rintro slot ⟨⟩
    decide
  have slowed : compiledFall.Unfolds [.load (compiledFall.dimension + 0), .operate .sub]
      ([.const 0.5, .load 1, .const 4, .operate .div, .operate .mul] ++ [.operate .sub]) :=
    .slot rfl push (.keep nofun .nil)
  have unfolds : compiledFall.Unfolds (compiledFall.states.get ⟨1, by decide⟩).rate unfoldedFall := by
    refine .keep ?_ slowed
    rintro slot ⟨⟩
  have unread : .load 0 ∉ unfoldedFall := by decide
  have regular : unfoldedFall.Regular #[9, 2] 0 := by decide +kernel
  have partials := (partials_by_unread_states_are_zero_or_lost compiled ⟨1, by decide⟩).2 _ unfolds
    ⟨0, by decide⟩ unread
  exact ⟨compiled, unfolds, unread, regular, (partials 0 #v[9, 2] _).1.2 regular⟩

/-- A place that moves at the root of a gain, which is zero. -/
def still : FlatModel Float where
  name := "Still"
  parameters := [⟨"g", .number 0, false⟩]
  unknowns := [⟨"x", none, none⟩]
  equations := [⟨.der ⟨"x", none⟩, .call "sqrt" [.ref ⟨"g", none⟩]⟩]

def compiledStill : CompiledModel Float where
  name := "Still"
  states := [⟨"x", 0, [.const 0, .call .sqrt]⟩]
  algebraics := []
  parameters := [("g", 0)]

/-- The root of zero is zero, but its slope is lost: a rate that is finite and depends on nothing
has a partial derivative that is no number. -/
theorem roots_of_zero_lose_their_slope :
    still.compile "Still" = .ok compiledStill ∧
      compiledStill.Unfolds (compiledStill.states.get ⟨0, by decide⟩).rate
        [.const 0, .call .sqrt] ∧
      .load 0 ∉ ([.const 0, .call .sqrt] : Code Float) ∧
      compiledStill.observe 0 #v[1] = #[1] ∧ (compiledStill.flow.rate 0 #v[1]).toArray = #[0] ∧
      ((compiledStill.flow.jacobian 0 #v[1] (.replicate 1 (.replicate 1 0))).entry
        ⟨0, by decide⟩ ⟨0, by decide⟩).isNaN = true := by
  have compiled : still.compile "Still" = .ok compiledStill := by with_unfolding_all rfl
  have unfolds : compiledStill.Unfolds (compiledStill.states.get ⟨0, by decide⟩).rate
      [.const 0, .call .sqrt] := by
    refine .keep ?_ (.keep ?_ .nil)
    · rintro slot ⟨⟩
    · rintro slot ⟨⟩
  exact ⟨compiled, unfolds, by decide, by decide +kernel, by decide +kernel, by decide +kernel⟩

end Acausal
