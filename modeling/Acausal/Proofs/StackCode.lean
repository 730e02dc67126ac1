-- Code does what its expression says. An expression compiles exactly when it can be computed
-- from the names with a slot or a known value, and its code then leaves the value of the
-- expression, and nothing else, on whatever stack it starts with. No instruction of it takes an
-- operand off an empty stack.
import Acausal.Code.Compile
import Acausal.Dual
import Acausal.Proofs.Expressions
import Acausal.Proofs.Names
import Acausal.Proofs.Success

namespace Acausal

variable {α β : Type} {slot? : String → Option Nat} {known : Valuation α}

/-! ## Compilation -/

theorem compile_binary_eq_ok {lhs rhs : Expr α} {op : Operator} {code : Code α} :
    (Expr.binary lhs op rhs).compile slot? known = .ok code ↔
      ∃ a b, lhs.compile slot? known = .ok a ∧ rhs.compile slot? known = .ok b ∧
        code = a ++ b ++ [.operate op] := by
  rw [Expr.compile]
  simp only [bind_eq_ok, pure_eq_ok]
  constructor
  · rintro ⟨a, ha, b, hb, rfl⟩
    exact ⟨a, b, ha, hb, rfl⟩
  · rintro ⟨a, b, ha, hb, rfl⟩
    exact ⟨a, ha, b, hb, rfl⟩

theorem compile_neg_eq_ok {operand : Expr α} {code : Code α} :
    (Expr.neg operand).compile slot? known = .ok code ↔
      ∃ a, operand.compile slot? known = .ok a ∧ code = a ++ [.neg] := by
  rw [Expr.compile]
  simp only [bind_eq_ok, pure_eq_ok]
  constructor
  · rintro ⟨a, ha, rfl⟩
    exact ⟨a, ha, rfl⟩
  · rintro ⟨a, ha, rfl⟩
    exact ⟨a, ha, rfl⟩

theorem compile_call_eq_ok {function : String} {args : List (Expr α)} {code : Code α} :
    (Expr.call function args).compile slot? known = .ok code ↔
      ∃ f arg a, Builtin.ofName? function = some f ∧ args = [arg] ∧
        arg.compile slot? known = .ok a ∧ code = a ++ [.call f] := by
  rcases args with _ | ⟨arg, _ | ⟨second, rest⟩⟩
  · unfold Expr.compile
    cases Builtin.ofName? function <;> simp
  · rw [Expr.compile]
    cases hf : Builtin.ofName? function with
    | none => simp
    | some f =>
      simp only [bind_eq_ok, pure_eq_ok, Option.some.injEq, List.cons.injEq, and_true]
      constructor
      · rintro ⟨a, ha, rfl⟩
        exact ⟨f, arg, a, rfl, rfl, ha, rfl⟩
      · rintro ⟨_, _, a, rfl, rfl, ha, rfl⟩
        exact ⟨a, ha, rfl⟩
  · unfold Expr.compile
    cases Builtin.ofName? function <;> simp

/-- The names with a known value. -/
def Known (known : Valuation α) (name : String) : Prop := (known.lookup name).isSome

/-- The names with a slot or a known value. -/
def HasPlace (slot? : String → Option Nat) (known : Valuation α) (name : String) : Prop :=
  (slot? name).isSome ∨ Known known name

/-- An expression compiles exactly when it can be computed from the names with a place. -/
theorem exists_compile_eq_ok (e : Expr α) :
    (∃ code, e.compile slot? known = .ok code) ↔ e.ComputableFrom (HasPlace slot? known) := by
  induction e with
  | number value => simp [Expr.compile]
  | time => simp [Expr.compile]
  | der r => simp [Expr.compile]
  | ref r =>
    unfold Expr.compile
    cases hs : slot? r.flatName <;> cases hk : known.lookup r.flatName <;>
      simp [HasPlace, Known, hs, hk]
  | neg operand ih =>
    rw [Expr.ComputableFrom.neg_iff, ← ih]
    simp [compile_neg_eq_ok]
  | binary lhs op rhs ihl ihr =>
    rw [Expr.ComputableFrom.binary_iff, ← ihl, ← ihr]
    simp only [compile_binary_eq_ok]
    constructor
    · rintro ⟨_, a, b, ha, hb, rfl⟩
      exact ⟨⟨a, ha⟩, ⟨b, hb⟩⟩
    · rintro ⟨⟨a, ha⟩, ⟨b, hb⟩⟩
      exact ⟨_, a, b, ha, hb, rfl⟩
  | call function args ih =>
    rw [Expr.ComputableFrom.call_iff, Expr.wellApplied_iff]
    simp only [compile_call_eq_ok]
    constructor
    · rintro ⟨_, f, arg, a, hf, rfl, ha, rfl⟩
      refine ⟨⟨f, arg, hf, rfl⟩, ?_⟩
      simpa using (ih arg (by simp)).1 ⟨a, ha⟩
    · rintro ⟨⟨f, arg, hf, rfl⟩, each⟩
      obtain ⟨a, ha⟩ := (ih arg (by simp)).2 (each arg (by simp))
      exact ⟨_, f, arg, a, hf, rfl, ha, rfl⟩

/-! ## Running code -/

/-- What a name reads as where code is run: the value in its slot, or else the known value
that stands for it in the code. -/
def placeValue? (slot? : String → Option Nat) (known : Valuation α) (lift : α → β)
    (slots : Array β) (name : String) : Option β :=
  match slot? name with
  | some slot => slots[slot]?
  | none => (known.lookup name).map lift

/-- What a name reads as beside a list of names with a slot each: the value in the last slot of
the name, or else its known value. -/
def slotReading (names : List String) (known : Valuation α) (lift : α → β) (slots : Array β)
    (name : String) : Option β :=
  ((names.zip slots.toList).reverse.lookup name).or ((known.lookup name).map lift)

theorem slotReading_eq {names : List String} {lift : α → β} {slots : Array β}
    (full : slots.size = names.length) :
    slotReading names known lift slots = placeValue? (slotOf? names) known lift slots := by
  funext name
  unfold slotReading placeValue?
  rw [lookup_reverse_zip (by simpa using full.symm)]
  cases hs : slotOf? names name with
  | none => rfl
  | some slot =>
    have inside := (List.getElem?_eq_some_iff.1 (getElem?_of_slotOf? hs)).1
    have bound : slot < slots.size := by omega
    simp [bound]

theorem pop_push [Zero β] (stack : Array β) (v : β) : pop (stack.push v) = (v, stack) := by
  simp [pop]

/-- The top of a stack that is not empty, and what is below it. -/
def pop? (stack : Array β) : Option (β × Array β) := stack.back?.map (·, stack.pop)

@[simp] theorem pop?_push (stack : Array β) (v : β) : pop? (stack.push v) = some (v, stack) := by
  simp [pop?]

theorem pop_of_pop? [Zero β] {stack : Array β} {top : β × Array β} (h : pop? stack = some top) :
    pop stack = top := by
  obtain ⟨v, back, rfl⟩ := Option.map_eq_some_iff.1 h
  simp [pop, back]

section
variable [Add β] [Sub β] [Mul β] [Div β] [Neg β] [Elementary β] {lift : α → β}
  {slots : Array β} {t : β}

/-- The stack after one instruction that finds each of its operands on the stack, and its slot
among those there are. -/
def Instruction.run? (lift : α → β) (slots : Array β) (t : β) (stack : Array β) :
    Instruction α → Option (Array β)
  | const value => some (stack.push (lift value))
  | load slot => slots[slot]?.map stack.push
  | time => some (stack.push t)
  | operate op => do
    let (b, stack) ← pop? stack
    let (a, stack) ← pop? stack
    return stack.push (op.apply a b)
  | neg => do
    let (a, stack) ← pop? stack
    return stack.push (-a)
  | call function => do
    let (a, stack) ← pop? stack
    return stack.push (function.apply a)

/-- The stack after code of which every instruction finds its operands and its slot. -/
def Code.runOn? (lift : α → β) (slots : Array β) (t : β) (code : Code α) (stack : Array β) :
    Option (Array β) :=
  code.foldlM (Instruction.run? lift slots t) stack

theorem runOn?_append (a b : Code α) (stack : Array β) :
    (a ++ b : Code α).runOn? lift slots t stack =
      (a.runOn? lift slots t stack).bind (b.runOn? lift slots t) :=
  List.foldlM_append

theorem runOn?_singleton (instruction : Instruction α) (stack : Array β) :
    Code.runOn? lift slots t [instruction] stack = instruction.run? lift slots t stack := by
  simp [Code.runOn?]

/-- Code takes the value of its expression to the top of the stack it starts with, never short
of an operand, as long as the slots it reads are there. -/
theorem runOn?_compile {e : Expr α} {code : Code α} (h : e.compile slot? known = .ok code)
    (inside : ∀ r ∈ e.refs, ∀ i, slot? r.flatName = some i → i < slots.size) :
    ∃ v, e.value? (placeValue? slot? known lift slots) lift t = some v ∧
      ∀ stack, code.runOn? lift slots t stack = some (stack.push v) := by
  induction e generalizing code with
  | number value =>
    cases h
    exact ⟨lift value, rfl, fun stack => rfl⟩
  | time =>
    cases h
    exact ⟨t, rfl, fun stack => rfl⟩
  | der r => cases h
  | ref r =>
    unfold Expr.compile at h
    cases hs : slot? r.flatName with
    | some i =>
      simp only [hs] at h
      cases h
      have bound := inside r (by simp [Expr.refs]) i hs
      refine ⟨slots[i], ?_, fun stack => ?_⟩
      · simp [Expr.value?, placeValue?, hs, bound]
      · simp [runOn?_singleton, Instruction.run?, bound]
    | none =>
      cases hk : known.lookup r.flatName with
      | none => simp [hs, hk] at h
      | some value =>
        simp only [hs, hk] at h
        cases h
        exact ⟨lift value, by simp [Expr.value?, placeValue?, hs, hk], fun stack => rfl⟩
  | neg operand ih =>
    obtain ⟨a, ha, rfl⟩ := compile_neg_eq_ok.1 h
    obtain ⟨v, hv, run⟩ := ih ha inside
    refine ⟨-v, by simp [Expr.value?, hv], fun stack => ?_⟩
    rw [runOn?_append, run]
    simp [runOn?_singleton, Instruction.run?]
  | binary lhs op rhs ihl ihr =>
    obtain ⟨a, b, ha, hb, rfl⟩ := compile_binary_eq_ok.1 h
    obtain ⟨x, hx, runl⟩ := ihl ha fun r hr => inside r (by simp [Expr.refs, hr])
    obtain ⟨y, hy, runr⟩ := ihr hb fun r hr => inside r (by simp [Expr.refs, hr])
    refine ⟨op.apply x y, by simp [Expr.value?, hx, hy], fun stack => ?_⟩
    rw [runOn?_append, runOn?_append, runl, Option.bind_some, runr]
    simp [runOn?_singleton, Instruction.run?]
  | call function args ih =>
    obtain ⟨f, arg, a, hf, rfl, ha, rfl⟩ := compile_call_eq_ok.1 h
    obtain ⟨v, hv, run⟩ :=
      ih arg (by simp) ha fun r hr => inside r (by simp [Expr.refs, Expr.refsAll, hr])
    refine ⟨f.apply v, by simp [Expr.value?, hf, hv], fun stack => ?_⟩
    rw [runOn?_append, run]
    simp [runOn?_singleton, Instruction.run?]

end

section
variable [Zero β] [Add β] [Sub β] [Mul β] [Div β] [Neg β] [Elementary β] {lift : α → β}
  {slots : Array β} {t : β}

/-- An instruction that finds what it needs never sees the zeros that stand in for it. -/
theorem Instruction.run_of_run? {instruction : Instruction α} {stack after : Array β}
    (h : instruction.run? lift slots t stack = some after) :
    instruction.run lift slots t stack = after := by
  cases instruction with
  | const value => exact Option.some.inj h
  | time => exact Option.some.inj h
  | load slot =>
    obtain ⟨v, there, rfl⟩ := Option.map_eq_some_iff.1 h
    obtain ⟨bound, rfl⟩ := Array.getElem?_eq_some_iff.1 there
    simp [Instruction.run, Array.getD, bound]
  | operate op =>
    obtain ⟨⟨b, below⟩, first, h⟩ := Option.bind_eq_some_iff.1 h
    obtain ⟨⟨a, rest⟩, second, h⟩ := Option.bind_eq_some_iff.1 h
    rw [Instruction.run, pop_of_pop? first]
    simp only [pop_of_pop? second]
    exact Option.some.inj h
  | neg =>
    obtain ⟨⟨a, rest⟩, first, h⟩ := Option.bind_eq_some_iff.1 h
    rw [Instruction.run, pop_of_pop? first]
    exact Option.some.inj h
  | call function =>
    obtain ⟨⟨a, rest⟩, first, h⟩ := Option.bind_eq_some_iff.1 h
    rw [Instruction.run, pop_of_pop? first]
    exact Option.some.inj h

theorem runOn_of_runOn? {code : Code α} {stack after : Array β}
    (h : code.runOn? lift slots t stack = some after) :
    code.runOn lift slots t stack = after := by
  induction code generalizing stack with
  | nil => exact Option.some.inj h
  | cons instruction rest ih =>
    obtain ⟨next, step, h⟩ := Option.bind_eq_some_iff.1 h
    rw [← ih h, ← Instruction.run_of_run? step]
    rfl

/-- Code leaves the value of its expression on top of the stack it starts with, as long as the
slots it reads are there. -/
theorem runOn_compile {e : Expr α} {code : Code α} (h : e.compile slot? known = .ok code)
    (inside : ∀ r ∈ e.refs, ∀ i, slot? r.flatName = some i → i < slots.size) :
    ∃ v, e.value? (placeValue? slot? known lift slots) lift t = some v ∧
      ∀ stack, code.runOn lift slots t stack = stack.push v := by
  obtain ⟨v, hv, run⟩ := runOn?_compile h inside
  exact ⟨v, hv, fun stack => runOn_of_runOn? (run stack)⟩

/-- The result of code is the value of its expression. -/
theorem value_compile {e : Expr α} {code : Code α} (h : e.compile slot? known = .ok code)
    (inside : ∀ r ∈ e.refs, ∀ i, slot? r.flatName = some i → i < slots.size) :
    e.value? (placeValue? slot? known lift slots) lift t = some (code.value lift slots t) := by
  obtain ⟨v, hv, run⟩ := runOn_compile h inside
  rw [hv, Code.value, Code.run, run, pop_push]

/-- An expression compiles exactly when each reference has a slot or a known value, no derivative
is mentioned and each call is of a builtin with one argument. Its code then computes its value,
whatever is left on the scratch stack: no instruction misses an operand, and the value stands
alone on the stack when it is taken off. -/
theorem code_computes_values (e : Expr α) (names : List String) (known : Valuation α) :
    ((∃ code, e.compile (slotOf? names) known = .ok code) ↔
      (∀ r ∈ e.refs, r.flatName ∈ names ∨ r.flatName ∈ known.map (·.1)) ∧
        (∀ r, r ∉ e.derivatives) ∧ ∀ c ∈ e.applications, Expr.WellApplied c) ∧
    ∀ code, e.compile (slotOf? names) known = .ok code →
      ∀ (lift : α → β) (slots : Array β) (t : β) (scratch : Array β),
        slots.size = names.length →
        ∃ v, e.value? (slotReading names known lift slots) lift t = some v ∧
          code.runOn? lift slots t (scratch.shrink 0) = some #[v] ∧
          code.run lift slots t scratch = (v, #[]) := by
  constructor
  · have place (name : String) : HasPlace (slotOf? names) known name ↔
        name ∈ names ∨ name ∈ known.map (·.1) := by
      rw [HasPlace, Known, slotOf?_isSome_iff, lookup_isSome_iff_mem]
    rw [exists_compile_eq_ok]
    constructor
    · rintro ⟨plain, applied, reads⟩
      exact ⟨fun r hr => (place _).1 (reads r hr), plain, applied⟩
    · rintro ⟨reads, plain, applied⟩
      exact ⟨plain, applied, fun r hr => (place _).2 (reads r hr)⟩
  · intro code compiled lift slots t scratch full
    obtain ⟨v, value, run⟩ := runOn?_compile compiled
      fun r _ i hi => full ▸ (List.getElem?_eq_some_iff.1 (getElem?_of_slotOf? hi)).1
    have emptied : scratch.shrink 0 = #[] := by simp
    refine ⟨v, slotReading_eq full ▸ value, emptied ▸ run #[], ?_⟩
    rw [Code.run, runOn_of_runOn? (run _), emptied, pop_push]

end

/-- A force in a gain and two places, one of which has two slots. -/
def force : Expr Float :=
  .binary (.binary (.ref ⟨"k", none⟩) .mul (.call "sin" [.ref ⟨"x", none⟩])) .sub
    (.binary (.ref ⟨"y", none⟩) .div (.neg .time))

def forceCode : Code Float :=
  [.const 3, .load 2, .call .sin, .operate .mul, .load 1, .time, .neg, .operate .div,
    .operate .sub]

theorem force_is_computed :
    force.compile (slotOf? ["x", "y", "x"]) [("k", 3)] = .ok forceCode ∧
      ∃ v, force.value? (slotReading ["x", "y", "x"] [("k", 3)] Dual.constant
          #[⟨0, 0⟩, ⟨4, 0⟩, ⟨1, 1⟩]) Dual.constant ⟨2, 0⟩ = some v ∧
        forceCode.runOn? Dual.constant #[⟨0, 0⟩, ⟨4, 0⟩, ⟨1, 1⟩] ⟨2, 0⟩ (#[⟨9, 9⟩].shrink 0) =
          some #[v] ∧
        forceCode.run Dual.constant #[⟨0, 0⟩, ⟨4, 0⟩, ⟨1, 1⟩] ⟨2, 0⟩ #[⟨9, 9⟩] = (v, #[]) := by
  have compiled : force.compile (slotOf? ["x", "y", "x"]) [("k", 3)] = .ok forceCode := by
    with_unfolding_all rfl
  exact ⟨compiled, (code_computes_values force _ _).2 _ compiled _ _ _ _ (by decide)⟩

/-! ## Known values only -/

section
variable [Zero α] [Add α] [Sub α] [Mul α] [Div α] [Neg α] [Elementary α]

/-- An expression evaluates exactly when it can be computed from the known names. -/
theorem exists_evaluate_eq_ok (e : Expr α) :
    (∃ v, e.evaluate known = .ok v) ↔ e.ComputableFrom (Known known) := by
  have place : HasPlace (fun _ => none) known = Known known := by
    funext name
    simp [HasPlace]
  rw [← place, ← exists_compile_eq_ok]
  simp only [Expr.evaluate, bind_eq_ok, pure_eq_ok]
  constructor
  · rintro ⟨_, code, h, _⟩
    exact ⟨code, h⟩
  · rintro ⟨code, h⟩
    exact ⟨_, code, h, rfl⟩

/-- What an expression evaluates to is its value at time zero. -/
theorem value?_of_evaluate {e : Expr α} {v : α} (h : e.evaluate known = .ok v) :
    e.value? (fun name => known.lookup name) id 0 = some v := by
  simp only [Expr.evaluate, bind_eq_ok, pure_eq_ok] at h
  obtain ⟨code, hcode, rfl⟩ := h
  have read : (fun name => known.lookup name) = placeValue? (fun _ => none) known id #[] := by
    funext name
    simp [placeValue?]
  rw [read]
  exact value_compile hcode (by simp)

end

end Acausal
