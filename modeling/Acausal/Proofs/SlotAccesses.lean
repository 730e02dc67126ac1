-- Compiled code reads only what is there. An algebraic variable loads slots before its own and a
-- rate loads slots that there are, so a model that compiles can be run by a machine that stops at
-- a missing slot or a missing operand, and that machine never stops.
import Acausal.Proofs.UnfoldedCode

namespace Acausal

variable {α β : Type}

/-! ## Runs that stop where something is missing -/

section
variable [Add β] [Sub β] [Mul β] [Div β] [Neg β] [Elementary β]

/-- The result of code of which every instruction finds its operands and its slot. -/
def Code.value? (lift : α → β) (slots : Array β) (t : β) (code : Code α) : Option β := do
  let stack ← code.runOn? lift slots t #[]
  let (v, _) ← pop? stack
  return v

namespace CompiledModel

/-- The slots at a time and a state, if no code misses anything while they are filled. -/
def slots? (c : CompiledModel α) (lift : α → β) (t : β) (x : Vector β c.dimension) :
    Option (Array β) :=
  c.algebraics.foldlM (fun slots a => (a.code.value? lift slots t).map slots.push) x.toArray

/-- The rates at a time and a state, if no code misses anything on the way to them. -/
def rates? (c : CompiledModel α) (lift : α → β) (t : β) (x : Vector β c.dimension) :
    Option (Vector β c.dimension) := do
  let slots ← c.slots? lift t x
  Vector.ofFnM fun i => (c.states.get i).rate.value? lift slots t

end CompiledModel

end

section
variable [Zero α] [One α] [Add α] [Sub α] [Mul α] [Div α] [Neg α] [OfScientific α] [BEq α]
  [LE α] [DecidableLE α] [Elementary α]

/-- The Jacobian at a time and a state, written over a matrix column by column, if no code misses
anything in any of the columns. -/
def CompiledModel.jacobian? (c : CompiledModel α) (t : α) (x : Vector α c.dimension)
    (buffer : Matrix α c.dimension) : Option (Matrix α c.dimension) :=
  (List.finRange c.dimension).foldlM (fun m j => do
    let rates ← c.rates? Dual.constant (Dual.constant t) (seeded x j)
    return m.setColumn j (rates.map (·.slope))) buffer

end

/-- Code for an expression has a result wherever its slots are. -/
theorem value?_compile [Zero β] [Add β] [Sub β] [Mul β] [Div β] [Neg β] [Elementary β]
    {slot? : String → Option Nat} {known : Valuation α} {lift : α → β} {slots : Array β} {t : β}
    {e : Expr α} {code : Code α} (h : e.compile slot? known = .ok code)
    (inside : ∀ r ∈ e.refs, ∀ i, slot? r.flatName = some i → i < slots.size) :
    code.value? lift slots t = some (code.value lift slots t) := by
  obtain ⟨v, run⟩ : ∃ v, ∀ stack, code.runOn? lift slots t stack = some (stack.push v) := by
    obtain ⟨v, -, run⟩ := runOn?_compile h inside
    exact ⟨v, run⟩
  have result : code.value lift slots t = v := by
    rw [Code.value, Code.run, runOn_of_runOn? (run _), pop_push]
  rw [Code.value?, run, result, Option.bind_eq_bind, Option.bind_some, pop?_push]
  rfl

/-! ## Models that compile -/

namespace FlatModel.Assembled

open CompiledModel

variable [Zero α] [Add α] [Sub α] [Mul α] [Div α] [Neg α] [Elementary α] {m : FlatModel α}
  {known : Valuation α} {c : CompiledModel α}

/-- The algebraic variables are those that equations give a value, each once. -/
theorem mem_algebraicNames (h : m.Assembled known c) (name : String) :
    name ∈ c.algebraicNames ↔ m.values.defines name := by
  obtain ⟨-, defined, all⟩ := Definitions.sorted_eq_ok h.ordered
  exact ⟨defined name, fun hd => all name (declared_of_value hd) hd⟩

theorem value_code (h : m.Assembled known c) :
    List.Forall₂ (fun name code => m.values.compile (slotOf? c.recorded) known name = .ok code)
      c.algebraicNames (c.algebraics.map (·.code)) := by
  rw [algebraicNames, List.forall₂_map_left_iff, List.forall₂_map_right_iff, List.forall₂_same]
  exact h.values

theorem rate_code (h : m.Assembled known c) :
    List.Forall₂ (fun name code => m.rates.compile (slotOf? c.recorded) known name = .ok code)
      c.stateNames (c.states.map (·.rate)) := by
  rw [CompiledModel.stateNames, List.forall₂_map_left_iff, List.forall₂_map_right_iff,
    List.forall₂_same]
  exact h.rates

theorem start_values (h : m.Assembled known c) :
    List.Forall₂ (fun name v => m.startValue known name = .ok v)
      c.stateNames c.initialState.toList := by
  have starts : c.initialState.toList = c.states.map (·.start) := by
    apply List.ext_getElem
    · simp
    · intro i _ _
      simp [initialState]
  rw [starts, CompiledModel.stateNames, List.forall₂_map_left_iff, List.forall₂_map_right_iff,
    List.forall₂_same]
  exact h.starts

variable [Zero β] [Add β] [Sub β] [Mul β] [Div β] [Neg β] [Elementary β]

/-- Over the slots filled so far, the code of the next algebraic variable misses nothing. -/
theorem value?_algebraic (h : m.Assembled known c) (lift : α → β) (t : β)
    (x : Vector β c.dimension) {before after : List (AlgebraicVariable α)}
    {a : AlgebraicVariable α} (cut : c.algebraics = before ++ a :: after) :
    a.code.value? lift (fill lift t before x.toArray) t =
      some (a.code.value lift (fill lift t before x.toArray) t) := by
  obtain ⟨e, he, hcode⟩ := compile_eq_ok.1 (h.values a (by simp [cut]))
  have size : (fill lift t before x.toArray).size = c.dimension + before.length := by
    simp [size_fill]
  exact value?_compile hcode fun r hr slot hslot => size ▸ h.slot_before cut he hr hslot

theorem foldlM_fill (h : m.Assembled known c) (lift : α → β) (t : β) (x : Vector β c.dimension)
    {before after : List (AlgebraicVariable α)} (cut : c.algebraics = before ++ after) :
    after.foldlM (fun slots a => (a.code.value? lift slots t).map slots.push)
      (fill lift t before x.toArray) = some (fill lift t c.algebraics x.toArray) := by
  induction after generalizing before with
  | nil =>
    rw [cut, List.append_nil]
    rfl
  | cons a after ih =>
    have next : fill lift t (before ++ [a]) x.toArray =
        (fill lift t before x.toArray).push
          (a.code.value lift (fill lift t before x.toArray) t) := by
      simp [fill, List.foldl_append]
    rw [List.foldlM_cons, h.value?_algebraic lift t x cut, Option.map_some, ← next]
    exact ih (by rw [cut, List.append_assoc, List.singleton_append])

theorem slots?_eq (h : m.Assembled known c) (lift : α → β) (t : β) (x : Vector β c.dimension) :
    c.slots? lift t x = some (c.slots lift t x) :=
  h.foldlM_fill lift t x (List.nil_append c.algebraics).symm

theorem rates?_eq (h : m.Assembled known c) (lift : α → β) (t : β) (x : Vector β c.dimension) :
    c.rates? lift t x = some (c.rates lift t x) := by
  have each (i : Fin c.dimension) :
      (c.states.get i).rate.value? lift (c.slots lift t x) t =
        some ((c.states.get i).rate.value lift (c.slots lift t x) t) := by
    obtain ⟨e, -, hcode⟩ := compile_eq_ok.1 (h.rates _ (List.get_mem c.states i))
    refine value?_compile hcode fun r _ slot hslot => ?_
    rw [size_slots]
    exact (List.getElem?_eq_some_iff.1 (getElem?_of_slotOf? hslot)).1
  rw [rates?, h.slots?_eq lift t x, Option.bind_eq_bind, Option.bind_some, funext each]
  exact Vector.ofFnM_pure

end FlatModel.Assembled

section
variable [Zero α] [One α] [Add α] [Sub α] [Mul α] [Div α] [Neg α] [OfScientific α] [BEq α]
  [LE α] [DecidableLE α] [Elementary α]

theorem FlatModel.Assembled.jacobian?_eq {m : FlatModel α} {known : Valuation α}
    {c : CompiledModel α} (h : m.Assembled known c) (t : α) (x : Vector α c.dimension)
    (buffer : Matrix α c.dimension) :
    c.jacobian? t x buffer = some (c.flow.jacobian t x buffer) := by
  have column (j : Fin c.dimension) := h.rates?_eq Dual.constant (Dual.constant t) (seeded x j)
  simp only [CompiledModel.jacobian?, column, Option.bind_eq_bind, Option.bind_some]
  exact List.foldlM_pure

/-- In a model that compiles, each algebraic variable has one piece of code, each state one piece
of code and one start value, all made from the definition under that very name. The code of an
algebraic variable loads only slots in front of its own, that of a rate only slots that there are.
So at every time and every state the observed values, the rates and the Jacobian are computed
without a missing slot or operand. -/
theorem code_reads_what_is_there {m : FlatModel α} {name : String} {c : CompiledModel α}
    (h : m.compile name = .ok c) :
    (∃ s known, m.scalarize = .ok s ∧ s.evaluateParameters = .ok known ∧
      c.stateNames = s.stateNames ∧ c.algebraicNames.Nodup ∧
      (∀ n, n ∈ c.algebraicNames ↔ s.values.defines n) ∧
      List.Forall₂ (fun n code => s.values.compile (slotOf? c.recorded) known n = .ok code)
        c.algebraicNames (c.algebraics.map (·.code)) ∧
      List.Forall₂ (fun n code => s.rates.compile (slotOf? c.recorded) known n = .ok code)
        c.stateNames (c.states.map (·.rate)) ∧
      List.Forall₂ (fun n v => s.startValue known n = .ok v) c.stateNames
        c.initialState.toList) ∧
    (∀ (i : Nat) a, c.algebraics[i]? = some a →
      ∀ slot, .load slot ∈ a.code → slot < c.stateNames.length + i) ∧
    (∀ s ∈ c.states, ∀ slot, .load slot ∈ s.rate →
      slot < c.stateNames.length + c.algebraicNames.length) ∧
    ∀ t x buffer,
      c.slots? id t x = some (c.observe t x) ∧
      c.rates? id t x = some (c.flow.rate t x) ∧
      c.jacobian? t x buffer = some (c.flow.jacobian t x buffer) := by
  obtain ⟨s, known, scalar, assembled⟩ := FlatModel.assembled_of_compile h
  have before := assembled.readsBefore
  have states : c.stateNames.length = c.dimension := List.length_map _
  have algebraics : c.algebraicNames.length = c.algebraics.length := List.length_map _
  refine ⟨⟨s, known, scalar, assembled.evaluated, assembled.stateNames, assembled.layered.nodup,
    assembled.mem_algebraicNames, assembled.value_code, assembled.rate_code,
    assembled.start_values⟩, ?_, ?_, fun t x buffer => ⟨?_, ?_, ?_⟩⟩
  · rw [states]
    exact before.algebraics
  · rw [states, algebraics]
    exact before.rates
  · exact assembled.slots?_eq id t x
  · exact assembled.rates?_eq id t x
  · exact assembled.jacobian?_eq t x buffer

end

/-- A damped weight, with the power of the force on it declared in front of the force. -/
def damped : FlatModel Float where
  name := "Damped"
  parameters := [⟨"k", .number 4, false⟩]
  unknowns := [⟨"x", none, some (.number 2)⟩, ⟨"v", none, none⟩, ⟨"power", none, none⟩,
    ⟨"force", none, none⟩]
  equations :=
    [⟨.der ⟨"x", none⟩, .ref ⟨"v", none⟩⟩,
      ⟨.der ⟨"v", none⟩, .ref ⟨"force", none⟩⟩,
      ⟨.ref ⟨"power", none⟩, .binary (.ref ⟨"force", none⟩) .mul (.ref ⟨"v", none⟩)⟩,
      ⟨.ref ⟨"force", none⟩,
        .binary (.neg (.binary (.ref ⟨"k", none⟩) .mul (.ref ⟨"x", none⟩))) .sub
          (.ref ⟨"v", none⟩)⟩]

/-- The damped weight compiled: the force has the slot in front of the power, which reads it. -/
def compiledDamped : CompiledModel Float where
  name := "Damped"
  states := [⟨"x", 2, [.load 1]⟩, ⟨"v", 0, [.load 2]⟩]
  algebraics :=
    [⟨"force", [.const 4, .load 0, .operate .mul, .neg, .load 1, .operate .sub]⟩,
      ⟨"power", [.load 2, .load 1, .operate .mul]⟩]
  parameters := [("k", 4)]

theorem damped_reads_what_is_there :
    damped.compile "Damped" = .ok compiledDamped ∧
      (∀ slot, .load slot ∈ ([.load 2, .load 1, .operate .mul] : Code Float) → slot < 2 + 1) ∧
      compiledDamped.slots? id 0 #v[2, 1] = some (compiledDamped.observe 0 #v[2, 1]) ∧
      compiledDamped.jacobian? 0 #v[2, 1] (.replicate 2 (.replicate 2 5)) =
        some (compiledDamped.flow.jacobian 0 #v[2, 1] (.replicate 2 (.replicate 2 5))) := by
  have compiled : damped.compile "Damped" = .ok compiledDamped := by with_unfolding_all rfl
  obtain ⟨-, before, -, runs⟩ := code_reads_what_is_there compiled
  obtain ⟨observed, -, differentiated⟩ :=
    runs 0 #v[2, 1] (.replicate 2 (.replicate 2 5))
  exact ⟨compiled, before 1 _ rfl, observed, differentiated⟩

end Acausal
