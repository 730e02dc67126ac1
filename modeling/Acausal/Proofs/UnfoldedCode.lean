-- Code with the algebraic variables unfolded. A load of an algebraic slot can be replaced by the code
-- that computes the slot; what is left loads states only, and run over the state alone it does
-- what the code does over all slots.
import Acausal.Proofs.DualValues
import Acausal.Proofs.EquationsHold

namespace Acausal

variable {α β : Type}

/-! ## Loads -/

/-- Compiled code loads the slots of the references of its expression. -/
theorem exists_ref_of_load {slot? : String → Option Nat} {known : Valuation α} {e : Expr α}
    {code : Code α} (h : e.compile slot? known = .ok code) {slot : Nat} (loaded : .load slot ∈ code) :
    ∃ r ∈ e.refs, slot? r.flatName = some slot := by
  induction e generalizing code with
  | number value =>
    cases h
    simp at loaded
  | time =>
    cases h
    simp at loaded
  | der r => cases h
  | ref r =>
    refine ⟨r, by simp [Expr.refs], ?_⟩
    unfold Expr.compile at h
    cases hs : slot? r.flatName with
    | some own =>
      simp only [hs] at h
      cases h
      simpa [eq_comm] using loaded
    | none =>
      cases hk : known.lookup r.flatName with
      | none => simp [hs, hk] at h
      | some value =>
        simp only [hs, hk] at h
        cases h
        simp at loaded
  | neg operand ih =>
    obtain ⟨a, ha, rfl⟩ := compile_neg_eq_ok.1 h
    exact ih ha (by simpa using loaded)
  | binary lhs op rhs ihl ihr =>
    obtain ⟨a, b, ha, hb, rfl⟩ := compile_binary_eq_ok.1 h
    have either : .load slot ∈ a ∨ .load slot ∈ b := by simpa using loaded
    rcases either with left | right
    · obtain ⟨r, hr, found⟩ := ihl ha left
      exact ⟨r, by simp [Expr.refs, hr], found⟩
    · obtain ⟨r, hr, found⟩ := ihr hb right
      exact ⟨r, by simp [Expr.refs, hr], found⟩
  | call function args ih =>
    obtain ⟨f, arg, a, hf, rfl, ha, rfl⟩ := compile_call_eq_ok.1 h
    obtain ⟨r, hr, found⟩ := ih arg (by simp) ha (by simpa using loaded)
    exact ⟨r, by simp [Expr.refs, Expr.refsAll, hr], found⟩

/-! ## Unfolding -/

namespace CompiledModel

/-- Code with each load of an algebraic slot replaced by the code of that slot, unfolded in the
same way. -/
inductive Unfolds (c : CompiledModel α) : Code α → Code α → Prop
  | nil : c.Unfolds [] []
  | keep {instruction : Instruction α} {rest unfolded : Code α}
      (plain : ∀ slot, instruction = .load slot → slot < c.dimension)
      (later : c.Unfolds rest unfolded) : c.Unfolds (instruction :: rest) (instruction :: unfolded)
  | slot {k : Nat} {a : AlgebraicVariable α} {inner rest unfolded : Code α}
      (place : c.algebraics[k]? = some a) (own : c.Unfolds a.code inner)
      (later : c.Unfolds rest unfolded) :
      c.Unfolds (.load (c.dimension + k) :: rest) (inner ++ unfolded)

/-- Every algebraic variable reads only slots before its own, and the rates only slots that there
are. -/
structure ReadsBefore (c : CompiledModel α) : Prop where
  algebraics : ∀ (k : Nat) a, c.algebraics[k]? = some a →
    ∀ slot, .load slot ∈ a.code → slot < c.dimension + k
  rates : ∀ s ∈ c.states, ∀ slot, .load slot ∈ s.rate → slot < c.dimension + c.algebraics.length

variable {c : CompiledModel α}

/-- Code unfolds if it loads only the first slots; on how many they are, the induction goes. -/
theorem exists_unfolds_below (h : c.ReadsBefore) (k : Nat) (inside : k ≤ c.algebraics.length)
    (code : Code α) (below : ∀ slot, .load slot ∈ code → slot < c.dimension + k) :
    ∃ unfolded, c.Unfolds code unfolded := by
  induction k using Nat.strong_induction_on generalizing code with
  | h k ih =>
    induction code with
    | nil => exact ⟨[], .nil⟩
    | cons instruction rest later =>
      obtain ⟨unfolded, hrest⟩ := later fun slot hslot => below slot (List.mem_cons_of_mem _ hslot)
      by_cases algebraic : ∃ slot, instruction = .load slot ∧ c.dimension ≤ slot
      · obtain ⟨slot, rfl, behind⟩ := algebraic
        obtain ⟨i, rfl⟩ := Nat.exists_eq_add_of_le behind
        have less : i < k := by
          have := below _ (List.mem_cons_self ..)
          omega
        have place := List.getElem?_eq_getElem (l := c.algebraics) (by omega : i < _)
        obtain ⟨inner, own⟩ := ih i less (by omega) _ (h.algebraics i _ place)
        exact ⟨_, .slot place own hrest⟩
      · push Not at algebraic
        exact ⟨_, .keep algebraic hrest⟩

theorem ReadsBefore.exists_unfolds (h : c.ReadsBefore) (i : Fin c.dimension) :
    ∃ unfolded, c.Unfolds (c.states.get i).rate unfolded :=
  exists_unfolds_below h _ (Nat.le_refl _) _ (h.rates _ (List.get_mem c.states i))

section
variable [Add β] [Sub β] [Mul β] [Div β] [Neg β] [Elementary β] {lift : α → β} {t : β}

/-- Over slots in which each algebraic variable has the value of its code, unfolded code does over
the state alone what the code does over all slots. -/
theorem Unfolds.runOn? {code unfolded : Code α} (h : c.Unfolds code unfolded) {slots : Array β}
    {x : Array β} (state : ∀ slot < c.dimension, x[slot]? = slots[slot]?)
    (computed : ∀ (k : Nat) a, c.algebraics[k]? = some a → ∃ v,
      slots[c.dimension + k]? = some v ∧
        ∀ stack, a.code.runOn? lift slots t stack = some (stack.push v))
    (stack : Array β) :
    unfolded.runOn? lift x t stack = code.runOn? lift slots t stack := by
  induction h generalizing stack with
  | nil => rfl
  | @keep instruction rest unfolded plain later ih =>
    have same : instruction.run? lift x t stack = instruction.run? lift slots t stack := by
      cases instruction with
      | load slot => simp only [Instruction.run?, state slot (plain slot rfl)]
      | _ => rfl
    rw [Code.runOn?, Code.runOn?, List.foldlM_cons, List.foldlM_cons, same]
    exact bind_congr ih
  | @slot k a inner rest unfolded place own later ihOwn ihLater =>
    obtain ⟨v, hv, run⟩ := computed k a place
    rw [runOn?_append, ihOwn, run, Option.bind_some, ihLater]
    simp [Code.runOn?, Instruction.run?, hv]

end

end CompiledModel

/-! ## Models that compile -/

namespace FlatModel.Assembled

variable [Zero α] [Add α] [Sub α] [Mul α] [Div α] [Neg α] [Elementary α] {m : FlatModel α}
  {known : Valuation α} {c : CompiledModel α}

theorem readsBefore (h : m.Assembled known c) : c.ReadsBefore where
  algebraics k a place slot loaded := by
    obtain ⟨bound, rfl⟩ := List.getElem?_eq_some_iff.1 place
    have cut :
        c.algebraics = c.algebraics.take k ++ c.algebraics[k] :: c.algebraics.drop (k + 1) := by
      rw [← List.drop_eq_getElem_cons, List.take_append_drop]
    obtain ⟨e, he, hcode⟩ := compile_eq_ok.1 (h.values c.algebraics[k] (List.getElem_mem bound))
    obtain ⟨r, hr, found⟩ := exists_ref_of_load hcode loaded
    have before := h.slot_before cut he hr found
    rwa [List.length_take_of_le (Nat.le_of_lt bound)] at before
  rates s hs slot loaded := by
    obtain ⟨e, he, hcode⟩ := compile_eq_ok.1 (h.rates s hs)
    obtain ⟨r, hr, found⟩ := exists_ref_of_load hcode loaded
    have inside := (List.getElem?_eq_some_iff.1 (getElem?_of_slotOf? found)).1
    simpa [CompiledModel.recorded, CompiledModel.stateNames, CompiledModel.algebraicNames]
      using inside

variable [Zero β] [Add β] [Sub β] [Mul β] [Div β] [Neg β] [Elementary β]

/-- Over all slots, the code of a definition leaves the value of the defining expression. -/
theorem runOn?_definition (h : m.Assembled known c) {e : Expr α} {code : Code α}
    (hcode : e.compile (slotOf? c.recorded) known = .ok code) (lift : α → β) (t : β)
    (x : Vector β c.dimension) :
    ∃ v, e.value? (c.reading lift (c.slots lift t x)) lift t = some v ∧
      ∀ stack, code.runOn? lift (c.slots lift t x) t stack = some (stack.push v) := by
  rw [CompiledModel.reading_eq (CompiledModel.size_slots x) h.lookup_parameters]
  refine runOn?_compile hcode fun r _ slot found => ?_
  rw [CompiledModel.size_slots]
  exact (List.getElem?_eq_some_iff.1 (getElem?_of_slotOf? found)).1

theorem runOn?_algebraic (h : m.Assembled known c) (lift : α → β) (t : β)
    (x : Vector β c.dimension) {k : Nat} {a : AlgebraicVariable α}
    (place : c.algebraics[k]? = some a) :
    ∃ v, (c.slots lift t x)[c.dimension + k]? = some v ∧
      ∀ stack, a.code.runOn? lift (c.slots lift t x) t stack = some (stack.push v) := by
  obtain ⟨e, he, hcode⟩ := compile_eq_ok.1 (h.values a (List.mem_of_getElem? place))
  have named : c.algebraicNames[k]? = some a.name := by
    rw [CompiledModel.algebraicNames, List.getElem?_map, place]
    rfl
  obtain ⟨e', v, he', value, slot⟩ := h.algebraic_value_at lift t x named
  rw [he] at he'
  cases he'
  obtain ⟨v', value', run⟩ := h.runOn?_definition hcode lift t x
  rw [value] at value'
  cases value'
  exact ⟨v, slot, run⟩

theorem runOn?_rate (h : m.Assembled known c) (lift : α → β) (t : β) (x : Vector β c.dimension)
    (i : Fin c.dimension) :
    (c.states.get i).rate.runOn? lift (c.slots lift t x) t #[] =
      some #[(c.rates lift t x).get i] := by
  obtain ⟨e, -, hcode⟩ := compile_eq_ok.1 (h.rates _ (List.get_mem c.states i))
  obtain ⟨v, -, run⟩ := h.runOn?_definition hcode lift t x
  have result : (c.rates lift t x).get i = v := by
    have value : (c.states.get i).rate.value lift (c.slots lift t x) t = v := by
      rw [Code.value, Code.run, runOn_of_runOn? (run _), pop_push]
    rw [← value]
    simp [CompiledModel.rates, get_eq_getElem]
  rw [run, result]
  rfl

/-- Run over the state alone, the unfolded code of a rate gives the rate and leaves nothing else. -/
theorem runOn?_unfolded (h : m.Assembled known c) {i : Fin c.dimension} {code : Code α}
    (unfolds : c.Unfolds (c.states.get i).rate code) (lift : α → β) (t : β)
    (x : Vector β c.dimension) :
    code.runOn? lift x.toArray t #[] = some #[(c.rates lift t x).get i] := by
  rw [← h.runOn?_rate lift t x i]
  apply unfolds.runOn?
  · intro slot inside
    rw [CompiledModel.slots_eq_fill, CompiledModel.getElem?_fill (by simpa using inside)]
  · intro k a place
    exact h.runOn?_algebraic lift t x place

end FlatModel.Assembled

end Acausal
