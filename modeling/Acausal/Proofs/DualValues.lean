-- The value part of dual numbers. Every operation on dual numbers does to the values what the plain
-- operation does, whatever the slopes are. Code over dual numbers therefore goes, in its values,
-- through the very stacks and slots of the plain run, and a Jacobian is taken where the model is.
import Acausal.System.Model

namespace Acausal

/-! ## Jacobians -/

section
variable {α : Type} {n : Nat}

theorem get_eq_getElem (v : Vector α n) (i : Fin n) : v.get i = v[i.val] := rfl

theorem entry_setColumn (m : Matrix α n) (j : Fin n) (column : Vector α n) (i k : Fin n) :
    (m.setColumn j column).entry i k = if j = k then column.get i else m.entry i k := by
  unfold Matrix.entry Matrix.setColumn
  simp only [get_eq_getElem, Vector.getElem_ofFn, Vector.getElem_set, Fin.ext_iff]

variable [Zero α] [One α]

/-- Every entry of a Jacobian is written over, with the slope of a rate in the direction of a
state. -/
theorem entry_dualJacobian (rate : Dual α → Vector (Dual α) n → Vector (Dual α) n) (t : α)
    (x : Vector α n) (buffer : Matrix α n) (i j : Fin n) :
    (dualJacobian rate t x buffer).entry i j =
      ((rate (Dual.constant t) (seeded x j)).get i).slope := by
  have written (columns : List (Fin n)) (m : Matrix α n) :
      (columns.foldl (fun m j => m.setColumn j (partials rate t x j)) m).entry i j =
        if j ∈ columns then (partials rate t x j).get i else m.entry i j := by
    induction columns generalizing m with
    | nil => rfl
    | cons k columns ih =>
      rw [List.foldl_cons, ih, entry_setColumn]
      by_cases later : j ∈ columns
      · simp [later]
      · by_cases now : k = j
        · simp [now]
        · simp [later, now, Ne.symm now]
  unfold dualJacobian
  rw [written, if_pos (List.mem_finRange j)]
  simp [partials, get_eq_getElem]

theorem value_seeded (x : Vector α n) (j : Fin n) : (seeded x j).map (·.value) = x := by
  ext i hi
  simp [seeded, get_eq_getElem]

end

/-! ## Stacks -/

/-- Taking the top off a stack takes it off the stack of values too; where there is none, zero
stands for it in both. -/
theorem pop_map_value {α : Type} [Zero α] (stack : Array (Dual α)) :
    pop (stack.map (·.value)) = ((pop stack).1.value, (pop stack).2.map (·.value)) := by
  unfold pop
  rw [Array.back?_map, Array.map_pop]
  cases stack.back? with
  | none => rfl
  | some top => rfl

variable {α : Type} [Zero α] [One α] [Add α] [Sub α] [Mul α] [Div α] [Neg α] [OfScientific α]
  [BEq α] [LE α] [DecidableLE α] [Elementary α]

/-! ## Operations -/

namespace Dual

/-- Both rules for the slope of a power leave its value alone. -/
theorem value_pow (x n : Dual α) :
    (Elementary.pow x n).value = Elementary.pow x.value n.value := by
  change (Dual.pow x n).value = _
  unfold Dual.pow
  split <;> rfl

@[simp] theorem value_operate (op : Operator) (x y : Dual α) :
    (op.apply x y).value = op.apply x.value y.value := by
  cases op with
  | pow => exact value_pow x y
  | _ => rfl

@[simp] theorem value_call (f : Builtin) (x : Dual α) : (f.apply x).value = f.apply x.value := by
  cases f <;> rfl

end Dual

/-! ## Code -/

variable (slots stack : Array (Dual α)) (t : Dual α)

/-- The values on the stack after an instruction are those of the plain instruction. -/
theorem Instruction.run_map_value (instruction : Instruction α) :
    (instruction.run Dual.constant slots t stack).map (·.value) =
      instruction.run id (slots.map (·.value)) t.value (stack.map (·.value)) := by
  cases instruction with
  | const value => simp [Instruction.run, Dual.constant]
  | time => simp [Instruction.run]
  | load slot =>
    simp only [Instruction.run, Array.map_push]
    congr 1
    by_cases there : slot < slots.size
    · simp [Array.getD, there]
    · simp [Array.getD, there]
      rfl
  | operate op => simp [Instruction.run, pop_map_value]
  | neg =>
    simp only [Instruction.run, pop_map_value, Array.map_push]
    rfl
  | call function => simp [Instruction.run, pop_map_value]

/-- The values on the stack after code are those of the plain run. -/
theorem runOn_map_value (code : Code α) :
    (code.runOn Dual.constant slots t stack).map (·.value) =
      code.runOn id (slots.map (·.value)) t.value (stack.map (·.value)) := by
  induction code generalizing stack with
  | nil => rfl
  | cons instruction rest ih =>
    have step := instruction.run_map_value slots stack t
    refine (ih (instruction.run Dual.constant slots t stack)).trans ?_
    rw [step]
    rfl

/-- The value of the result of code is the plain result, and what is left on the stack below it
has the values left there by the plain run; neither depends on the scratch stack. -/
theorem run_map_value (code : Code α) (scratch : Array (Dual α)) (plain : Array α) :
    ((code.run Dual.constant slots t scratch).1.value,
        (code.run Dual.constant slots t scratch).2.map (·.value)) =
      code.run id (slots.map (·.value)) t.value plain := by
  have emptied : (scratch.shrink 0).map (·.value) = plain.shrink 0 := by simp
  unfold Code.run
  rw [← pop_map_value, runOn_map_value, emptied]

theorem value_map_value (code : Code α) :
    (code.value Dual.constant slots t).value =
      code.value id (slots.map (·.value)) t.value :=
  congrArg Prod.fst (run_map_value slots t code #[] #[])

/-! ## Compiled models -/

namespace CompiledModel

variable (c : CompiledModel α) (x : Vector (Dual α) c.dimension)

/-- The slots hold the values that they hold in the plain run. -/
theorem slots_map_value :
    (c.slots Dual.constant t x).map (·.value) = c.slots id t.value (x.map (·.value)) := by
  have filled (algebraics : List (AlgebraicVariable α)) (slots : Array (Dual α)) :
      (algebraics.foldl (fun slots a => slots.push (a.code.value Dual.constant slots t)) slots).map
          (·.value) =
        algebraics.foldl (fun slots a => slots.push (a.code.value id slots t.value))
          (slots.map (·.value)) := by
    induction algebraics generalizing slots with
    | nil => rfl
    | cons a algebraics ih =>
      rw [List.foldl_cons, List.foldl_cons, ih, Array.map_push, value_map_value]
  unfold slots
  rw [filled, Vector.toArray_map]

/-- The rates have the values that they have in the plain run. -/
theorem rates_map_value :
    (c.rates Dual.constant t x).map (·.value) = c.rates id t.value (x.map (·.value)) := by
  ext i hi
  simp [rates, value_map_value, slots_map_value]

end CompiledModel

end Acausal
