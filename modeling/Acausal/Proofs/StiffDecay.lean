-- The Rosenbrock method on exponential decay. Over an ordered field, with the coefficient of the
-- method a root of the quadratic that cancels the highest power, a step multiplies the state by
-- a rational function of rate times step size. For a negative rate the factor lies between zero
-- and one at every step size, so decay is never overshot, however stiff.
import Acausal.Proofs.Elimination
import Acausal.Solver.Rosenbrock

namespace Acausal.Rosenbrock

variable {α : Type} [Field α]

/-! ## One step -/

/-- What one step multiplies the state by, as a function of rate times step size. -/
def decayFactor (gamma z : α) : α := (1 + (1 - 2 * gamma) * z) / (1 - gamma * z) ^ 2

/-- The two stages of a step on a rate, and what they make of a state. -/
theorem stages_eq_decayFactor [CharZero α] {gamma rate dt x k1 k2 : α}
    (root : gamma ^ 2 - 2 * gamma + 1 / 2 = 0) (regular : 1 - gamma * (dt * rate) ≠ 0)
    (first : k1 = rate * x / (1 - gamma * (dt * rate)))
    (second : k2 = (rate * (x + dt * k1) - 2 * k1) / (1 - gamma * (dt * rate))) :
    x + dt * (1.5 * k1 + 0.5 * k2) = decayFactor gamma (dt * rate) * x := by
  unfold decayFactor
  generalize hz : dt * rate = z at *
  generalize hw : 1 - gamma * z = w at *
  rw [second, first]
  norm_num
  field_simp
  rw [← hz] at hw ⊢
  linear_combination (2 * x * dt ^ 2 * rate ^ 2) * root
    - 2 * x * (w + 1 - gamma * (dt * rate) + 2 * (dt * rate)) * hw

/-- A step on a linear flow of one state, where the matrix of the method is not singular. -/
theorem step_linear [CharZero α] {solver : LinearSolver α 1} (exact : solver.Exact) {gamma : α}
    (root : gamma ^ 2 - 2 * gamma + 1 / 2 = 0) {flow : Flow α 1} {rate : α}
    (linear : flow.Linear (.ofFn fun _ _ => rate)) (scratch : Scratch α 1) (t : α)
    (x : Vector α 1) {dt : α} (regular : 1 - gamma * (dt * rate) ≠ 0) :
    let a := step solver gamma flow scratch t x dt
    a.failure = none ∧ a.time = t + dt ∧
      a.state.get 0 = decayFactor gamma (dt * rate) * x.get 0 := by
  have entry : (iterationMatrix (n := 1) (.ofFn fun _ _ => rate) (gamma * dt)).entry 0 0 =
      1 - gamma * (dt * rate) := by
    rw [entry_iterationMatrix, if_pos rfl, Matrix.entry_ofFn, mul_assoc]
  have image (x : Vector α 1) :
      (Matrix.image (.ofFn fun _ _ => rate) x).get 0 = rate * x.get 0 := by
    rw [Matrix.get_image_one, Matrix.entry_ofFn]
  have solve := exact.solve_one (m := iterationMatrix (.ofFn fun _ _ => rate) (gamma * dt))
    (entry ▸ regular)
  obtain ⟨k1, found1, first⟩ := solve (flow.rate t x)
  obtain ⟨k2, found2, second⟩ := solve (Vector.ofFn fun i =>
    (flow.rate (t + dt) (Vector.ofFn fun i => x.get i + dt * k1.get i)).get i - 2.0 * k1.get i)
  unfold step
  simp only [linear.jacobian, found1, found2]
  refine ⟨trivial, trivial, ?_⟩
  rw [Vector.get_ofFn]
  simp only [entry, linear.rate, image, Vector.get_ofFn] at first second
  exact stages_eq_decayFactor root regular first (by rw [second]; norm_num)

/-! ## Many steps -/

/-- Where a solver is after a number of steps, each of its own size, with its scratch space kept
throughout. -/
def walk {n : Nat} (solver : LinearSolver α n) (gamma : α) (flow : Flow α n) (scratch : Scratch α n)
    (t : α) (x : Vector α n) (dt : Nat → α) : Nat → Advance α n (Scratch α n)
  | 0 => ⟨t, x, scratch, none⟩
  | k + 1 =>
    let a := walk solver gamma flow scratch t x dt k
    step solver gamma flow a.scratch a.time a.state (dt k)

section
variable [LinearOrder α] [IsStrictOrderedRing α] {gamma z : α}

theorem regular_of_decay (large : 1 < gamma) (decays : z < 0) : 1 < 1 - gamma * z := by
  have := mul_neg_of_pos_of_neg (zero_lt_one.trans large) decays
  linarith

theorem decayFactor_pos (large : 1 < gamma) (decays : z < 0) : 0 < decayFactor gamma z := by
  have below := regular_of_decay large decays
  have above : 0 < (1 - 2 * gamma) * z := mul_pos_of_neg_of_neg (by linarith) decays
  exact div_pos (by linarith) (pow_pos (by linarith) 2)

/-- The factor stays below one since what its numerator lacks is a negative number and a square. -/
theorem decayFactor_lt_one (large : 1 < gamma) (decays : z < 0) : decayFactor gamma z < 1 := by
  have below := regular_of_decay large decays
  have square := sq_nonneg (gamma * z)
  rw [decayFactor, div_lt_one (pow_pos (by linarith) 2)]
  calc 1 + (1 - 2 * gamma) * z = (1 - gamma * z) ^ 2 + (z - (gamma * z) ^ 2) := by ring
    _ < (1 - gamma * z) ^ 2 := by linarith

/-- Along a linear flow of one state with a negative rate, from a positive state and over steps of
any positive sizes, the Rosenbrock method never fails: every step multiplies the state by its
factor, which leaves it positive and smaller than before. -/
theorem decay_is_monotone {solver : LinearSolver α 1} (exact : solver.Exact) (large : 1 < gamma)
    (root : gamma ^ 2 - 2 * gamma + 1 / 2 = 0) {flow : Flow α 1} {rate : α} (decays : rate < 0)
    (linear : flow.Linear (.ofFn fun _ _ => rate)) (scratch : Scratch α 1) (t : α)
    {x : Vector α 1} (positive : 0 < x.get 0) {dt : Nat → α} (forward : ∀ k, 0 < dt k) (k : Nat) :
    let before := walk solver gamma flow scratch t x dt k
    let after := walk solver gamma flow scratch t x dt (k + 1)
    after.failure = none ∧ after.time = before.time + dt k ∧
      after.state.get 0 = decayFactor gamma (dt k * rate) * before.state.get 0 ∧
      0 < after.state.get 0 ∧ after.state.get 0 < before.state.get 0 := by
  intro before after
  have slower (k : Nat) : dt k * rate < 0 := mul_neg_of_pos_of_neg (forward k) decays
  have made (k : Nat) :
      (walk solver gamma flow scratch t x dt (k + 1)).failure = none ∧
      (walk solver gamma flow scratch t x dt (k + 1)).time =
        (walk solver gamma flow scratch t x dt k).time + dt k ∧
      (walk solver gamma flow scratch t x dt (k + 1)).state.get 0 =
        decayFactor gamma (dt k * rate) *
          (walk solver gamma flow scratch t x dt k).state.get 0 := by
    have regular := (zero_lt_one.trans (regular_of_decay large (slower k))).ne'
    exact step_linear exact root linear _ _ _ regular
  have stays (k : Nat) : 0 < (walk solver gamma flow scratch t x dt k).state.get 0 := by
    induction k with
    | zero => exact positive
    | succ k ih =>
      rw [(made k).2.2]
      exact mul_pos (decayFactor_pos large (slower k)) ih
  obtain ⟨completed, time, state⟩ := made k
  refine ⟨completed, time, state, stays (k + 1), ?_⟩
  calc after.state.get 0 = decayFactor gamma (dt k * rate) * before.state.get 0 := state
    _ < 1 * before.state.get 0 :=
      mul_lt_mul_of_pos_right (decayFactor_lt_one large (slower k)) (stays k)
    _ = before.state.get 0 := one_mul _

end

end Acausal.Rosenbrock

namespace Acausal

/-! ## A model that decays -/

/-- A temperature that falls at a rate of its own size. -/
def cooling {α : Type} [Field α] (rate : α) : CompiledModel α where
  name := "Cooling"
  states := [⟨"temperature", 1, [.const rate, .load 0, .operate .mul]⟩]
  algebraics := []
  parameters := []

theorem cooling_linear {α : Type} [Field α] [BEq α] [LE α] [DecidableLE α] [Elementary α]
    (rate : α) : (cooling rate).flow.Linear (n := 1) (.ofFn fun _ _ => rate) where
  rate t x := ext_one <| by
    rw [Matrix.get_image_one, Matrix.entry_ofFn]
    simp [CompiledModel.flow, CompiledModel.rates, CompiledModel.slots, cooling, Code.value,
      Code.run, Code.runOn, Instruction.run, pop, Operator.apply, get_eq_getElem]
  jacobian t x buffer := Matrix.ext_entry fun i j => by
    obtain rfl : i = 0 := Subsingleton.elim i 0
    obtain rfl : j = 0 := Subsingleton.elim j 0
    rw [Matrix.entry_ofFn]
    refine (entry_dualJacobian ((cooling rate).rates Dual.constant) t x buffer _ _).trans ?_
    change rate * 1 + 0 * x.get 0 = rate
    rw [mul_one, zero_mul, add_zero]

/-- The numbers of analysis with their functions. -/
noncomputable instance : Elementary ℝ where
  pow := (· ^ ·)
  sin := Real.sin
  cos := Real.cos
  tan := Real.tan
  exp := Real.exp
  log := Real.log
  sqrt := Real.sqrt
  abs a := |a|

/-- The larger root of the quadratic, one and half the root of two. -/
noncomputable def largerRoot : ℝ := 1 + √2 / 2

/-- A temperature that falls ten thousand times as fast as it is high goes down in every step of a
tenth, and stays positive. -/
theorem stiff_cooling_is_monotone :
    (Linear.elimination : LinearSolver ℝ 1).Exact ∧ 1 < largerRoot ∧
      largerRoot ^ 2 - 2 * largerRoot + 1 / 2 = 0 ∧
      (cooling (-10000 : ℝ)).flow.Linear (n := 1) (.ofFn fun _ _ => -10000) ∧
      ∀ k,
        let walk := Rosenbrock.walk (n := 1) Linear.elimination largerRoot
          (cooling (-10000 : ℝ)).flow .fresh 0 #v[1] fun _ => 1 / 10
        (walk (k + 1)).failure = none ∧ (walk (k + 1)).time = (walk k).time + 1 / 10 ∧
          (walk (k + 1)).state.get 0 =
            Rosenbrock.decayFactor largerRoot (1 / 10 * -10000) * (walk k).state.get 0 ∧
          0 < (walk (k + 1)).state.get 0 ∧ (walk (k + 1)).state.get 0 < (walk k).state.get 0 := by
  have square : √(2 : ℝ) ^ 2 = 2 := Real.sq_sqrt zero_le_two
  have large : 1 < largerRoot := by
    have := Real.sqrt_pos.2 (zero_lt_two (α := ℝ))
    unfold largerRoot
    linarith
  have root : largerRoot ^ 2 - 2 * largerRoot + 1 / 2 = 0 := by
    unfold largerRoot
    linear_combination square / 4
  have linear := cooling_linear (-10000 : ℝ)
  have exact : (Linear.elimination : LinearSolver ℝ 1).Exact :=
    Linear.elimination_exact fun _ => rfl
  refine ⟨exact, large, root, linear, fun k => ?_⟩
  exact Rosenbrock.decay_is_monotone exact large root (by norm_num) linear .fresh 0
    (x := #v[1]) zero_lt_one (fun _ => by norm_num) k

end Acausal
