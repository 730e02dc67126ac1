-- Flows by a matrix, over a field. A linear flow takes every state to its image under one matrix,
-- which is its Jacobian everywhere. A solver of linear systems is exact when it solves every system
-- whose matrix tells all vectors apart.
import Acausal.Proofs.ExactJacobians
import Acausal.Proofs.ForgottenScratch
import Acausal.Solver.Basic
import Mathlib

namespace Acausal

variable {α : Type} {n : Nat}

/-! ## Matrices on vectors -/

@[simp] theorem Matrix.entry_ofFn (f : Fin n → Fin n → α) (i j : Fin n) :
    (ofFn f).entry i j = f i j := by
  simp [ofFn, entry]

section
variable [Field α]

/-- The image of a vector under a matrix. -/
def Matrix.image (m : Matrix α n) (x : Vector α n) : Vector α n :=
  Vector.ofFn fun i => ∑ j, m.entry i j * x.get j

/-- No two vectors have the same image. -/
def Matrix.Nonsingular (m : Matrix α n) : Prop := Function.Injective m.image

/-- A solver finds the solution of every system whose matrix is not singular. -/
def LinearSolver.Exact (solver : LinearSolver α n) : Prop :=
  ∀ (m : Matrix α n) (b : Vector α n), m.Nonsingular → ∃ x, solver m b = some x ∧ m.image x = b

/-- A flow along the images of the states under a matrix. -/
structure Flow.Linear (flow : Flow α n) (m : Matrix α n) : Prop where
  rate : ∀ t x, flow.rate t x = m.image x
  jacobian : ∀ t x buffer, flow.jacobian t x buffer = m

theorem entry_iterationMatrix (m : Matrix α n) (scale : α) (i j : Fin n) :
    (iterationMatrix m scale).entry i j = (if i = j then 1 else 0) - scale * m.entry i j := by
  unfold iterationMatrix
  rw [Matrix.entry_ofFn]
  split <;> ring

end

/-! ## Tables of entries -/

theorem ext_get {x y : Vector α n} (h : x.get = y.get) : x = y := by
  ext i hi
  exact congrFun h ⟨i, hi⟩

/-- A matrix as a table of its entries. Tables are added, multiplied and applied to columns. -/
def Matrix.table (m : Matrix α n) := Matrix.of m.entry

section
variable [Field α]

theorem Matrix.get_image (m : Matrix α n) (x : Vector α n) :
    (m.image x).get = m.table.mulVec x.get := by
  funext i
  simp [image, table, Matrix.mulVec, dotProduct]

theorem Matrix.table_iterationMatrix (m : Matrix α n) (scale : α) :
    (iterationMatrix m scale).table = 1 - scale • m.table := by
  ext i j
  simp [table, entry_iterationMatrix, Matrix.one_apply]

/-- A matrix is not singular when its determinant is not zero. -/
theorem Matrix.nonsingular_iff (m : Matrix α n) : m.Nonsingular ↔ m.table.det ≠ 0 := by
  rw [← isUnit_iff_ne_zero, ← Matrix.isUnit_iff_isUnit_det, ← Matrix.mulVec_injective_iff_isUnit]
  constructor
  · intro regular x y same
    have get_ofFn (x : Fin n → α) : (Vector.ofFn x).get = x := funext (Vector.get_ofFn x)
    have images : m.image (Vector.ofFn x) = m.image (Vector.ofFn y) := by
      apply ext_get
      rw [get_image, get_image, get_ofFn, get_ofFn, same]
    rw [← get_ofFn x, ← get_ofFn y, regular images]
  · intro injective x y same
    apply ext_get
    apply injective
    simpa only [get_image] using congrArg Vector.get same

end

/-! ## One unknown -/

theorem ext_one {x y : Vector α 1} (h : x.get 0 = y.get 0) : x = y := by
  ext i hi
  obtain rfl : i = 0 := by omega
  exact h

section
variable [Field α]

@[simp] theorem Matrix.get_image_one (m : Matrix α 1) (x : Vector α 1) :
    (m.image x).get 0 = m.entry 0 0 * x.get 0 := by
  simp [image]

theorem Matrix.nonsingular_one {m : Matrix α 1} (h : m.entry 0 0 ≠ 0) : m.Nonsingular := by
  intro x y same
  have images := congrArg (fun v => v.get 0) same
  simp only [get_image_one] at images
  exact ext_one (mul_left_cancel₀ h images)

/-- What an exact solver gives for one equation in one unknown. -/
theorem LinearSolver.Exact.solve_one {solver : LinearSolver α 1} (exact : solver.Exact)
    {m : Matrix α 1} (h : m.entry 0 0 ≠ 0) (b : Vector α 1) :
    ∃ x, solver m b = some x ∧ x.get 0 = b.get 0 / m.entry 0 0 := by
  obtain ⟨x, solved, image⟩ := exact m b (Matrix.nonsingular_one h)
  refine ⟨x, solved, eq_div_of_mul_eq h ?_⟩
  rw [← image, Matrix.get_image_one, mul_comm]

end

/-! ## A weight on a spring -/

/-- A weight on a spring, by its place and its speed. -/
def oscillator : CompiledModel ℚ where
  name := "Oscillator"
  states := [⟨"place", 1, [.load 1]⟩, ⟨"speed", 0, [.load 0, .neg]⟩]
  algebraics := []
  parameters := []

/-- The matrix that turns place and speed into their rates. -/
def rotation : Matrix ℚ 2 := #v[#v[0, 1], #v[-1, 0]]

theorem oscillator_linear : letI := uncalled; oscillator.flow.Linear (n := 2) rotation := by
  let := uncalled
  refine ⟨fun t x => ?_, fun t x buffer => Matrix.ext_entry fun i j => ?_⟩
  · apply ext_get
    funext i
    rw [Matrix.image, Vector.get_ofFn, Fin.sum_univ_two]
    fin_cases i <;>
      simp [CompiledModel.flow, CompiledModel.rates, CompiledModel.slots, oscillator, Code.value,
        Code.run, Code.runOn, Instruction.run, pop, rotation, Matrix.entry, get_eq_getElem]
  · refine (entry_dualJacobian (oscillator.rates Dual.constant) t x buffer _ _).trans ?_
    fin_cases i <;> fin_cases j <;> rfl

end Acausal
