-- Implicit Euler steps along linear flows, over an ordered field. The equation of such a step is
-- linear and its matrix is the one that corrections are found with, so the first correction leads
-- to the solution from wherever it starts, and what a second one corrects is nothing.
import Acausal.Proofs.Elimination
import Acausal.Proofs.NewtonIteration

namespace Acausal.ImplicitEuler

variable {α : Type} {n : Nat} [Field α]

/-! ## Corrections -/

theorem get_corrected (guess delta : Vector α n) :
    (corrected guess delta).get = guess.get - delta.get :=
  funext fun i => Vector.get_ofFn _ i

/-- Less what it misses a state by, a guess is that state. -/
theorem corrected_corrected (guess s : Vector α n) : corrected guess (corrected guess s) = s := by
  apply ext_get
  rw [get_corrected, get_corrected, sub_sub_cancel]

namespace Problem

variable {p : Problem α n} {m : Matrix α n} {s : Vector α n}

/-- The equation of a step is linear: what a guess misses it by is the image of what the guess
misses a solution by. -/
theorem residual_eq (linear : p.flow.Linear m)
    (solves : (1 - p.dt • m.table).mulVec s.get = p.previous.get) (scratch : Scratch α n)
    (guess : Vector α n) :
    (p.evaluated scratch guess).residual = (iterationMatrix m p.dt).image (corrected guess s) := by
  apply ext_get
  rw [Matrix.get_image, Matrix.table_iterationMatrix, get_corrected, Matrix.mulVec_sub, solves,
    Matrix.sub_mulVec, Matrix.one_mulVec, Matrix.smul_mulVec, ← Matrix.get_image]
  funext i
  simp only [evaluated, linear.rate, Vector.get_ofFn, Pi.sub_apply, Pi.smul_apply, smul_eq_mul]
  ring

/-- Every guess is corrected to the solution. -/
theorem correction?_eq (exact : p.solver.Exact) (linear : p.flow.Linear m)
    (regular : (1 - p.dt • m.table).det ≠ 0)
    (solves : (1 - p.dt • m.table).mulVec s.get = p.previous.get) (scratch : Scratch α n)
    (guess : Vector α n) : p.correction? scratch guess = some (corrected guess s) := by
  have nonsingular : (iterationMatrix m p.dt).Nonsingular := by
    rw [Matrix.nonsingular_iff, Matrix.table_iterationMatrix]
    exact regular
  obtain ⟨delta, solved, image⟩ := exact _ (p.evaluated scratch guess).residual nonsingular
  rw [residual_eq linear solves] at image
  unfold correction?
  simp only
  rw [show (p.evaluated scratch guess).jacobian = m from linear.jacobian _ _ _, solved,
    nonsingular image]

end Problem

/-! ## Steps -/

variable [LinearOrder α] [IsStrictOrderedRing α] [Elementary α]

/-- A correction of nothing has no size. -/
theorem size_self (absolute : ∀ a : α, Elementary.abs a = |a|) (s : Vector α n) :
    size (corrected s s) = 0 := by
  have nothing : corrected s s = .replicate n 0 := by
    apply ext_get
    rw [get_corrected, sub_self]
    exact funext fun i => (Vector.getElem_replicate i.isLt).symm
  have still (k : Nat) : (List.replicate k (0 : α)).foldl (fun largest d =>
      if largest < Elementary.abs d then Elementary.abs d else largest) 0 = 0 := by
    induction k with
    | zero => rfl
    | succ k ih =>
      rw [List.replicate_succ, List.foldl_cons, absolute, abs_zero, if_neg (lt_irrefl 0), ih]
  unfold size
  rw [nothing, Vector.toList_replicate, still]

namespace Problem

variable {p : Problem α n} {m : Matrix α n} {s : Vector α n} {tolerance : α}

/-- A guess that has been corrected once is the solution, so a second correction is small. -/
theorem Corrects.length_le_one (absolute : ∀ a : α, Elementary.abs a = |a|)
    (exact : p.solver.Exact) (linear : p.flow.Linear m) (regular : (1 - p.dt • m.table).det ≠ 0)
    (solves : (1 - p.dt • m.table).mulVec s.get = p.previous.get) (positive : 0 < tolerance)
    {scratch after : Scratch α n} {guess last : Vector α n} {deltas : List (Vector α n)}
    (h : p.Corrects tolerance scratch guess deltas after last) : deltas.length ≤ 1 := by
  have found := correction?_eq exact linear regular solves
  cases h with
  | none => exact Nat.zero_le 1
  | more first _ later =>
    cases later with
    | none => exact Nat.le_refl 1
    | more second large _ =>
      rw [found] at first
      cases first
      rw [corrected_corrected, found] at second
      cases second
      rw [size_self absolute] at large
      exact absurd positive large

end Problem

/-- Along a linear flow, where the unit matrix less the matrix of the flow over the step is not
singular, a step with a positive tolerance and at least two corrections is made, and leads to the
one state whose slope leads back to the start. -/
theorem linear_steps_are_solved (absolute : ∀ a : α, Elementary.abs a = |a|)
    {solver : LinearSolver α n} (exact : solver.Exact) {flow : Flow α n} {m : Matrix α n}
    (linear : flow.Linear m) (scratch : Scratch α n) (t : α) (x : Vector α n) {dt : α}
    (regular : (1 - dt • m.table).det ≠ 0) {tolerance : α} (positive : 0 < tolerance)
    {limit : Nat} (enough : 2 ≤ limit) :
    let a := step solver tolerance limit flow scratch t x dt
    a.failure = none ∧ a.time = t + dt ∧
      ∀ s : Vector α n, (1 - dt • m.table).mulVec s.get = x.get ↔ s = a.state := by
  have nonsingular : (iterationMatrix m dt).Nonsingular := by
    rw [Matrix.nonsingular_iff, Matrix.table_iterationMatrix]
    exact regular
  obtain ⟨s, -, image⟩ := exact (iterationMatrix m dt) x nonsingular
  have solves : (1 - dt • m.table).mulVec s.get = x.get := by
    rw [← Matrix.table_iterationMatrix, ← Matrix.get_image, image]
  have found := Problem.correction?_eq (p := ⟨solver, flow, t, x, dt⟩) exact linear regular solves
  have ends := step_ends solver tolerance limit flow scratch t x dt
  generalize step solver tolerance limit flow scratch t x dt = a at ends
  cases ends with
  | exhausted corrects made =>
    have := corrects.length_le_one absolute exact linear regular solves positive
    omega
  | singular corrects made stuck =>
    rw [found] at stuck
    cases stuck
  | converged corrects made correction small =>
    rw [found] at correction
    cases correction
    refine ⟨rfl, rfl, fun other => ?_⟩
    rw [corrected_corrected]
    constructor
    · intro too
      apply nonsingular
      rw [image]
      apply ext_get
      rw [Matrix.get_image, Matrix.table_iterationMatrix, too]
    · rintro rfl
      exact solves

/-- Over half a unit of time, the weight on a spring goes to where it is led back from. -/
theorem oscillator_is_led_back :
    letI := uncalled
    (∀ a : ℚ, Elementary.abs a = |a|) ∧ (Linear.elimination : LinearSolver ℚ 2).Exact ∧
      oscillator.flow.Linear (n := 2) rotation ∧
      (1 - (1 / 2 : ℚ) • rotation.table).det ≠ 0 ∧
      let a := step (n := 2) Linear.elimination (1 / 1000) 2 oscillator.flow .fresh 0 #v[1, 0]
        (1 / 2)
      a.failure = none ∧ a.time = 1 / 2 ∧ a.state = #v[4 / 5, -2 / 5] := by
  let := uncalled
  have absolute (a : ℚ) : Elementary.abs a = |a| := rfl
  have exact : (Linear.elimination : LinearSolver ℚ 2).Exact := Linear.elimination_exact absolute
  have regular : (1 - (1 / 2 : ℚ) • rotation.table).det ≠ 0 := by
    simp [Matrix.det_fin_two, Matrix.table, rotation, Matrix.entry]
    norm_num
  have positive : (0 : ℚ) < 1 / 1000 := by norm_num
  obtain ⟨made, time, state⟩ := linear_steps_are_solved absolute exact oscillator_linear .fresh 0
    #v[1, 0] regular positive (Nat.le_refl 2)
  refine ⟨absolute, exact, oscillator_linear, regular, made, time.trans (zero_add _), ?_⟩
  symm
  apply (state _).1
  funext i
  fin_cases i <;>
    simp [Matrix.table, Matrix.mulVec, rotation, Matrix.entry, Fin.sum_univ_two, dotProduct,
      Vector.get] <;>
    norm_num

end Acausal.ImplicitEuler
