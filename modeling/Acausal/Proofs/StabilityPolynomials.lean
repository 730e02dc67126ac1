-- Explicit steps along linear flows. The state that a stage probes is the image of the step's start
-- under a polynomial in the matrix of the flow over the step, and so is the state that the step
-- leads to. The polynomials belong to the tableau; the stages only evaluate them.
import Acausal.Proofs.Elimination
import Acausal.Solver.RungeKutta

open Polynomial

namespace Acausal

variable {α : Type} [Field α] {n s : Nat}

/-! ## Polynomials of a tableau -/

/-- A weighted sum of the first polynomials, as many as there are weights. -/
noncomputable def mixed (weights : List α) (growths : List α[X]) : α[X] :=
  ((weights.zip growths).map fun (weight, growth) => C weight * growth).sum

theorem mixed_cons (weight : α) (weights : List α) (growth : α[X]) (growths : List α[X]) :
    mixed (weight :: weights) (growth :: growths) = C weight * growth + mixed weights growths :=
  rfl

namespace Tableau

variable (tableau : Tableau α s)

/-- The polynomials whose images of the start the first stages probe. -/
noncomputable def probes (k : Nat) : List α[X] :=
  (tableau.mix.toList.take k).foldl (fun before row => before ++ [1 + X * mixed row before]) []

/-- The polynomial whose image of the start is where a step leads. -/
noncomputable def stability : α[X] := 1 + X * mixed tableau.weights.toList (tableau.probes s)

theorem probes_succ (i : Fin s) : tableau.probes (i + 1) =
    tableau.probes i ++ [1 + X * mixed (tableau.mix.get i) (tableau.probes i)] := by
  have inside : (i : Nat) < tableau.mix.toList.length := by simp
  unfold probes
  rw [List.take_succ_eq_append_getElem inside, List.foldl_append, Vector.getElem_toList]
  rfl

end Tableau

/-- The coefficients of the classic method as fractions. -/
theorem classic_eq [CharZero α] : (classic : Tableau α 4) =
    { mix := #v[[], [1 / 2], [0, 1 / 2], [0, 0, 1]]
      weights := #v[1 / 6, 1 / 3, 1 / 3, 1 / 6]
      nodes := #v[0, 1 / 2, 1 / 2, 1] } := by
  have zero : (0.0 : α) = 0 := by norm_num
  have half : (0.5 : α) = 1 / 2 := by norm_num
  have one : (1.0 : α) = 1 := by norm_num
  have three : (3.0 : α) = 3 := by norm_num
  have six : (6.0 : α) = 6 := by norm_num
  rw [classic, zero, half, one, three, six]

/-- The classic method has the first terms of the exponential series. -/
theorem stability_classic [CharZero α] : (classic : Tableau α 4).stability =
    1 + X + C (1 / 2) * X ^ 2 + C (1 / 6) * X ^ 3 + C (1 / 24) * X ^ 4 := by
  refine Polynomial.funext fun r => ?_
  simp [Tableau.stability, Tableau.probes, mixed, classic_eq]
  ring

namespace RungeKutta

/-! ## Slopes along a linear flow -/

/-- A slope taken at the image of the start under a polynomial. -/
def Grows (m : Matrix α n) (x : Vector α n) (dt : α) (slope : Vector α n) (growth : α[X]) : Prop :=
  slope.get = m.table.mulVec ((aeval (dt • m.table) growth).mulVec x.get)

variable {m : Matrix α n} {x : Vector α n} {dt : α}

theorem weigh_eq_sum (weights : List α) (slopes : List (Vector α n)) (i : Fin n) :
    weigh weights slopes i =
      ((weights.zip slopes).map fun (weight, slope) => weight * slope.get i).sum := by
  rw [weigh, neg_zero, List.sum_eq_foldl, List.foldl_map]

theorem weigh_cons (weight : α) (weights : List α) (slope : Vector α n)
    (slopes : List (Vector α n)) :
    weigh (weight :: weights) (slope :: slopes) = weight • slope.get + weigh weights slopes := by
  funext i
  simp [weigh_eq_sum]

/-- A sum reads no more slopes than it has weights. -/
theorem weigh_take {weights : List α} {k : Nat} (few : weights.length ≤ k)
    (slopes : List (Vector α n)) : weigh weights (slopes.take k) = weigh weights slopes := by
  have firsts : (weights.zip slopes).take k = weights.zip slopes :=
    List.take_of_length_le (by rw [List.length_zip]; omega)
  rw [List.zip, List.take_zipWith, List.take_of_length_le few] at firsts
  funext i
  rw [weigh, List.zip, firsts]
  rfl

/-- A weighted sum of slopes is the slope at the weighted sum of their polynomials. -/
theorem weigh_eq {slopes : List (Vector α n)} {growths : List α[X]}
    (grown : List.Forall₂ (Grows m x dt) slopes growths) (weights : List α) :
    weigh weights slopes =
      m.table.mulVec ((aeval (dt • m.table) (mixed weights growths)).mulVec x.get) := by
  induction grown generalizing weights with
  | nil =>
    funext i
    simp [weigh, mixed]
  | @cons slope growth slopes growths first _ ih =>
    cases weights with
    | nil =>
      funext i
      simp [weigh, mixed]
    | cons weight weights =>
      rw [weigh_cons, ih, first, mixed_cons, map_add, map_mul, aeval_C, Matrix.add_mulVec,
        Matrix.mulVec_add, Algebra.algebraMap_eq_smul_one, smul_one_mul, Matrix.smul_mulVec,
        Matrix.mulVec_smul]

theorem get_move {slopes : List (Vector α n)} {growths : List α[X]}
    (grown : List.Forall₂ (Grows m x dt) slopes growths) (weights : List α) :
    (move x dt weights slopes).get =
      (aeval (dt • m.table) (1 + X * mixed weights growths)).mulVec x.get := by
  funext i
  rw [move, Vector.get_ofFn, weigh_eq grown]
  simp [Matrix.add_mulVec, Matrix.smul_mulVec]

/-- The slopes of the first stages have the polynomials of the tableau. -/
def Grown (tableau : Tableau α s) (m : Matrix α n) (x : Vector α n) (dt : α) (k : Nat)
    (scratch : Scratch α n s) : Prop :=
  List.Forall₂ (Grows m x dt) (scratch.slopes.toList.take k) (tableau.probes k)

section
variable {tableau : Tableau α s} (explicit : tableau.Explicit) {flow : Flow α n}
  (linear : ∀ t x, flow.rate t x = m.image x) (t : α)
include explicit linear

theorem Grown.stage {scratch : Scratch α n s} {i : Fin s} (h : Grown tableau m x dt i scratch) :
    Grown tableau m x dt (i + 1) (stage tableau flow t x dt scratch i) := by
  have probed : Grows m x dt (flow.rate (t + tableau.nodes.get i * dt)
      (move x dt (tableau.mix.get i) scratch.slopes.toList))
      (1 + X * mixed (tableau.mix.get i) (tableau.probes i)) := by
    have firsts : move x dt (tableau.mix.get i) (scratch.slopes.toList.take i) =
        move x dt (tableau.mix.get i) scratch.slopes.toList := by
      rw [move, weigh_take (explicit i)]
      rfl
    rw [Grows, linear, Matrix.get_image, ← firsts, get_move h]
  have slopes (slope : Vector α n) : (scratch.slopes.set i slope i.isLt).toList.take (i + 1) =
      scratch.slopes.toList.take i ++ [slope] := by
    have inside : (i : Nat) < (scratch.slopes.toList.set i slope).length := by simp
    rw [Vector.toList_set, List.take_succ_eq_append_getElem inside, List.getElem_set_self,
      List.take_set_of_le (Nat.le_refl i)]
  unfold Grown RungeKutta.stage
  rw [Tableau.probes_succ, slopes]
  exact List.rel_append h (.cons probed .nil)

/-- A step leads to the image of its start under the polynomial of the tableau. -/
theorem get_step (scratch : Scratch α n s) :
    (step tableau flow scratch t x dt).state.get =
      (aeval (dt • m.table) tableau.stability).mulVec x.get := by
  have grown : Grown tableau m x dt s
      ((List.finRange s).foldl (RungeKutta.stage tableau flow t x dt) scratch) :=
    foldl_finRange List.Forall₂.nil fun i scratch h => h.stage explicit linear t
  unfold Grown at grown
  rw [List.take_of_length_le (by simp)] at grown
  exact get_move grown tableau.weights.toList

end

/-- Along a linear flow a step of the classic method is made, and leads to the image of its start
under the first terms of the exponential series of the matrix of the flow over the step. -/
theorem classic_steps_are_taylor [CharZero α] {flow : Flow α n}
    (linear : ∀ t x, flow.rate t x = m.image x) (scratch : Scratch α n 4) (t : α) (x : Vector α n)
    (dt : α) :
    let a := step classic flow scratch t x dt
    let b := dt • m.table
    a.failure = none ∧ a.time = t + dt ∧
      a.state.get = (1 + b + (1 / 2 : α) • b ^ 2 + (1 / 6 : α) • b ^ 3 +
        (1 / 24 : α) • b ^ 4).mulVec x.get := by
  refine ⟨rfl, rfl, ?_⟩
  rw [get_step classic_explicit linear, stability_classic]
  congr 1
  simp only [map_add, map_mul, map_pow, map_one, aeval_X, aeval_C,
    Algebra.algebraMap_eq_smul_one, smul_one_mul]

/-- Over one unit of time the weight on a spring goes by the series of the cosine and the sine. -/
theorem oscillator_turns :
    letI := uncalled
    (∀ t x, oscillator.flow.rate t x = rotation.image x) ∧
      let a := step (n := 2) classic oscillator.flow .fresh 0 #v[1, 0] 1
      a.failure = none ∧ a.time = 1 ∧ a.state = #v[1 - 1 / 2 + 1 / 24, -1 + 1 / 6] := by
  let := uncalled
  have linear := oscillator_linear.rate
  obtain ⟨made, time, state⟩ := classic_steps_are_taylor linear .fresh 0 #v[1, 0] 1
  refine ⟨linear, made, time.trans (zero_add _), ext_get (state.trans ?_)⟩
  have table : rotation.table = !![0, 1; -1, 0] := by
    ext i j
    fin_cases i <;> fin_cases j <;> rfl
  have square : rotation.table ^ 2 = -1 := by
    rw [table, pow_two, Matrix.mul_fin_two, Matrix.one_fin_two]
    ext i j
    fin_cases i <;> fin_cases j <;> simp
  have cube : rotation.table ^ 3 = -rotation.table := by rw [pow_succ, square, neg_one_mul]
  have fourth : rotation.table ^ 4 = 1 := by rw [pow_mul _ 2 2, square, neg_one_sq]
  rw [one_smul, square, cube, fourth, table]
  funext i
  fin_cases i <;>
    simp [Matrix.mulVec, dotProduct, Fin.sum_univ_two, Vector.get]
  norm_num

end RungeKutta

end Acausal
