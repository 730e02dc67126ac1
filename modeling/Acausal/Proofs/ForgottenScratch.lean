-- Scratch space that leaves no trace. Each stage of an explicit step reads only slopes that the
-- step itself has taken, a Jacobian is written over in full, and the implicit methods read
-- nothing else of what they find. So a step leads to the same time and state, or fails for the
-- same reason, whatever its scratch space holds, and a solver in use is as good as a new one.
import Mathlib.Data.Fintype.Basic
import Mathlib.Tactic.FinCases
import Acausal.Proofs.AbandonedSteps
import Acausal.Proofs.DualValues

namespace Acausal

variable {α : Type} {n s : Nat}

/-- What a caller sees of a step: where it leads, and whether it fails. -/
def Advance.seen {ω : Type} (a : Advance α n ω) : Advance α n Unit :=
  ⟨a.time, a.state, (), a.failure⟩

/-- No stage weighs its own slope or a later one. -/
def Tableau.Explicit (tableau : Tableau α s) : Prop :=
  ∀ i : Fin s, (tableau.mix.get i).length ≤ i

/-- A Jacobian is the same whatever matrix it is written over. -/
def Flow.Overwrites (flow : Flow α n) : Prop :=
  ∀ t x buffer other, flow.jacobian t x buffer = flow.jacobian t x other

/-! ## Explicit steps -/

theorem classic_explicit [Neg α] [Div α] [OfScientific α] : (classic (α := α)).Explicit := by
  intro i
  fin_cases i <;> exact Nat.le_refl _

theorem fifthOrder_explicit [Neg α] [Div α] [OfScientific α] :
    (fifthOrder (α := α)).Explicit := by
  intro i
  fin_cases i <;> exact Nat.le_refl _

namespace RungeKutta

/-- The slopes of the stages before a number are the same. -/
def Scratch.Agree (k : Nat) (a b : Scratch α n s) : Prop :=
  ∀ i (inside : i < s), i < k → a.slopes[i] = b.slopes[i]

/-- A sum weighs the slopes of the first stages, as many as it has weights. -/
theorem Scratch.Agree.zip_eq {k : Nat} {a b : Scratch α n s} (h : a.Agree k b)
    {weights : List α} (few : weights.length ≤ k) :
    weights.zip a.slopes.toList = weights.zip b.slopes.toList := by
  refine List.ext_getElem (by simp) fun i inside _ => ?_
  have both : i < weights.length ∧ i < s := by simpa [Nat.lt_min] using inside
  simp [h i both.2 (Nat.lt_of_lt_of_le both.1 few)]

variable [Zero α] [Add α] [Mul α] [Neg α]

theorem Scratch.Agree.move_eq {k : Nat} {a b : Scratch α n s} (h : a.Agree k b)
    {weights : List α} (few : weights.length ≤ k) (x : Vector α n) (dt : α) :
    move x dt weights a.slopes.toList = move x dt weights b.slopes.toList := by
  unfold move weigh
  rw [h.zip_eq few]

variable {tableau : Tableau α s} (explicit : tableau.Explicit) (flow : Flow α n) (t : α)
  (x : Vector α n) (dt : α)
include explicit

/-- A stage adds its own slope to those that are the same. -/
theorem Scratch.Agree.stage {a b : Scratch α n s} {i : Fin s} (h : a.Agree i b) :
    (stage tableau flow t x dt a i).Agree (i + 1) (stage tableau flow t x dt b i) := by
  intro j inside early
  unfold RungeKutta.stage
  rw [h.move_eq (explicit i)]
  simp only [Vector.getElem_set]
  split
  · rfl
  · next other => exact h j inside (by omega)

/-- After the first stages of a step their slopes are the same, whatever was there before. -/
theorem agree_after_stages (a b : Scratch α n s) (k : Nat) (few : k ≤ s) :
    (((List.finRange s).take k).foldl (stage tableau flow t x dt) a).Agree k
      (((List.finRange s).take k).foldl (stage tableau flow t x dt) b) := by
  induction k with
  | zero => exact fun _ _ early => absurd early (Nat.not_lt_zero _)
  | succ k ih =>
    have next : k < (List.finRange s).length := by simpa using Nat.lt_of_succ_le few
    rw [List.take_succ_eq_append_getElem next, List.foldl_append, List.foldl_append,
      List.getElem_finRange]
    exact (ih (Nat.le_of_lt few)).stage explicit flow t x dt (i := ⟨k, few⟩)

theorem seen_step (scratch other : Scratch α n s) :
    (step tableau flow scratch t x dt).seen = (step tableau flow other t x dt).seen := by
  have agree := agree_after_stages explicit flow t x dt scratch other s (Nat.le_refl s)
  rw [List.take_of_length_le (by simp)] at agree
  unfold step Advance.seen
  simp only
  rw [agree.move_eq (by simp)]

end RungeKutta

/-! ## Implicit steps -/

theorem Rosenbrock.seen_step [One α] [Add α] [Sub α] [Mul α] [Neg α] [OfScientific α]
    {flow : Flow α n} (overwrites : flow.Overwrites) (solver : LinearSolver α n) (gamma : α)
    (scratch other : Scratch α n) (t : α) (x : Vector α n) (dt : α) :
    (step solver gamma flow scratch t x dt).seen = (step solver gamma flow other t x dt).seen := by
  unfold step
  simp only [overwrites t x scratch.jacobian other.jacobian]
  split
  · rfl
  · split <;> rfl

/-- An iteration that makes a correction at all forgets its scratch space with it. -/
theorem ImplicitEuler.seen_step [Zero α] [One α] [Add α] [Sub α] [Mul α] [Neg α] [LT α]
    [DecidableLT α] [Elementary α] {flow : Flow α n} (overwrites : flow.Overwrites)
    (solver : LinearSolver α n) (tolerance : α) (limit : Nat) (scratch other : Scratch α n)
    (t : α) (x : Vector α n) (dt : α) :
    (step solver tolerance limit flow scratch t x dt).seen =
      (step solver tolerance limit flow other t x dt).seen := by
  cases limit with
  | zero => rfl
  | succ limit =>
    unfold step iterate
    simp only [overwrites _ _ scratch.jacobian other.jacobian]

/-! ## Solvers in use -/

theorem Matrix.ext_entry {m k : Matrix α n} (h : ∀ i j, m.entry i j = k.entry i j) : m = k := by
  ext i hi j hj
  exact h ⟨i, hi⟩ ⟨j, hj⟩

theorem CompiledModel.flow_overwrites [Zero α] [One α] [Add α] [Sub α] [Mul α] [Div α] [Neg α]
    [OfScientific α] [BEq α] [LE α] [DecidableLE α] [Elementary α] (c : CompiledModel α) :
    c.flow.Overwrites := by
  refine fun t x buffer other => Matrix.ext_entry fun i j => ?_
  unfold flow
  rw [entry_dualJacobian, entry_dualJacobian]

namespace Stepper

/-- The same solver with new scratch space. -/
def renewed : Stepper n → Stepper n
  | classic _ => classic .fresh
  | fifthOrder _ => fifthOrder .fresh
  | rosenbrock _ => rosenbrock .fresh
  | implicitEuler tolerance limit _ => implicitEuler tolerance limit .fresh

/-- Where a step starts and how far it goes. -/
structure Departure (n : Nat) where
  time : Float
  state : Vector Float n
  dt : Float

/-- The step of a solver from a departure. -/
def depart (flow : Flow Float n) (solver : Stepper n) (d : Departure n) :
    Advance Float n (Stepper n) :=
  solver.step flow d.time d.state d.dt

/-- What is seen of the steps of one solver from departures one after the other, its scratch space
kept from each step to the next also where a step fails. -/
def voyage (flow : Flow Float n) : Stepper n → List (Departure n) → List (Advance Float n Unit)
  | _, [] => []
  | solver, d :: later =>
    let a := solver.depart flow d
    a.seen :: voyage flow a.scratch later

variable {flow : Flow Float n} (overwrites : flow.Overwrites)

theorem renewed_depart (solver : Stepper n) (d : Departure n) :
    (solver.depart flow d).scratch.renewed = solver.renewed := by
  cases solver <;> rfl

include overwrites

theorem seen_depart (solver : Stepper n) (d : Departure n) :
    (solver.depart flow d).seen = (solver.renewed.depart flow d).seen := by
  cases solver with
  | classic scratch => exact RungeKutta.seen_step classic_explicit flow _ _ _ scratch _
  | fifthOrder scratch => exact RungeKutta.seen_step fifthOrder_explicit flow _ _ _ scratch _
  | rosenbrock scratch => exact Rosenbrock.seen_step overwrites _ _ scratch _ _ _ _
  | implicitEuler tolerance limit scratch =>
    exact ImplicitEuler.seen_step overwrites _ _ _ scratch _ _ _ _

theorem voyage_eq (solver : Stepper n) (departures : List (Departure n)) :
    solver.voyage flow departures =
      departures.map fun d => (solver.renewed.depart flow d).seen := by
  induction departures generalizing solver with
  | nil => rfl
  | cons d later ih =>
    unfold voyage
    simp only
    rw [ih, renewed_depart, seen_depart overwrites]
    rfl

end Stepper

/-- Scratch space that holds no numbers. -/
def spoiled : ImplicitEuler.Scratch Float 1 := ⟨#v[#v[0 / 0]], #v[0 / 0], #v[0 / 0]⟩

/-- A step over which the growth of a stock cannot be solved, and one over which it can. -/
def growthSteps : List (Stepper.Departure compiledGrowth.dimension) :=
  [⟨0, compiledGrowth.initialState, 1⟩, ⟨0, compiledGrowth.initialState, 0.5⟩]

end Acausal
