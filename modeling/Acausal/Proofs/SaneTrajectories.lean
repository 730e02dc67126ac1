-- Trajectories that are sane: their times are finite, in order and inside the span, and the
-- states of every row are finite. A state that a step leads away from is finite if the next one
-- is, so the rows of a run with steps are; the times are in order exactly when the last moment
-- before the end is not thrown out of the span by rounding.
import Acausal.Proofs.GridMoments
import Acausal.Proofs.AbandonedSteps

namespace Acausal

/-- What a trajectory of a number of states promises about its numbers. -/
structure Trajectory.Sane (trajectory : Trajectory) (span : TimeSpan) (states : Nat) : Prop where
  within : ∀ t ∈ trajectory.times, t.isFinite = true ∧ span.start ≤ t ∧ t ≤ span.stop
  order : trajectory.times.toList.Pairwise (· ≤ ·)
  finite : ∀ row ∈ trajectory.values, ∀ i < states, ∃ v, row[i]? = some v ∧ v.isFinite = true

/-! ## Finite states -/

/-- Every component of a state is finite. -/
def FiniteState {n : Nat} (x : Vector Float n) : Prop := ∀ i, (x.get i).isFinite = true

variable {n : Nat} {flow : Flow Float n} {t : Float} {x : Vector Float n} {dt : Float}

theorem finiteState_iff : FiniteState x ↔ ∀ v ∈ x.toList, v.isFinite = true := by
  constructor
  · intro all v listed
    obtain ⟨i, inside, rfl⟩ := Vector.getElem_of_mem (Vector.mem_toList_iff.1 listed)
    exact all ⟨i, inside⟩
  · intro all i
    exact all _ (Vector.mem_toList_iff.2 (Vector.getElem_mem i.isLt))

/-- A sum of states is finite only if the first of them is. -/
theorem FiniteState.of_ofFn_add {other : Fin n → Float}
    (h : FiniteState (Vector.ofFn fun i => x.get i + other i)) : FiniteState x := by
  intro i
  have sum := h i
  rw [Vector.get_ofFn] at sum
  exact (isFinite_of_add sum).1

namespace ImplicitEuler

theorem finite_of_corrected {guess delta : Vector Float n}
    (h : FiniteState (corrected guess delta)) : FiniteState guess := by
  intro i
  have difference := h i
  rw [corrected, Vector.get_ofFn] at difference
  exact (isFinite_of_sub difference).1

theorem finite_of_corrections {deltas : List (Vector Float n)} {guess : Vector Float n}
    (h : FiniteState (deltas.foldl corrected guess)) : FiniteState guess := by
  induction deltas generalizing guess with
  | nil => exact h
  | cons delta deltas ih => exact finite_of_corrected (ih h)

/-- However an iteration ends, a finite state comes of a finite guess. -/
theorem Problem.Ends.finite_guess {p : Problem Float n} {tolerance : Float} {limit left : Nat}
    {scratch : Scratch Float n} {guess : Vector Float n} {a : Advance Float n (Scratch Float n)}
    (h : p.Ends tolerance limit left scratch guess a) (finite : FiniteState a.state) :
    FiniteState guess := by
  cases h with
  | exhausted corrects made => exact finite_of_corrections (corrects.guess_eq ▸ finite)
  | singular corrects made stuck => exact finite_of_corrections (corrects.guess_eq ▸ finite)
  | converged corrects made correction small =>
    exact finite_of_corrections (corrects.guess_eq ▸ finite_of_corrected finite)

end ImplicitEuler

theorem Rosenbrock.finite_of_step {solver : LinearSolver Float n} {gamma : Float}
    {scratch : Scratch Float n} (h : FiniteState (step solver gamma flow scratch t x dt).state) :
    FiniteState x := by
  unfold step at h
  simp only at h
  split at h
  · exact h
  · split at h
    · exact h
    · exact h.of_ofFn_add

/-- A finite state comes of a finite state, whatever solver leads to it. -/
theorem Stepper.finite_of_step {stepper : Stepper n}
    (h : FiniteState (stepper.step flow t x dt).state) : FiniteState x := by
  cases stepper with
  | classic scratch => exact h.of_ofFn_add
  | fifthOrder scratch => exact h.of_ofFn_add
  | rosenbrock scratch => exact Rosenbrock.finite_of_step h
  | implicitEuler tolerance limit scratch =>
    have ends := ImplicitEuler.step_ends Linear.elimination tolerance limit flow scratch t x dt
    exact (ends.finite_guess h).of_ofFn_add

/-! ## Rows -/

namespace CompiledModel

variable {m : CompiledModel Float} {grid : Grid} {first : Stepper m.dimension}

theorem finite_of_carried {i : Nat} (h : FiniteState (m.carried grid first (i + 1)).state) :
    FiniteState (m.carried grid first i).state := by
  change FiniteState (m.advance grid i (m.carried grid first i)).state at h
  unfold advance at h
  split at h
  · exact h
  · exact Stepper.finite_of_step h

/-- In a run with steps every carried state is finite. -/
theorem carried_finite (steps : ∀ i < grid.intervals, m.Proceeds grid first i)
    (begins : grid.intervals = 0 → FiniteState m.initialState) {i : Nat} (le : i ≤ grid.intervals) :
    FiniteState (m.carried grid first i).state := by
  cases i with
  | succ i => exact finiteState_iff.2 (steps i le).finite
  | zero =>
    obtain none | some := Nat.eq_zero_or_pos grid.intervals
    · exact begins none
    · exact finite_of_carried (finiteState_iff.2 (steps 0 some).finite)

/-- The states of a row are those it is observed in. -/
theorem getElem?_observe (t : Float) (x : Vector Float m.dimension) (i : Fin m.dimension) :
    (m.observe t x)[i.val]? = some (x.get i) := by
  have inside : i.val < x.toArray.size := by simp
  refine (getElem?_fill inside).trans ?_
  rw [Array.getElem?_eq_getElem inside]
  rfl

theorem observe_finite_iff {t : Float} {x : Vector Float m.dimension} :
    (∀ i < m.dimension, ∃ v, (m.observe t x)[i]? = some v ∧ v.isFinite = true) ↔ FiniteState x := by
  constructor
  · intro all i
    obtain ⟨v, found, finite⟩ := all i i.isLt
    rw [getElem?_observe, Option.some.injEq] at found
    exact found ▸ finite
  · intro finite i inside
    exact ⟨_, getElem?_observe t x ⟨i, inside⟩, finite _⟩

/-! ## Runs -/

/-- A run is sane when its moments fit into the span, and its only state is finite if it takes no
steps. -/
theorem recordedRun_sane_iff {span : TimeSpan} {settings : IntegratorSettings} {method : Method}
    (proper : (Grid.ofSpan span settings.intervals).Proper)
    (steps : ∀ i < (Grid.ofSpan span settings.intervals).intervals,
      m.Proceeds (Grid.ofSpan span settings.intervals) (.ofMethod settings method) i) :
    (m.recordedRun span settings method).Sane span m.dimension ↔
      ((Grid.ofSpan span settings.intervals).intervals = 0 → FiniteState m.initialState) ∧
        (Grid.ofSpan span settings.intervals).Fits := by
  unfold recordedRun sampled
  have span_eq : (Grid.ofSpan span settings.intervals).span = span := rfl
  generalize Grid.ofSpan span settings.intervals = grid at *
  subst span_eq
  constructor
  · intro sane
    constructor
    · intro none
      exact observe_finite_iff.1 (sane.finite _ (Array.mem_ofFn.2 ⟨0, rfl⟩))
    · have inside : grid.intervals - 1 < grid.intervals + 1 := by omega
      have last := sane.within _ (Array.mem_ofFn.2 ⟨⟨grid.intervals - 1, inside⟩, rfl⟩)
      exact ⟨last.1, last.2.2⟩
  · rintro ⟨begins, fits⟩
    have ordered := Grid.ordered_of_fits proper fits
    constructor
    · intro t listed
      obtain ⟨k, rfl⟩ := Array.mem_ofFn.1 listed
      exact ordered.within k (Nat.lt_succ_iff.1 k.isLt)
    · rw [Array.toList_ofFn, List.pairwise_ofFn]
      intro k j less
      exact ordered.order k j less.le (Nat.lt_succ_iff.1 j.isLt)
    · intro row listed
      obtain ⟨k, rfl⟩ := Array.mem_ofFn.1 listed
      exact observe_finite_iff.2 (carried_finite steps begins (Nat.lt_succ_iff.1 k.isLt))

end CompiledModel

/-- A level that does not change. -/
def level : FlatModel Float where
  name := "Level"
  parameters := []
  unknowns := [⟨"y", none, none⟩]
  equations := [⟨.ref ⟨"y", none⟩, .number 1⟩]

def compiledLevel : CompiledModel Float where
  name := "Level"
  states := []
  algebraics := [⟨"y", [.const 1]⟩]
  parameters := []

/-- A state that starts at the pole of a quotient and stays there. -/
def pole : FlatModel Float where
  name := "Pole"
  parameters := []
  unknowns := [⟨"x", none, some (.binary (.number 1) .div (.number 0))⟩]
  equations := [⟨.der ⟨"x", none⟩, .number 0⟩]

def compiledPole : CompiledModel Float where
  name := "Pole"
  states := [⟨"x", 1 / 0, [.const 0]⟩]
  algebraics := []
  parameters := []

end Acausal
