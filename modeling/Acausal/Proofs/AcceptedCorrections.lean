-- The correction by which Newton's iteration counts as converged. Its size is the largest absolute
-- value among its components, passing over what is no number. So a component of the last
-- correction is small exactly when it is a number, and one that is not leaves no number in the
-- state either.
import Acausal.Proofs.AbandonedSteps
import Acausal.Proofs.OrderedDoubles

namespace Acausal

/-! ## Sizes -/

namespace ImplicitEuler

variable {tolerance : Float}

/-- A double that is below a tolerance in absolute value, unless it is no number. -/
def Passes (tolerance d : Float) : Prop := IsNaN d ∨ d.abs < tolerance

/-- The larger of two sizes, passing over what is no number, is below a tolerance when both are. -/
theorem larger_lt_iff {largest : Float} (number : ¬ IsNaN largest) (d : Float) :
    (if largest < d.abs then d.abs else largest) < tolerance ↔
      largest < tolerance ∧ Passes tolerance d := by
  unfold Passes
  by_cases bound : IsNaN tolerance
  · have nothing (x : Float) : ¬ x < tolerance := fun less => (not_isNaN_of_lt less).2 bound
    exact ⟨fun less => absurd less (nothing _), fun both => absurd both.1 (nothing _)⟩
  · by_cases nan : IsNaN d
    · have passed : ¬ largest < d.abs := fun less => (not_isNaN_of_lt less).2 (isNaN_abs.2 nan)
      rw [if_neg passed]
      exact ⟨fun less => ⟨less, .inl nan⟩, And.left⟩
    · have size := mt isNaN_abs.1 nan
      rw [or_iff_right nan, lt_iff_place number bound, lt_iff_place size bound]
      split
      · next less =>
        rw [lt_iff_place number size] at less
        rw [lt_iff_place size bound]
        exact ⟨fun h => ⟨less.trans h, h⟩, And.right⟩
      · next more =>
        rw [lt_iff_place number size, not_lt] at more
        rw [lt_iff_place number bound]
        exact ⟨fun h => ⟨h, more.trans_lt h⟩, And.left⟩

theorem isNaN_larger {largest : Float} (number : ¬ IsNaN largest) (d : Float) :
    ¬ IsNaN (if largest < d.abs then d.abs else largest) := by
  split
  · next less => exact (not_isNaN_of_lt less).2
  · exact number

/-- A correction is small when every component passes, and the tolerance is positive. -/
theorem size_lt_iff {n : Nat} (delta : Vector Float n) :
    size delta < tolerance ↔ 0 < tolerance ∧ ∀ i, Passes tolerance (delta.get i) := by
  have folded (ds : List Float) (largest : Float) (number : ¬ IsNaN largest) :
      ds.foldl (fun largest d => if largest < d.abs then d.abs else largest) largest < tolerance ↔
        largest < tolerance ∧ ∀ d ∈ ds, Passes tolerance d := by
    induction ds generalizing largest with
    | nil => simp
    | cons d ds ih =>
      rw [List.foldl_cons, ih _ (isNaN_larger number d), larger_lt_iff number, and_assoc,
        List.forall_mem_cons]
  refine (folded delta.toList 0 (not_isNaN_of_isZero isZero_zero)).trans
    (and_congr_right fun _ => ?_)
  constructor
  · intro all i
    exact all _ (Vector.mem_toList_iff.2 (Vector.getElem_mem i.isLt))
  · intro all d listed
    obtain ⟨i, inside, rfl⟩ := Vector.getElem_of_mem (Vector.mem_toList_iff.1 listed)
    exact all ⟨i, inside⟩

/-! ## The last correction -/

namespace Problem

variable {n : Nat}

/-- The correction that an iteration accepts: it follows corrections that were not small, and the
state behind it is the one the step leads to. -/
def Accepts (p : Problem Float n) (tolerance : Float) (limit : Nat) (scratch : Scratch Float n)
    (guess delta : Vector Float n) (a : Advance Float n (Scratch Float n)) : Prop :=
  ∃ deltas after last, p.Corrects tolerance scratch guess deltas after last ∧
    deltas.length < limit ∧ p.correction? after last = some delta ∧
    a = ⟨p.stop, corrected last delta, p.evaluated after last, none⟩

/-- An iteration that does not fail has accepted a small correction. -/
theorem Ends.accepted {p : Problem Float n} {limit left : Nat} {scratch : Scratch Float n}
    {guess : Vector Float n} {a : Advance Float n (Scratch Float n)}
    (h : p.Ends tolerance limit left scratch guess a) (made : a.failure = none) :
    ∃ delta, p.Accepts tolerance left scratch guess delta a ∧ size delta < tolerance := by
  cases h with
  | exhausted corrects count => cases made
  | singular corrects count stuck => cases made
  | converged corrects count correction small =>
    exact ⟨_, ⟨_, _, _, corrects, count, correction, rfl⟩, small⟩

theorem Accepts.get_state {p : Problem Float n} {limit : Nat} {scratch : Scratch Float n}
    {guess delta : Vector Float n} {a : Advance Float n (Scratch Float n)}
    (h : p.Accepts tolerance limit scratch guess delta a) (i : Fin n) :
    ∃ before, a.state.get i = before - delta.get i := by
  obtain ⟨_, _, last, -, -, -, rfl⟩ := h
  exact ⟨last.get i, Vector.get_ofFn _ i⟩

end Problem

end ImplicitEuler

/-- Where an implicit Euler step is made, a component of its last correction is below the tolerance
in absolute value exactly when it is a number, and where it is none the state holds no number in
that component. -/
theorem accepted_corrections_are_small_where_numbers {n : Nat} (solver : LinearSolver Float n)
    (tolerance : Float) (limit : Nat) (flow : Flow Float n)
    (scratch : ImplicitEuler.Scratch Float n) (t : Float) (x : Vector Float n) (dt : Float)
    (made : (ImplicitEuler.step solver tolerance limit flow scratch t x dt).failure = none) :
    let problem : ImplicitEuler.Problem Float n := ⟨solver, flow, t, x, dt⟩
    let a := ImplicitEuler.step solver tolerance limit flow scratch t x dt
    ∃ delta, problem.Accepts tolerance limit { scratch with slope := flow.rate t x }
        problem.prediction delta a ∧
      ∀ i, ((delta.get i).abs < tolerance ↔ (delta.get i).isNaN = false) ∧
        ((delta.get i).isNaN = true → (a.state.get i).isNaN = true) := by
  intro problem a
  obtain ⟨delta, accepted, small⟩ :=
    (ImplicitEuler.step_ends solver tolerance limit flow scratch t x dt).accepted made
  refine ⟨delta, accepted, fun i => ⟨⟨fun less => ?_, fun number => ?_⟩, fun nan => ?_⟩⟩
  · rw [Bool.eq_false_iff, ne_eq, isNaN_iff]
    exact mt isNaN_abs.2 (not_isNaN_of_lt less).1
  · rw [Bool.eq_false_iff, ne_eq, isNaN_iff] at number
    exact ((ImplicitEuler.size_lt_iff delta).1 small).2 i |>.resolve_left number
  · obtain ⟨before, state⟩ := accepted.get_state i
    rw [isNaN_iff] at nan
    rw [state, isNaN_iff]
    exact isNaN_sub (.inr nan)

/-- The equation of half a step of growth. -/
def growthProblem : ImplicitEuler.Problem Float 1 :=
  ⟨Linear.elimination, compiledGrowth.flow, 0, compiledGrowth.initialState, 0.5⟩

/-- Half a step of growth is made, and its last correction is small. -/
theorem growth_is_corrected_to_the_end :
    let a := ImplicitEuler.step Linear.elimination 1e-10 25 growthProblem.flow .fresh 0
      growthProblem.previous 0.5
    let slope := growthProblem.flow.rate 0 growthProblem.previous
    a.failure = none ∧ ∃ delta,
      growthProblem.Accepts 1e-10 25 { (.fresh : ImplicitEuler.Scratch Float 1) with slope := slope }
        growthProblem.prediction delta a ∧ (delta.get 0).abs < 1e-10 := by
  intro a slope
  have made : a.failure = none := by decide +kernel
  obtain ⟨delta, accepted, components⟩ := accepted_corrections_are_small_where_numbers
    Linear.elimination 1e-10 25 growthProblem.flow .fresh 0 growthProblem.previous 0.5 made
  refine ⟨made, delta, accepted, (components 0).1.2 ?_⟩
  have number : (a.state.get 0).isNaN = false := by decide +kernel
  exact Bool.eq_false_iff.2 fun nan => Bool.eq_false_iff.1 number ((components 0).2 nan)

/-! ## A correction that is no number -/

/-- A height below zero that changes at the rate of its root. -/
def sinking : FlatModel Float where
  name := "Sinking"
  parameters := []
  unknowns := [⟨"height", none, some (.neg (.number 1))⟩]
  equations := [⟨.der ⟨"height", none⟩, .call "sqrt" [.ref ⟨"height", none⟩]⟩]

def compiledSinking : CompiledModel Float where
  name := "Sinking"
  states := [⟨"height", -1, [.load 0, .call .sqrt]⟩]
  algebraics := []
  parameters := []

/-- The equation of one step of sinking. -/
def sinkingProblem : ImplicitEuler.Problem Float 1 :=
  ⟨Linear.elimination, compiledSinking.flow, 0, compiledSinking.initialState, 1⟩

/-- A step of sinking is made by a correction that is no number and not below the tolerance. -/
theorem sinking_is_corrected_by_no_number :
    sinking.compile "Sinking" = .ok compiledSinking ∧
      let a := ImplicitEuler.step Linear.elimination 1e-10 25 sinkingProblem.flow .fresh 0
        sinkingProblem.previous 1
      let slope := sinkingProblem.flow.rate 0 sinkingProblem.previous
      a.failure = none ∧ ∃ delta,
        sinkingProblem.Accepts 1e-10 25
          { (.fresh : ImplicitEuler.Scratch Float 1) with slope := slope }
          sinkingProblem.prediction delta a ∧
        (delta.get 0).isNaN = true ∧ ¬ (delta.get 0).abs < 1e-10 := by
  refine ⟨by with_unfolding_all rfl, ?_⟩
  intro a slope
  have made : a.failure = none := by decide +kernel
  have first : (sinkingProblem.correction?
      { (.fresh : ImplicitEuler.Scratch Float 1) with slope := slope }
      sinkingProblem.prediction).map (fun delta =>
        ((delta.get 0).isNaN, decide ((delta.get 0).abs < 1e-10),
          decide (ImplicitEuler.size delta < 1e-10))) = some (true, false, true) := by
    decide +kernel
  obtain ⟨nothing, found, reads⟩ := Option.map_eq_some_iff.1 first
  simp only [Prod.mk.injEq, decide_eq_true_iff, decide_eq_false_iff_not] at reads
  obtain ⟨delta, accepted, -⟩ := (ImplicitEuler.step_ends Linear.elimination 1e-10 25
    sinkingProblem.flow .fresh 0 sinkingProblem.previous 1).accepted made
  refine ⟨made, delta, accepted, ?_⟩
  -- the first correction counts as small, so it is the last
  obtain ⟨deltas, after, last, corrects, -, correction, -⟩ := accepted
  cases corrects with
  | none =>
    cases found.symm.trans correction
    exact ⟨reads.1, reads.2.1⟩
  | more correction large later =>
    cases found.symm.trans correction
    exact absurd reads.2.2 large

end Acausal
