-- Trajectories and the runs that they record. The solver carries the state from one moment of the
-- grid to the next, and the model is observed at each of them, so a trajectory is told by the
-- carried states alone: it has one row for each moment, and the equations hold in every row.
import Acausal.Integrate
import Acausal.Proofs.EquationsHold

namespace Acausal

/-! ## Moments -/

namespace Grid

/-- The time after a number of intervals, which at first is the start of the span. -/
def moment (g : Grid) : Nat → Float
  | 0 => g.span.start
  | i + 1 => g.time (i + 1)

theorem moment_last (g : Grid) (h : 0 < g.intervals) : g.moment g.intervals = g.span.stop := by
  obtain ⟨i, hi⟩ := Nat.exists_eq_succ_of_ne_zero (Nat.ne_of_gt h)
  rw [hi]
  exact if_pos hi.symm

end Grid

/-! ## Carried states -/

namespace CompiledModel

/-- A solver with its scratch space and the state that it carries. -/
structure Carried (n : Nat) where
  stepper : Stepper n
  state : Vector Float n

variable (m : CompiledModel Float) (grid : Grid)

/-- The step over the interval that follows a number of others; a model without states takes
none. -/
def advance (passed : Nat) (before : Carried m.dimension) :
    Advance Float m.dimension (Stepper m.dimension) :=
  if m.dimension = 0 then ⟨grid.moment passed, before.state, before.stepper, none⟩
  else before.stepper.step m.flow (grid.moment passed) before.state grid.stepSize

/-- What a solver carries after a number of intervals. -/
def carried (first : Stepper m.dimension) : Nat → Carried m.dimension
  | 0 => ⟨first, m.initialState⟩
  | i + 1 =>
    let advance := m.advance grid i (carried first i)
    ⟨advance.scratch, advance.state⟩

/-- The step over an interval is completed and leads to finite numbers. -/
structure Proceeds (first : Stepper m.dimension) (i : Nat) : Prop where
  completed : (m.advance grid i (m.carried grid first i)).failure = none
  finite : ∀ v ∈ (m.carried grid first (i + 1)).state.toList, v.isFinite = true

/-- What is observed at the moments up to the end of a number of intervals. -/
def sampled (first : Stepper m.dimension) (i : Nat) : Samples where
  times := Array.ofFn fun k : Fin (i + 1) => grid.moment k
  rows := Array.ofFn fun k : Fin (i + 1) =>
    m.observe (grid.moment k) (m.carried grid first k).state

/-- The trajectory of all that is observed over a span with a method. -/
def recordedRun (span : TimeSpan) (settings : IntegratorSettings) (method : Method) : Trajectory :=
  let grid := Grid.ofSpan span settings.intervals
  let samples := m.sampled grid (.ofMethod settings method) grid.intervals
  ⟨m.name, method.token, m.recorded, samples.times, samples.rows⟩

theorem sampled_succ (first : Stepper m.dimension) (i : Nat) :
    m.sampled grid first (i + 1) = (m.sampled grid first i).push (grid.moment (i + 1))
      (m.observe (grid.moment (i + 1)) (m.carried grid first (i + 1)).state) :=
  congrArg₂ Samples.mk Array.ofFn_succ Array.ofFn_succ

variable {m grid}

/-- The search for a number that is not finite finds none. -/
theorem find?_diverged_eq_none {x : Vector Float m.dimension} :
    (m.stateNames.zip x.toList).find? (fun (_, value) => !value.isFinite) = none ↔
      ∀ v ∈ x.toList, v.isFinite = true := by
  have covers : (m.stateNames.zip x.toList).map (·.2) = x.toList :=
    List.map_snd_zip (by simp [stateNames])
  rw [List.find?_eq_none]
  constructor
  · intro none v hv
    rw [← covers] at hv
    obtain ⟨entry, listed, rfl⟩ := List.mem_map.1 hv
    simpa using none entry listed
  · rintro all ⟨name, v⟩ listed
    simpa using all v (List.of_mem_zip listed).2

/-! ## Runs -/

/-- One step of a march from what is carried so far. -/
theorem march_succ {method : Method} {left passed : Nat} {before : Carried m.dimension}
    {samples : Samples} (cut : passed + (left + 1) = grid.intervals) :
    march m method grid (left + 1) (grid.moment passed) before.stepper before.state samples =
      let advance := m.advance grid passed before
      let time := grid.moment (passed + 1)
      match advance.failure with
      | some cause => .error (.stepFailed method advance.time cause)
      | none =>
        match (m.stateNames.zip advance.state.toList).find? fun (_, value) => !value.isFinite with
        | some (name, value) => .error (.diverged time name value)
        | none =>
          march m method grid left time advance.scratch advance.state
            (samples.push time (m.observe time advance.state)) := by
  have time : grid.time (grid.intervals - left) = grid.moment (passed + 1) := by
    rw [← cut, show passed + (left + 1) - left = passed + 1 by omega]
    rfl
  rw [march, time]
  rfl

/-- A march over the intervals that are left gives the samples of all of them if every step
proceeds, and nothing else. -/
theorem march_eq_ok {method : Method} {first : Stepper m.dimension} {left passed : Nat}
    {out : Samples} (cut : passed + left = grid.intervals) :
    march m method grid left (grid.moment passed) (m.carried grid first passed).stepper
        (m.carried grid first passed).state (m.sampled grid first passed) = .ok out ↔
      (∀ i, passed ≤ i → i < grid.intervals → m.Proceeds grid first i) ∧
        m.sampled grid first grid.intervals = out := by
  induction left generalizing passed with
  | zero =>
    have done : passed = grid.intervals := cut
    subst done
    unfold march
    constructor
    · intro h
      cases h
      exact ⟨fun i _ _ => by omega, rfl⟩
    · rintro ⟨-, rfl⟩
      rfl
  | succ left ih =>
    have rest := @ih (passed + 1) (by omega)
    rw [march_succ cut]
    simp only
    cases completed : (m.advance grid passed (m.carried grid first passed)).failure with
    | some cause =>
      constructor
      · intro h
        contradiction
      · rintro ⟨proceeds, -⟩
        cases completed.symm.trans (proceeds passed (Nat.le_refl _) (by omega)).completed
    | none =>
      simp only
      cases search : (m.stateNames.zip (m.advance grid passed
          (m.carried grid first passed)).state.toList).find? fun (_, value) => !value.isFinite with
      | some entry =>
        constructor
        · intro h
          contradiction
        · rintro ⟨proceeds, -⟩
          have finite := (proceeds passed (Nat.le_refl _) (by omega)).finite
          cases search.symm.trans (find?_diverged_eq_none.2 finite)
      | none =>
        have now : m.Proceeds grid first passed :=
          ⟨completed, find?_diverged_eq_none.1 search⟩
        rw [sampled_succ] at rest
        refine rest.trans (and_congr_left fun _ => ⟨fun later i hi last => ?_, fun all i hi => ?_⟩)
        · by_cases same : i = passed
          · exact same ▸ now
          · exact later i (by omega) last
        · exact all i (by omega)

/-- The march of a run gives the samples over the whole grid if every step proceeds. -/
theorem march_start_eq_ok {span : TimeSpan} {intervals : Nat} {method : Method}
    {first : Stepper m.dimension} {out : Samples} :
    march m method (Grid.ofSpan span intervals) (Grid.ofSpan span intervals).intervals span.start
        first m.initialState ⟨#[span.start], #[m.observe span.start m.initialState]⟩ = .ok out ↔
      (∀ i < (Grid.ofSpan span intervals).intervals,
          m.Proceeds (Grid.ofSpan span intervals) first i) ∧
        m.sampled (Grid.ofSpan span intervals) first (Grid.ofSpan span intervals).intervals =
          out := by
  have runs := @march_eq_ok m (Grid.ofSpan span intervals) method first _ 0 out (Nat.zero_add _)
  have begins : m.sampled (Grid.ofSpan span intervals) first 0 =
      ⟨#[span.start], #[m.observe span.start m.initialState]⟩ := by
    unfold sampled
    rw [Array.ofFn_succ, Array.ofFn_succ]
    rfl
  rw [begins] at runs
  refine runs.trans (and_congr_left fun _ => ?_)
  exact ⟨fun all i hi => all i (Nat.zero_le i) hi, fun all i _ hi => all i hi⟩

/-- When a model runs over a span, and what comes of it: the span is finite and not reversed, and
every step of the chosen method proceeds. -/
theorem integrate_eq_ok {span : TimeSpan} {solver : String} {settings : IntegratorSettings}
    {trajectory : Trajectory} {statistics : RunStatistics} :
    m.integrate span solver settings = .ok (trajectory, statistics) ↔
      ∃ requested, Method.ofToken solver = .ok requested ∧
        (span.start.isFinite = true ∧ span.stop.isFinite = true) ∧ ¬ span.stop < span.start ∧
        let grid := Grid.ofSpan span settings.intervals
        let choice := requested.choose m.flow settings span.start m.initialState grid.stepSize
        (∀ i < grid.intervals, m.Proceeds grid (.ofMethod settings choice.1) i) ∧
          m.recordedRun span settings choice.1 = trajectory ∧
          ⟨choice.1, grid.intervals, grid.stepSize, choice.2⟩ = statistics := by
  unfold CompiledModel.integrate
  simp only [bind_eq_ok, mapError_eq_ok]
  refine exists_congr fun requested => and_congr_right fun _ => ?_
  by_cases finite : span.start.isFinite = true ∧ span.stop.isFinite = true
  · rw [if_neg (by simp [finite])]
    by_cases reversed : span.stop < span.start
    · rw [if_pos reversed]
      constructor
      · intro h
        contradiction
      · intro h
        exact absurd reversed h.2.1
    · rw [if_neg reversed]
      simp only [bind_eq_ok, pure_eq_ok, march_start_eq_ok, Prod.mk.injEq]
      constructor
      · rintro ⟨_, ⟨proceeds, rfl⟩, recorded, figures⟩
        exact ⟨finite, reversed, proceeds, recorded, figures⟩
      · rintro ⟨-, -, proceeds, recorded, figures⟩
        exact ⟨_, ⟨proceeds, rfl⟩, recorded, figures⟩
  · have infinite := not_and_or.1 finite
    rw [if_pos (by simpa using infinite)]
    constructor
    · intro h
      contradiction
    · intro h
      exact absurd h.1 finite

/-! ## Methods -/

theorem ofToken_token (method : Method) : Method.ofToken method.token = .ok method := by
  cases method <;> rfl

/-- A choice is never left open. -/
theorem choose_ne_automatic {n : Nat} (requested : Method) (flow : Flow Float n)
    (settings : IntegratorSettings) (t : Float) (x : Vector Float n) (dt : Float) :
    (requested.choose flow settings t x dt).1 ≠ .automatic := by
  cases requested with
  | automatic =>
    simp only [Method.choose]
    split
    · nofun
    · nofun
  | _ => nofun

/-- A method that is no choice is taken as it is. -/
theorem choose_of_ne_automatic {n : Nat} {method : Method} (h : method ≠ .automatic)
    (flow : Flow Float n) (settings : IntegratorSettings) (t : Float) (x : Vector Float n)
    (dt : Float) : method.choose flow settings t x dt = (method, none) := by
  cases method with
  | automatic => exact absurd rfl h
  | _ => rfl

/-- A run can be repeated with the method that it records. -/
theorem integrate_again {span : TimeSpan} {solver : String} {settings : IntegratorSettings}
    {trajectory : Trajectory} {statistics : RunStatistics}
    (h : m.integrate span solver settings = .ok (trajectory, statistics)) :
    ∃ method, method ≠ .automatic ∧ trajectory.solver = method.token ∧
      (∀ i < (Grid.ofSpan span settings.intervals).intervals,
        m.Proceeds (Grid.ofSpan span settings.intervals) (.ofMethod settings method) i) ∧
      m.recordedRun span settings method = trajectory ∧
      m.integrate span trajectory.solver settings =
        .ok (trajectory, { statistics with stiffnessRatio := none }) := by
  obtain ⟨requested, -, finite, reversed, proceeds, rfl, rfl⟩ := integrate_eq_ok.1 h
  have chosen := choose_ne_automatic requested m.flow settings span.start m.initialState
    (Grid.ofSpan span settings.intervals).stepSize
  have again := fun t x dt => choose_of_ne_automatic chosen m.flow settings t x dt
  refine ⟨_, chosen, rfl, proceeds, rfl, integrate_eq_ok.2 ⟨_, ofToken_token _, finite, reversed, ?_⟩⟩
  simp only [again]
  exact ⟨proceeds, trivial, trivial⟩

end CompiledModel

/-! ## Columns -/

namespace Trajectory

theorem column?_of_mem {t : Trajectory} {name : String} (h : name ∈ t.columns) :
    ∃ slot, t.column? name = some slot ∧ t.columns[slot]? = some name := by
  unfold column?
  cases search : t.columns.findIdx? (· == name) with
  | none =>
    rw [List.findIdx?_eq_none_iff] at search
    simpa using search name h
  | some slot =>
    obtain ⟨bound, found, -⟩ := List.findIdx?_eq_some_iff_getElem.1 search
    exact ⟨slot, rfl, List.getElem?_eq_some_iff.2 ⟨bound, by simpa using found⟩⟩

/-- Where every row is as wide as there are columns, a variable has a value in each. -/
theorem series_of_mem {t : Trajectory} {name : String} (h : name ∈ t.columns)
    (wide : ∀ row ∈ t.values, row.size = t.columns.length) :
    ∃ (slot : Nat) (column : Array Float), t.columns[slot]? = some name ∧ t.series? name = some column ∧
      column.size = t.values.size ∧
      (∀ i : Nat, column[i]? = t.values[i]?.bind fun row => row[slot]?) ∧
      t.finalValue? name = column.back? := by
  obtain ⟨slot, found, place⟩ := t.column?_of_mem h
  have inside := (List.getElem?_eq_some_iff.1 place).1
  refine ⟨slot, t.values.map fun row => row.getD slot 0.0, place, ?_, ?_, fun i => ?_, ?_⟩
  · simp [series?, found]
  · simp
  · rw [Array.getElem?_map]
    cases here : t.values[i]? with
    | none => rfl
    | some row =>
      have width := wide row (Array.mem_of_getElem? here)
      have bound : slot < row.size := by omega
      simp [Array.getD, bound]
  · unfold finalValue?
    rw [found, Array.back?_map]
    cases t.values.back? <;> rfl

end Trajectory

/-! ## The law of trajectories -/

/-- The state that the solver of a method carries after a number of steps over a span. -/
def CompiledModel.stateAt (c : CompiledModel Float) (span : TimeSpan)
    (settings : IntegratorSettings) (method : Method) (i : Nat) : Vector Float c.dimension :=
  (c.carried (Grid.ofSpan span settings.intervals) (.ofMethod settings method) i).state

/-- A trajectory has the shape of a run over a number of intervals: as many rows as moments, from
the start of the span to its end, with in each row what is observed in the carried state, and a
value in it for each variable. -/
structure CompiledModel.Records (c : CompiledModel Float) (m : FlatModel Float) (span : TimeSpan)
    (settings : IntegratorSettings) (method : Method) (n : Nat) (trajectory : Trajectory) :
    Prop where
  columns : trajectory.columns = c.stateNames ++ c.algebraicNames
  times_size : trajectory.times.size = n + 1
  rows_size : trajectory.values.size = n + 1
  first : trajectory.startTime? = some span.start
  last : 0 < n → trajectory.endTime? = some span.stop
  initial : c.stateAt span settings method 0 = c.initialState
  steps : ∀ i < n, c.Proceeds (Grid.ofSpan span settings.intervals) (.ofMethod settings method) i
  /-- Each row is observed at its time, and there the equations hold. -/
  rows : ∀ i ≤ n, ∃ t row, trajectory.times[i]? = some t ∧ trajectory.values[i]? = some row ∧
    row = c.observe t (c.stateAt span settings method i) ∧
    row.size = trajectory.columns.length ∧ c.Solves m id t (c.stateAt span settings method i)
  series : ∀ name ∈ trajectory.columns, ∃ (slot : Nat) (column : Array Float),
    trajectory.columns[slot]? = some name ∧ trajectory.series? name = some column ∧
      column.size = n + 1 ∧
      (∀ i : Nat, column[i]? = trajectory.values[i]?.bind fun row => row[slot]?) ∧
      trajectory.finalValue? name = column.back?

theorem CompiledModel.recordedRun_records {c : CompiledModel Float} {m : FlatModel Float}
    {known : Valuation Float} (assembled : m.Assembled known c) {span : TimeSpan}
    {settings : IntegratorSettings} {method : Method}
    (steps : ∀ i < (Grid.ofSpan span settings.intervals).intervals,
      c.Proceeds (Grid.ofSpan span settings.intervals) (.ofMethod settings method) i) :
    c.Records m span settings method (Grid.ofSpan span settings.intervals).intervals
      (c.recordedRun span settings method) where
  columns := rfl
  times_size := Array.size_ofFn
  rows_size := Array.size_ofFn
  first := by
    unfold Trajectory.startTime? recordedRun sampled
    rw [Array.getElem?_ofFn, dif_pos (Nat.succ_pos _)]
    rfl
  last inside := by
    unfold Trajectory.endTime? recordedRun sampled
    rw [Array.back?_eq_getElem?, Array.size_ofFn, Nat.add_sub_cancel, Array.getElem?_ofFn,
      dif_pos (Nat.lt_succ_self _), Grid.moment_last _ inside]
    rfl
  initial := rfl
  steps := steps
  rows i hi := by
    have inside := Nat.lt_succ_of_le hi
    refine ⟨(Grid.ofSpan span settings.intervals).moment i, _, ?_, ?_, rfl, size_slots _,
      assembled.solves _⟩
    · unfold recordedRun sampled
      rw [Array.getElem?_ofFn, dif_pos inside]
    · unfold recordedRun sampled
      rw [Array.getElem?_ofFn, dif_pos inside]
      rfl
  series name listed := by
    have wide : ∀ row ∈ (c.recordedRun span settings method).values,
        row.size = (c.recordedRun span settings method).columns.length := by
      intro row listed
      obtain ⟨k, rfl⟩ := Array.mem_ofFn.1 listed
      exact size_slots _
    obtain ⟨slot, column, place, series, size, entries, final⟩ :=
      Trajectory.series_of_mem listed wide
    exact ⟨slot, column, place, series, size.trans Array.size_ofFn, entries, final⟩

end Acausal
