-- Trajectories. A trajectory holds the sampled times of a run and, for each of them, one row
-- with the value of every recorded variable.

namespace Acausal

/-- An interval of time. -/
structure TimeSpan where
  start : Float
  stop : Float

/-- What a run recorded. -/
structure Trajectory where
  model : String
  solver : String
  /-- The recorded variables. -/
  columns : List String
  times : Array Float
  /-- One row for each time, in the order of the columns. -/
  values : Array (Array Float)

namespace Trajectory

def startTime? (t : Trajectory) : Option Float := t.times[0]?

def endTime? (t : Trajectory) : Option Float := t.times.back?

/-- The column of a variable; of equal names the first has it. -/
def column? (t : Trajectory) (name : String) : Option Nat := t.columns.findIdx? (· == name)

/-- All values of a variable. -/
def series? (t : Trajectory) (name : String) : Option (Array Float) :=
  (t.column? name).map fun column => t.values.map fun row => row.getD column 0.0

/-- The last value of a variable. -/
def finalValue? (t : Trajectory) (name : String) : Option Float := do
  let column ← t.column? name
  let row ← t.values.back?
  return row.getD column 0.0

end Trajectory

end Acausal
