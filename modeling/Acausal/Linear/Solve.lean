-- Linear systems by elimination. A matrix is brought to triangular form with the largest pivot
-- of each column, and solved by substitution forwards and backwards; there is no solution
-- exactly when a diagonal entry of the triangular form is zero.
import Acausal.Flow

namespace Acausal

/-- A way to solve linear systems of `n` unknowns. -/
abbrev LinearSolver (α : Type) (n : Nat) := Matrix α n → Vector α n → Option (Vector α n)

namespace Linear

variable {α : Type} {n : Nat} [Zero α] [One α] [Sub α] [Mul α] [Div α] [BEq α] [LT α]
  [DecidableLT α] [Elementary α]

/-! ## Elimination -/

/-- Both triangular factors in one matrix, with the row exchanges that led to it. -/
structure Factors (α : Type) (n : Nat) where
  matrix : Matrix α n
  exchanges : List (Fin n × Fin n)

/-- The row at or below the diagonal with the largest entry in a column; of equal ones the
first. -/
def pivotRow (m : Matrix α n) (column : Fin n) : Fin n :=
  (List.finRange n).foldl (fun best row =>
    let largest := Elementary.abs (m.entry best column)
    if column < row ∧ largest < Elementary.abs (m.entry row column) then row else best) column

/-- Clears a column below the diagonal and keeps the multipliers in its place. -/
def clear (m : Matrix α n) (column : Fin n) : Matrix α n :=
  let inverse := 1 / m.entry column column
  Matrix.ofFn fun row k =>
    if column < row then
      let multiplier := m.entry row column * inverse
      if k = column then multiplier
      else if column < k then m.entry row k - m.entry column k * multiplier
      else m.entry row k
    else m.entry row k

/-- One column of the elimination. A column without a pivot is left as it is. -/
def eliminate (f : Factors α n) (column : Fin n) : Factors α n :=
  let pivot := pivotRow f.matrix column
  if f.matrix.entry pivot column == 0 then f
  else
    { matrix := clear (f.matrix.swap column pivot column.isLt pivot.isLt) column
      exchanges := f.exchanges ++ [(column, pivot)] }

/-- The triangular form of a matrix. -/
def factor (m : Matrix α n) : Factors α n := (List.finRange n).foldl eliminate ⟨m, []⟩

/-! ## Substitution -/

/-- Takes the known entry of a row out of the rows below it. -/
def forward (m : Matrix α n) (b : Vector α n) (i : Fin n) : Vector α n :=
  Vector.ofFn fun row => if i < row then b.get row - b.get i * m.entry row i else b.get row

/-- Finds the entry of a row and takes it out of the rows above it. -/
def backward (m : Matrix α n) (b : Vector α n) (i : Fin n) : Option (Vector α n) :=
  if m.entry i i == 0 then none
  else
    let entry := b.get i / m.entry i i
    some (Vector.ofFn fun row =>
      if row = i then entry
      else if row < i then b.get row - entry * m.entry row i
      else b.get row)

/-- The solution of a factored system. -/
def Factors.solve (f : Factors α n) (b : Vector α n) : Option (Vector α n) :=
  let exchanged := f.exchanges.foldl (fun b (i, j) => b.swap i j i.isLt j.isLt) b
  let lower := (List.finRange n).foldl (forward f.matrix) exchanged
  (List.finRange n).reverse.foldlM (backward f.matrix) lower

/-- Elimination as a way to solve linear systems. -/
def elimination : LinearSolver α n := fun m b => (factor m).solve b

end Linear

end Acausal
