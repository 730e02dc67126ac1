-- Flows. A flow gives the rate of change of a state at every time, and the matrix of its
-- partial derivatives, which is found by running the flow over dual numbers, one direction of
-- the state at a time.
import Acausal.Dual

namespace Acausal

/-! ## States and matrices -/

/-- A square matrix by rows. -/
abbrev Matrix (α : Type) (n : Nat) := Vector (Vector α n) n

namespace Matrix

variable {α : Type} {n : Nat}

/-- The entry in a row and a column. -/
def entry (m : Matrix α n) (i j : Fin n) : α := (m.get i).get j

def ofFn (entry : Fin n → Fin n → α) : Matrix α n :=
  Vector.ofFn fun i => Vector.ofFn fun j => entry i j

/-- The matrix with one column written over. -/
def setColumn (m : Matrix α n) (j : Fin n) (column : Vector α n) : Matrix α n :=
  Vector.ofFn fun i => (m.get i).set j (column.get i) j.isLt

end Matrix

/-! ## Flows -/

/-- A flow on states of `n` numbers. The Jacobian is written into a matrix that is handed in. -/
structure Flow (α : Type) (n : Nat) where
  rate : α → Vector α n → Vector α n
  jacobian : α → Vector α n → Matrix α n → Matrix α n

/-! ## Differentiation -/

section
variable {α : Type} {n : Nat} [Zero α] [One α]

/-- A state that changes at unit rate in one component and in no other. -/
def seeded (x : Vector α n) (j : Fin n) : Vector (Dual α) n :=
  Vector.ofFn fun i => ⟨x.get i, if i = j then 1 else 0⟩

/-- The partial derivatives of a rate with respect to one component of the state. -/
def partials (rate : Dual α → Vector (Dual α) n → Vector (Dual α) n) (t : α) (x : Vector α n)
    (j : Fin n) : Vector α n :=
  (rate (Dual.constant t) (seeded x j)).map (·.slope)

/-- The Jacobian of a rate, written over a matrix column by column. -/
def dualJacobian (rate : Dual α → Vector (Dual α) n → Vector (Dual α) n) (t : α)
    (x : Vector α n) (buffer : Matrix α n) : Matrix α n :=
  (List.finRange n).foldl (fun m j => m.setColumn j (partials rate t x j)) buffer

end

end Acausal
