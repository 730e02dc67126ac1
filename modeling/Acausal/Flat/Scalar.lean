-- The scalar form of a flat model. An array of size n becomes n variables, and an equation
-- that mentions whole arrays becomes one equation for each element, in which every whole array
-- is read at that element.
import Acausal.Flat.Basic

namespace Acausal

/-! ## Errors -/

/-- Why the arrays of a model do not fit together. -/
inductive ShapeError (α : Type) where
  /-- Two sizes that meet in one equation. -/
  | sizes (first other : Nat) (equation : Equation α)
  | outOfRange (index : Nat) (name : String)
  | notArray (name : String)

namespace FlatModel

variable {α : Type}

/-! ## References -/

/-- The name of one element of an array. -/
def elementName (name : String) (i : Nat) : String := (Ref.mk name (some i)).flatName

/-- The scalar behind a reference, where whole arrays are read at `element`. -/
def scalarRef (size? : String → Option Nat) (element : Option Nat) (r : Ref) :
    Except (ShapeError α) Ref :=
  match r.index, size? r.name with
  | some i, some n => if n < i then .error (.outOfRange i r.name) else .ok ⟨r.flatName, none⟩
  | some _, none => .error (.notArray r.name)
  | none, some _ => .ok ⟨(Ref.mk r.name element).flatName, none⟩
  | none, none => .ok ⟨r.name, none⟩

/-! ## Equations -/

/-- An equation with its references replaced, left side first. -/
def scalarEquation (size? : String → Option Nat) (element : Option Nat) (e : Equation α) :
    Except (ShapeError α) (Equation α) := do
  let lhs ← e.lhs.mapRefs (scalarRef size? element)
  let rhs ← e.rhs.mapRefs (scalarRef size? element)
  return ⟨lhs, rhs⟩

/-- The sizes of the whole arrays that an equation mentions, from left to right. -/
def wholeSizes (size? : String → Option Nat) (e : Equation α) : List Nat :=
  (e.lhs.refs ++ e.rhs.refs).filterMap fun r =>
    match r.index with
    | none => size? r.name
    | some _ => none

/-- How many elements an equation runs over, if it mentions whole arrays. All of them have
the size of the first; where they do not, the last that differs is reported. -/
def width? (size? : String → Option Nat) (e : Equation α) :
    Except (ShapeError α) (Option Nat) :=
  match wholeSizes size? e with
  | [] => .ok none
  | n :: more =>
    match more.reverse.find? (· != n) with
    | none => .ok (some n)
    | some other => .error (.sizes n other e)

/-- The scalar equations that an equation stands for. -/
def scalarEquations (size? : String → Option Nat) (e : Equation α) :
    Except (ShapeError α) (List (Equation α)) := do
  match ← width? size? e with
  | none => return [← scalarEquation size? none e]
  | some n => (List.range' 1 n).mapM fun i => scalarEquation size? (some i) e

/-! ## Models -/

/-- The scalar variables that a variable stands for; each element starts like the array. -/
def scalarVariables (v : FlatVariable α) : List (FlatVariable α) :=
  match v.size with
  | none => [v]
  | some n => (List.range' 1 n).map fun i => ⟨elementName v.name i, none, v.start⟩

/-- The scalar form of a model. -/
def scalarize (m : FlatModel α) : Except (ShapeError α) (FlatModel α) := do
  let equations ← m.equations.mapM (scalarEquations m.arraySize?)
  return { m with
    unknowns := m.unknowns.flatMap scalarVariables
    equations := equations.flatten }

end FlatModel

end Acausal
