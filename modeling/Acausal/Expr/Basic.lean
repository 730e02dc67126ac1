-- Expressions of the modelling language, shared by source declarations and flat models. The
-- numbers in them are of any type, so that exact arithmetic can stand in for doubles.
import Acausal.Scalar
import Acausal.Name

namespace Acausal

/-! ## References -/

/-- A component by its dotted name, with a subscript counted from one where it has one. -/
structure Ref where
  name : String
  index : Option Nat := none
  deriving DecidableEq, Repr

namespace Ref

/-- The scalar that a reference denotes: its name with the subscript written out. -/
def flatName (r : Ref) : String :=
  match r.index with
  | none => r.name
  | some i => r.name ++ "[" ++ toString i ++ "]"

/-- The component that a dotted reference starts at. -/
def head (r : Ref) : String := firstSegment r.name

end Ref

/-! ## Expressions -/

/-- The operators between two operands. -/
inductive Operator where
  | add
  | sub
  | mul
  | div
  | pow
  deriving DecidableEq, Repr

/-- An operator applied to numbers. -/
def Operator.apply {α : Type} [Add α] [Sub α] [Mul α] [Div α] [Elementary α] :
    Operator → α → α → α
  | add, a, b => a + b
  | sub, a, b => a - b
  | mul, a, b => a * b
  | div, a, b => a / b
  | pow, a, b => Elementary.pow a b

/-- An expression over numbers of type `α`; `der` is the time derivative of a component. -/
inductive Expr (α : Type) where
  | number (value : α)
  | ref (r : Ref)
  | time
  | binary (lhs : Expr α) (op : Operator) (rhs : Expr α)
  | neg (operand : Expr α)
  | call (function : String) (args : List (Expr α))
  | der (r : Ref)
  deriving Inhabited

namespace Expr

variable {α β ε : Type}

/-! ## References in an expression -/

mutual
/-- The references of an expression from left to right; `der` counts as one. -/
def refs : Expr α → List Ref
  | number _ => []
  | ref r => [r]
  | time => []
  | binary lhs _ rhs => refs lhs ++ refs rhs
  | neg operand => refs operand
  | call _ args => refsAll args
  | der r => [r]

/-- The references of a list of expressions. -/
def refsAll : List (Expr α) → List Ref
  | [] => []
  | e :: es => refs e ++ refsAll es
end

mutual
/-- Every reference replaced, `der` keeping its argument a reference; the first failure
from the left is the answer. -/
def mapRefs (f : Ref → Except ε Ref) : Expr α → Except ε (Expr α)
  | number value => .ok (number value)
  | ref r => do return ref (← f r)
  | time => .ok time
  | binary lhs op rhs => do
    let lhs ← mapRefs f lhs
    let rhs ← mapRefs f rhs
    return binary lhs op rhs
  | neg operand => do return neg (← mapRefs f operand)
  | call function args => do return call function (← mapRefsAll f args)
  | der r => do return der (← f r)

/-- Every reference of a list of expressions replaced. -/
def mapRefsAll (f : Ref → Except ε Ref) : List (Expr α) → Except ε (List (Expr α))
  | [] => .ok []
  | e :: es => do
    let e ← mapRefs f e
    let es ← mapRefsAll f es
    return e :: es
end

mutual
/-- The function names called in an expression. -/
def calls : Expr α → List String
  | number _ => []
  | ref _ => []
  | time => []
  | binary lhs _ rhs => calls lhs ++ calls rhs
  | neg operand => calls operand
  | call function args => function :: callsAll args
  | der _ => []

/-- The function names called in a list of expressions. -/
def callsAll : List (Expr α) → List String
  | [] => []
  | e :: es => calls e ++ callsAll es
end

end Expr

end Acausal
