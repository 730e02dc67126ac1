-- Code for a stack machine. An instruction takes its operands off a stack and puts its result
-- back; code runs over any numbers into which the constants can be lifted, so the same code
-- gives values and, over dual numbers, slopes.
import Acausal.Expr.Basic

namespace Acausal

/-! ## Instructions -/

inductive Instruction (α : Type) where
  | const (value : α)
  /-- Puts the value of a slot on the stack. -/
  | load (slot : Nat)
  | time
  /-- Takes the right operand and then the left one. -/
  | operate (op : Operator)
  | neg
  | call (function : Builtin)
  deriving DecidableEq, Repr

abbrev Code (α : Type) := List (Instruction α)

/-! ## Running code -/

section
variable {α β : Type} [Zero β]

/-- The top of a stack and what is below it; an empty stack gives zero. -/
def pop (stack : Array β) : β × Array β := (stack.back?.getD 0, stack.pop)

variable [Add β] [Sub β] [Mul β] [Div β] [Neg β] [Elementary β]

/-- The stack after one instruction. -/
def Instruction.run (lift : α → β) (slots : Array β) (t : β) (stack : Array β) :
    Instruction α → Array β
  | const value => stack.push (lift value)
  | load slot => stack.push (slots.getD slot 0)
  | time => stack.push t
  | operate op =>
    let (b, stack) := pop stack
    let (a, stack) := pop stack
    stack.push (op.apply a b)
  | neg =>
    let (a, stack) := pop stack
    stack.push (-a)
  | call function =>
    let (a, stack) := pop stack
    stack.push (function.apply a)

/-- The stack after code that starts on a given stack. -/
def Code.runOn (lift : α → β) (slots : Array β) (t : β) (code : Code α) (stack : Array β) :
    Array β :=
  code.foldl (Instruction.run lift slots t) stack

/-- The result of code, and what is left below it. The scratch stack is emptied first. -/
def Code.run (lift : α → β) (slots : Array β) (t : β) (code : Code α) (scratch : Array β) :
    β × Array β :=
  pop (code.runOn lift slots t (scratch.shrink 0))

/-- The result of code. -/
def Code.value (lift : α → β) (slots : Array β) (t : β) (code : Code α) : β :=
  (code.run lift slots t #[]).1

end

end Acausal
