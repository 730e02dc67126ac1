-- What an expression means. Its value at a time is found by reading each reference, taking
-- numbers as constants, and applying operators and builtins to the values of the operands.
import Acausal.Expr.Basic

namespace Acausal.Expr

variable {α β : Type} [Add β] [Sub β] [Mul β] [Div β] [Neg β] [Elementary β]

/-- The value of an expression, where `read` gives the values of scalars by name, `lift` those
of literals, and `t` is the time. There is none for `der`, for a name that cannot be read,
and for a call of an unknown function or with more or fewer arguments than one. -/
def value? (read : String → Option β) (lift : α → β) (t : β) : Expr α → Option β
  | number value => some (lift value)
  | ref r => read r.flatName
  | time => some t
  | binary lhs op rhs => do
    let a ← value? read lift t lhs
    let b ← value? read lift t rhs
    return op.apply a b
  | neg operand => do return -(← value? read lift t operand)
  | call function [arg] => do
    let f ← Builtin.ofName? function
    return f.apply (← value? read lift t arg)
  | call _ _ => none
  | der _ => none

end Acausal.Expr
