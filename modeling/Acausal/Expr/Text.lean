-- The text of an expression. Parentheses stand exactly where an operand binds more loosely than
-- its place allows: operators of one level group to the left, and a sign binds between
-- products and powers.
import Acausal.Expr.Basic
import Acausal.Number.Render

namespace Acausal

/-! ## Binding strength -/

def Operator.symbol : Operator → String
  | add => "+"
  | sub => "-"
  | mul => "*"
  | div => "/"
  | pow => "^"

/-- How strongly an operator holds its operands together. -/
def Operator.strength : Operator → Nat
  | add => 1
  | sub => 1
  | mul => 2
  | div => 2
  | pow => 4

namespace Expr

/-- The strength of the outermost operator; a sign has three and an atom five. -/
def strength {α : Type} : Expr α → Nat
  | binary _ op _ => op.strength
  | neg _ => 3
  | _ => 5

/-! ## Texts -/

/-- Parentheses around a text whose strength is below the one its place asks for. -/
def enclosed (strength least : Nat) (text : String) : String :=
  if strength < least then "(" ++ text ++ ")" else text

mutual
/-- The text of an expression. A right operand has to bind more strongly than its operator,
a left one only as strongly. -/
def text : Expr Float → String
  | number value => literalText value
  | ref r => r.flatName
  | time => "time"
  | binary lhs op rhs =>
    enclosed lhs.strength op.strength (text lhs) ++ " " ++ op.symbol ++ " " ++
      enclosed rhs.strength (op.strength + 1) (text rhs)
  | neg operand => "-" ++ enclosed operand.strength 4 (text operand)
  | call function args => function ++ "(" ++ ", ".intercalate (textAll args) ++ ")"
  | der r => "der(" ++ r.flatName ++ ")"

/-- The texts of a list of expressions. -/
def textAll : List (Expr Float) → List String
  | [] => []
  | e :: es => text e :: textAll es
end

end Expr

end Acausal
