-- The text of a flat model: one declaration or equation a line, in the order of the model.
import Acausal.Expr.Text
import Acausal.Flat.Basic

namespace Acausal

def FlatParameter.text (p : FlatParameter Float) : String :=
  (if p.isConstant then "  constant" else "  parameter") ++ " Real " ++ p.name ++ " = " ++
    p.binding.text ++ ";\n"

def FlatVariable.text (v : FlatVariable Float) : String :=
  let size := match v.size with
    | none => ""
    | some n => "[" ++ toString n ++ "]"
  let start := match v.start with
    | none => ""
    | some e => "(start = " ++ e.text ++ ")"
  "  Real " ++ v.name ++ size ++ start ++ ";\n"

/-- Both sides of an equation, as messages show it. -/
def Equation.text (e : Equation Float) : String := e.lhs.text ++ " = " ++ e.rhs.text

/-- The text of a flat model; its last line has no line feed. -/
def FlatModel.text (m : FlatModel Float) : String :=
  "class " ++ m.name ++ "\n" ++ String.join (m.parameters.map (·.text)) ++
    String.join (m.unknowns.map (·.text)) ++ "equation\n" ++
    String.join (m.equations.map fun e => "  " ++ e.text ++ ";\n") ++ "end " ++ m.name ++ ";"

end Acausal
