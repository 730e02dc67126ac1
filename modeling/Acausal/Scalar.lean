-- The numbers that a model computes with. Nothing here fixes what the numbers are: doubles,
-- exact fractions and dual numbers all take part through the same operations, so a law about
-- evaluation holds for each of them.

namespace Acausal

/-! ## Operations -/

/-- The four operations with their neutral elements, as every number type here has them. -/
class abbrev Arithmetic (α : Type) := Zero α, One α, Add α, Sub α, Mul α, Div α, Neg α

/-- Powers and the elementary functions. -/
class Elementary (α : Type) where
  pow : α → α → α
  sin : α → α
  cos : α → α
  tan : α → α
  exp : α → α
  log : α → α
  sqrt : α → α
  abs : α → α

instance : Elementary Float where
  pow := Float.pow
  sin := Float.sin
  cos := Float.cos
  tan := Float.tan
  exp := Float.exp
  log := Float.log
  sqrt := Float.sqrt
  abs := Float.abs

/-! ## Builtin functions -/

/-- The functions that a model may call, each of one argument. -/
inductive Builtin where
  | sin
  | cos
  | tan
  | exp
  | log
  | sqrt
  | abs
  deriving DecidableEq, Repr

namespace Builtin

/-- The name a builtin is called by. -/
def name : Builtin → String
  | sin => "sin"
  | cos => "cos"
  | tan => "tan"
  | exp => "exp"
  | log => "log"
  | sqrt => "sqrt"
  | abs => "abs"

def all : List Builtin := [sin, cos, tan, exp, log, sqrt, abs]

/-- The builtin of a name. -/
def ofName? (name : String) : Option Builtin := all.find? (·.name == name)

/-- The value of a builtin at an argument. -/
def apply {α : Type} [Elementary α] : Builtin → α → α
  | sin => Elementary.sin
  | cos => Elementary.cos
  | tan => Elementary.tan
  | exp => Elementary.exp
  | log => Elementary.log
  | sqrt => Elementary.sqrt
  | abs => Elementary.abs

theorem mem_all (f : Builtin) : f ∈ all := by
  cases f <;> simp [all]

/-- Every builtin is found again by its own name. -/
theorem ofName?_name (f : Builtin) : ofName? f.name = some f := by
  cases f <;> rfl

theorem name_of_ofName? {name : String} {f : Builtin} (h : ofName? name = some f) :
    f.name = name := by
  simpa using List.find?_some h

end Builtin

end Acausal
