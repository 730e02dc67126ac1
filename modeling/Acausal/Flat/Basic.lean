-- Flat models: parameters, variables and equations without any hierarchy left. Every name is
-- the full dotted path of the component that declared it.
import Acausal.Syntax
import Acausal.Table

namespace Acausal

/-! ## Flat models -/

/-- A value that does not change during a run. -/
structure FlatParameter (α : Type) where
  name : String
  binding : Expr α
  isConstant : Bool

/-- A value that changes; an array has a size, and a start expression is for each element. -/
structure FlatVariable (α : Type) where
  name : String
  size : Option Nat
  start : Option (Expr α)

structure FlatModel (α : Type) where
  name : String
  parameters : List (FlatParameter α)
  unknowns : List (FlatVariable α)
  equations : List (Equation α)

namespace FlatModel

variable {α : Type}

/-- Whether no array is left. -/
def isScalar (m : FlatModel α) : Bool := m.unknowns.all (·.size.isNone)

/-- The first parameter of a name. -/
def parameterNamed? (m : FlatModel α) (name : String) : Option (FlatParameter α) :=
  m.parameters.find? (·.name == name)

/-- The first variable of a name. -/
def variableNamed? (m : FlatModel α) (name : String) : Option (FlatVariable α) :=
  m.unknowns.find? (·.name == name)

/-- The size of the array of a name; of several such arrays the last one counts. -/
def arraySize? (m : FlatModel α) (name : String) : Option Nat :=
  m.unknowns.reverse.findSome? fun v => if v.name = name then v.size else none

end FlatModel

/-! ## What instantiation came across -/

/-- The functions called and the classes used while one model was put together. -/
structure FunctionCache where
  functions : Table Nat
  classes : Table Unit

namespace FunctionCache

def empty : FunctionCache := ⟨.empty, .empty⟩

/-- Records calls of functions, each with one argument. -/
def addCalls (cache : FunctionCache) (names : List String) : FunctionCache :=
  { cache with functions := names.foldl (fun t name => t.insert name 1) cache.functions }

def addClass (cache : FunctionCache) (name : String) : FunctionCache :=
  { cache with classes := cache.classes.insert name () }

end FunctionCache

end Acausal
