-- Compiling a flat model. Every equation is turned so that it defines one variable or one
-- derivative; a model compiles when each declared variable is defined exactly once and the
-- algebraic ones can be put in an order.
import Acausal.Code.Compile
import Acausal.Flat.Scalar
import Acausal.System.Model
import Acausal.System.Order
import Acausal.System.Parameters

namespace Acausal

/-! ## Errors -/

/-- Why a flat model does not compile. -/
inductive CompileError (α : Type) where
  | shape (cause : ShapeError α)
  | parameters (cause : ParameterError)
  | definesNothing (equation : Equation α)
  | undeclaredDerivative (name : String)
  | definedTwice (name : String)
  | definedBothWays (name : String)
  | undetermined (name : String)
  | loop (cause : Loop)
  | inStart (name : String) (cause : CodeError)
  | inEquation (name : String) (cause : CodeError)
  | inDerivative (name : String) (cause : CodeError)

/-! ## Orientation -/

variable {α : Type}

/-- What one equation defines, and by which expression. -/
inductive Definition (α : Type) where
  | derivative (name : String) (value : Expr α)
  | algebraic (name : String) (value : Expr α)

/-- What one side defines as the other: a derivative, or a declared variable. -/
def definition? (declared : List String) (side other : Expr α) : Option (Definition α) :=
  match side with
  | .der r => some (.derivative r.flatName other)
  | .ref r => if r.flatName ∈ declared then some (.algebraic r.flatName other) else none
  | _ => none

/-- What an equation defines; the left side is asked first. -/
def Equation.definition? (declared : List String) (e : Equation α) : Option (Definition α) :=
  (Acausal.definition? declared e.lhs e.rhs).orElse fun _ =>
    Acausal.definition? declared e.rhs e.lhs

/-- The definitions found so far. -/
structure Causality (α : Type) where
  derivatives : Definitions α
  algebraics : Definitions α

namespace Causality

/-- Adds what one more equation defines. -/
def add (declared : List String) (c : Causality α) (e : Equation α) :
    Except (CompileError α) (Causality α) :=
  match e.definition? declared with
  | none => .error (.definesNothing e)
  | some (.derivative name value) =>
    if name ∉ declared then .error (.undeclaredDerivative name)
    else if c.derivatives.defines name then .error (.definedTwice name)
    else .ok { c with derivatives := c.derivatives ++ [(name, value)] }
  | some (.algebraic name value) =>
    if c.algebraics.defines name then .error (.definedTwice name)
    else .ok { c with algebraics := c.algebraics ++ [(name, value)] }

/-- Checks that a variable is defined in exactly one way. -/
def checkDetermined (c : Causality α) (name : String) : Except (CompileError α) Unit :=
  match c.derivatives.defines name, c.algebraics.defines name with
  | true, true => .error (.definedBothWays name)
  | false, false => .error (.undetermined name)
  | _, _ => .ok ()

/-- The definitions of all declared variables. -/
def ofEquations (declared : List String) (equations : List (Equation α)) :
    Except (CompileError α) (Causality α) := do
  let c ← equations.foldlM (add declared) ⟨[], []⟩
  declared.forM c.checkDetermined
  return c

end Causality

/-! ## Compilation -/

section
variable [Zero α] [Add α] [Sub α] [Mul α] [Div α] [Neg α] [Elementary α]

/-- The value a state starts from: zero unless the model says otherwise. -/
def FlatModel.startValue (m : FlatModel α) (known : Valuation α) (name : String) :
    Except (CompileError α) α :=
  match (m.variableNamed? name).bind (·.start) with
  | none => .ok 0
  | some start => (start.evaluate known).mapError (.inStart name)

/-- The code of one definition. -/
def Definitions.compile (d : Definitions α) (slot? : String → Option Nat) (known : Valuation α)
    (name : String) : Except CodeError (Code α) :=
  match d.lookup name with
  | none => .error (.unknownName name)
  | some e => e.compile slot? known

/-- A model in scalar form, compiled under a name. -/
def FlatModel.compileScalar (m : FlatModel α) (name : String) :
    Except (CompileError α) (CompiledModel α) := do
  let known ← m.evaluateParameters.mapError .parameters
  let declared := m.unknowns.map (·.name)
  let causality ← Causality.ofEquations declared m.equations
  let states := declared.filter causality.derivatives.defines
  let order ← (causality.algebraics.sorted declared).mapError .loop
  let starts ← states.mapM (m.startValue known)
  let slot? := slotOf? (states ++ order)
  let algebraics ← order.mapM fun name => do
    let code ← (causality.algebraics.compile slot? known name).mapError (.inEquation name)
    return AlgebraicVariable.mk name code
  let states ← (states.zip starts).mapM fun (name, start) => do
    let code ← (causality.derivatives.compile slot? known name).mapError (.inDerivative name)
    return StateVariable.mk name start code
  let parameters := m.parameters.filterMap fun p => (known.lookup p.name).map fun v => (p.name, v)
  return { name, states, algebraics, parameters }

/-- A model compiled under a name; arrays are expanded first. -/
def FlatModel.compile (m : FlatModel α) (name : String) :
    Except (CompileError α) (CompiledModel α) := do
  let scalar ← m.scalarize.mapError .shape
  scalar.compileScalar name

end

end Acausal
