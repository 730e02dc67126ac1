-- Compiled models. The slots of a compiled model are its states and then its algebraic
-- variables; the code of an algebraic variable reads only slots before its own, so filling the
-- slots in order gives every variable its value, and the rates follow from those.
import Acausal.Code.Basic
import Acausal.Flow

namespace Acausal

/-! ## Compiled models -/

/-- A variable with a derivative: where it starts and how its rate is computed. -/
structure StateVariable (α : Type) where
  name : String
  start : α
  rate : Code α
  deriving DecidableEq, Repr

/-- A variable that is computed from others. -/
structure AlgebraicVariable (α : Type) where
  name : String
  code : Code α
  deriving DecidableEq, Repr

/-- A model ready to run, with its parameters as they were evaluated. -/
structure CompiledModel (α : Type) where
  name : String
  states : List (StateVariable α)
  algebraics : List (AlgebraicVariable α)
  parameters : List (String × α)
  deriving DecidableEq, Repr

namespace CompiledModel

variable {α β : Type}

/-- How many states a model has. -/
abbrev dimension (m : CompiledModel α) : Nat := m.states.length

def stateNames (m : CompiledModel α) : List String := m.states.map (·.name)

def algebraicNames (m : CompiledModel α) : List String := m.algebraics.map (·.name)

/-- The recorded variables: states, then algebraic variables. -/
def recorded (m : CompiledModel α) : List String := m.stateNames ++ m.algebraicNames

/-- The state at the start of a run. -/
def initialState (m : CompiledModel α) : Vector α m.dimension :=
  Vector.ofFn fun i => (m.states.get i).start

/-! ## Evaluation -/

section
variable [Zero β] [Add β] [Sub β] [Mul β] [Div β] [Neg β] [Elementary β]

/-- The slots at a time and a state: the state, and each algebraic variable in turn. -/
def slots (m : CompiledModel α) (lift : α → β) (t : β) (x : Vector β m.dimension) : Array β :=
  m.algebraics.foldl (fun slots a => slots.push (a.code.value lift slots t)) x.toArray

/-- The rates of the states at a time and a state. -/
def rates (m : CompiledModel α) (lift : α → β) (t : β) (x : Vector β m.dimension) :
    Vector β m.dimension :=
  let slots := m.slots lift t x
  Vector.ofFn fun i => (m.states.get i).rate.value lift slots t

end

section
variable [Zero α] [One α] [Add α] [Sub α] [Mul α] [Div α] [Neg α] [OfScientific α] [BEq α]
  [LE α] [DecidableLE α] [Elementary α]

/-- The value of every recorded variable. -/
def observe (m : CompiledModel α) (t : α) (x : Vector α m.dimension) : Array α :=
  m.slots id t x

/-- A compiled model as a flow. -/
def flow (m : CompiledModel α) : Flow α m.dimension where
  rate := m.rates id
  jacobian := dualJacobian (m.rates Dual.constant)

end

end CompiledModel

end Acausal
