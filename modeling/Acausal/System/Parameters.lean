-- Parameter values. A binding is evaluated once everything it reads is known; passes over the
-- bindings that are left go on until all are known or a pass gets no further.
import Acausal.Code.Compile
import Acausal.Flat.Basic

namespace Acausal

/-- Why parameters have no values. -/
inductive ParameterError where
  | inBinding (name : String) (cause : CodeError)
  /-- The bindings that are left wait for each other or for what is no parameter. -/
  | unresolved (names : List String)
  deriving DecidableEq, Repr

def ParameterError.message : ParameterError → String
  | inBinding name cause => "in binding of `" ++ name ++ "`: " ++ cause.message
  | unresolved names =>
    "parameters " ++ ", ".intercalate names ++
      " depend on variables or on each other cyclically"

namespace FlatParameter

variable {α : Type} [Zero α] [Add α] [Sub α] [Mul α] [Div α] [Neg α] [Elementary α]

/-- Whether everything that a binding reads is known. -/
def isReady (p : FlatParameter α) (known : Valuation α) : Bool :=
  p.binding.refs.all fun r => (known.lookup r.flatName).isSome

/-- One pass: the values known after it and the parameters that have to wait. A value found
in the pass counts for the bindings after it. -/
def pass (known : Valuation α) :
    List (FlatParameter α) → Except ParameterError (Valuation α × List (FlatParameter α))
  | [] => .ok (known, [])
  | p :: rest =>
    if p.isReady known then
      match p.binding.evaluate known with
      | .error e => .error (.inBinding p.name e)
      | .ok value => pass ((p.name, value) :: known) rest
    else
      match pass known rest with
      | .error e => .error e
      | .ok (known, waiting) => .ok (known, p :: waiting)

/-- Passes over the parameters that are left. -/
def passes (known : Valuation α) (pending : List (FlatParameter α)) :
    Except ParameterError (Valuation α) :=
  if pending.isEmpty then .ok known
  else
    match pass known pending with
    | .error e => .error e
    | .ok (known, waiting) =>
      if _fewer : waiting.length < pending.length then passes known waiting
      else .error (.unresolved (waiting.map (·.name)))
termination_by pending.length

end FlatParameter

/-- The values of all parameters of a model. -/
def FlatModel.evaluateParameters {α : Type} [Zero α] [Add α] [Sub α] [Mul α] [Div α] [Neg α]
    [Elementary α] (m : FlatModel α) : Except ParameterError (Valuation α) :=
  FlatParameter.passes [] m.parameters

end Acausal
