-- The order of definitions. Each definition is put behind those that it reads, by visiting
-- them first; one that is met again while it is still being visited closes a loop, and the
-- loop is reported as it was walked.
import Acausal.Expr.Basic
import Acausal.Pool

namespace Acausal

/-- Definitions by name. -/
abbrev Definitions (α : Type) := List (String × Expr α)

/-- Names of which each reads the next; the last is the first again. -/
structure Loop where
  names : List String
  deriving DecidableEq, Repr

def Loop.message (loop : Loop) : String := "algebraic loop: " ++ " -> ".intercalate loop.names

namespace Definitions

variable {α : Type}

def defines (d : Definitions α) (name : String) : Bool := (d.lookup name).isSome

/-- The definitions that a definition reads, in the order of its references. -/
def reads (d : Definitions α) (name : String) : List String :=
  match d.lookup name with
  | none => []
  | some e => (e.refs.map (·.flatName)).filter d.defines

/-- Puts a definition and what it reads behind the order so far. Names on the path are being
visited; those in `free` are neither on the path nor, unless they are in the order, visited. -/
def visit (d : Definitions α) (free path order : List String) (name : String) :
    Except Loop (List String) :=
  if name ∈ order then .ok order
  else if _free : name ∈ free then do
    let inner := fun order' name' =>
      visit d (without name free) (path ++ [name]) order' name'
    let order ← (d.reads name).foldlM inner order
    return order ++ [name]
  else .error ⟨path.dropWhile (· != name) ++ [name]⟩
termination_by free.length
decreasing_by exact length_without_lt _free

/-- The defined names among the declared ones, each behind those that its definition reads. -/
def sorted (d : Definitions α) (declared : List String) : Except Loop (List String) :=
  (declared.filter d.defines).foldlM (d.visit (d.map (·.1)) []) []

end Definitions

end Acausal
