-- Paths of source texts. Two spellings of a path that name the same place step by step are one
-- path: repeated and trailing slashes and inner dots do not count, while a leading dot and
-- steps upwards do. Messages show the spelling that was given.
import Acausal.Name

namespace Acausal

/-- The steps of a path. -/
structure PathKey where
  isAbsolute : Bool
  steps : List String
  deriving DecidableEq, Repr

/-- The pieces of a path between its slashes. -/
def pathPieces (path : String) : List String := (cutAt '/' path.toList).map String.ofList

/-- What a spelling of a path comes down to. -/
def pathKey (path : String) : PathKey :=
  let isStep := fun (piece : String) => piece != "" && piece != "."
  match pathPieces path with
  | "" :: rest => ⟨!rest.isEmpty, rest.filter isStep⟩
  | "." :: rest => ⟨false, "." :: rest.filter isStep⟩
  | pieces => ⟨false, pieces.filter isStep⟩

/-! ## Files -/

/-- Why there is no text at a path. -/
inductive FileProblem where
  | notFound
  | isDirectory
  | notDirectory
  deriving DecidableEq, Repr

def FileProblem.message : FileProblem → String
  | notFound => "No such file or directory (os error 2)"
  | isDirectory => "Is a directory (os error 21)"
  | notDirectory => "Not a directory (os error 20)"

/-- The texts of files by path. -/
abbrev Files := String → Except FileProblem String

end Acausal
