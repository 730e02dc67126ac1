-- Finding classes and constants by name. A name is looked for from the inside outwards: first
-- among what the class at hand declares, then in the classes around it, and last at the top of
-- the program; of several declarations of one name the first counts.
import Acausal.Pool
import Acausal.Syntax

namespace Acausal

/-! ## Classes by full path -/

/-- A class with the full path at which a program holds it. -/
structure Located (α : Type) where
  path : ClassPath
  decl : ClassDecl α

variable {α : Type}

/-- The class at a path inside a class. -/
def ClassDecl.descend? (c : ClassDecl α) : ClassPath → Option (ClassDecl α)
  | [] => some c
  | name :: rest => (c.nested? name).bind fun inner => inner.descend? rest

mutual
/-- The full paths of a class and of the classes inside it. -/
def ClassDecl.paths (outer : ClassPath) : ClassDecl α → List ClassPath
  | ⟨name, _, _, _, elements, _⟩ =>
    (outer ++ [name]) :: ClassDecl.pathsAll (outer ++ [name]) elements

/-- The full paths of the classes among some elements. -/
def ClassDecl.pathsAll (outer : ClassPath) : List (Element α) → List ClassPath
  | [] => []
  | .inherit _ :: rest => ClassDecl.pathsAll outer rest
  | .component _ :: rest => ClassDecl.pathsAll outer rest
  | .nested decl :: rest => ClassDecl.paths outer decl ++ ClassDecl.pathsAll outer rest
end

/-- The scopes around a place, from the inside outwards; the last is the top level. -/
def outward (scope : ClassPath) : List ClassPath :=
  (List.range (scope.length + 1)).reverse.map scope.take

/-- The classes around a class, from the inside outwards, without the class itself. -/
def enclosing (scope : ClassPath) : List ClassPath :=
  ((List.range scope.length).drop 1).reverse.map scope.take

namespace Program

/-- The class at a full path. -/
def find? (p : Program α) : ClassPath → Option (ClassDecl α)
  | [] => none
  | name :: rest =>
    (p.classes.find? (·.name == name)).bind fun outer => outer.descend? rest

/-- The full paths of all classes of a program. -/
def paths (p : Program α) : List ClassPath := p.classes.flatMap (·.paths [])

/-- The class that a name means inside a scope. -/
def resolve? (p : Program α) (scope name : ClassPath) : Option (Located α) :=
  (outward scope).findSome? fun outer =>
    (p.find? (outer ++ name)).map fun decl => ⟨outer ++ name, decl⟩

/-! ## Inherited components -/

/-- The base classes of a class that can be found, each looked for in the class that names
it. -/
def bases (p : Program α) (c : Located α) : List (Located α) :=
  c.decl.bases.filterMap fun clause => p.resolve? c.path (segments clause.base)

/-- The classes reached from some classes through extends clauses, each path once; `free`
holds the paths that may still be reached. -/
def ancestry (p : Program α) (free : List ClassPath) : List (Located α) → List (Located α)
  | [] => []
  | c :: pending =>
    if c.path ∈ free then
      c :: ancestry p (without c.path free) (p.bases c ++ pending)
    else ancestry p free pending
termination_by pending => (free.length, pending.length)
decreasing_by
  · exact Prod.Lex.left _ _ (length_without_lt (by assumption))
  · exact Prod.Lex.right _ (by simp)

/-- Whether a class or one it inherits from declares a component of a name. -/
def declares (p : Program α) (c : Located α) (name : String) : Bool :=
  (c :: p.ancestry p.paths (p.bases c)).any fun a => (a.decl.component? name).isSome

/-! ## Constants -/

/-- The constant of a name that the class at a path declares itself. -/
def constantAt? (p : Program α) (path : ClassPath) (name : String) :
    Option (Located α × Component α) := do
  let decl ← p.find? path
  let constant ← decl.constant? name
  return (⟨path, decl⟩, constant)

/-- The constant of a name in one of the classes around a scope. -/
def enclosingConstant? (p : Program α) (scope : ClassPath) (name : String) :
    Option (Located α × Component α) :=
  (enclosing scope).findSome? fun outer => p.constantAt? outer name

/-- The constant of a name in a class that is itself given by a name. -/
def qualifiedConstant? (p : Program α) (scope owner : ClassPath) (name : String) :
    Option (Located α × Component α) := do
  let c ← p.resolve? scope owner
  let constant ← c.decl.constant? name
  return (c, constant)

end Program

end Acausal
