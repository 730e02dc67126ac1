-- The declarations of a source text. A program is an ordered list of classes; lookups take the
-- first match, so what is put in front hides what comes later.
import Acausal.Expr.Basic

namespace Acausal

/-! ## Declarations -/

/-- The keyword that a class is introduced by. -/
inductive ClassKind where
  | model
  | block
  | plain
  | record
  | connector
  | package
  deriving DecidableEq, Repr

namespace ClassKind

def keyword : ClassKind → String
  | model => "model"
  | block => "block"
  | plain => "class"
  | record => "record"
  | connector => "connector"
  | package => "package"

def all : List ClassKind := [model, block, plain, record, connector, package]

/-- The kind of class that a keyword introduces. -/
def ofKeyword? (word : String) : Option ClassKind := all.find? (·.keyword == word)

end ClassKind

/-- How a component may change: with time, between runs, or never. -/
inductive Variability where
  | continuous
  | parameter
  | constant
  deriving DecidableEq, Repr

def Variability.keyword : Variability → String
  | continuous => "continuous"
  | parameter => "parameter"
  | constant => "constant"

/-- A modifier `name(children) = value`; `each` is kept for the record. -/
structure Modifier (α : Type) where
  name : String
  each : Bool
  value : Option (Expr α)
  children : List (Modifier α)

/-- An extends clause. -/
structure Extends (α : Type) where
  base : String
  modifiers : List (Modifier α)

/-- A component declaration. -/
structure Component (α : Type) where
  name : String
  typeName : String
  variability : Variability
  size : Option Nat
  modifiers : List (Modifier α)
  binding : Option (Expr α)
  description : Option String

/-- The types whose components are numbers. -/
def Component.isBuiltin {α : Type} (c : Component α) : Bool :=
  c.typeName == "Real" || c.typeName == "Integer" || c.typeName == "Boolean"

/-- An equation between two expressions. -/
structure Equation (α : Type) where
  lhs : Expr α
  rhs : Expr α

mutual
/-- A class with its elements in the order they are written. -/
structure ClassDecl (α : Type) where
  name : String
  kind : ClassKind
  isPartial : Bool
  description : Option String
  elements : List (Element α)
  equations : List (Equation α)

/-- What a class is made of. -/
inductive Element (α : Type) where
  | inherit (clause : Extends α)
  | component (decl : Component α)
  | nested (decl : ClassDecl α)
end

namespace ClassDecl

variable {α : Type}

/-- The first class of a name that is declared inside a class. -/
def nested? (c : ClassDecl α) (name : String) : Option (ClassDecl α) :=
  c.elements.findSome? fun
    | .nested inner => if inner.name = name then some inner else none
    | _ => none

/-- The first component of a name that a class declares itself. -/
def component? (c : ClassDecl α) (name : String) : Option (Component α) :=
  c.elements.findSome? fun
    | .component decl => if decl.name = name then some decl else none
    | _ => none

/-- The first constant of a name that a class declares itself, unless another component
of that name comes first. -/
def constant? (c : ClassDecl α) (name : String) : Option (Component α) :=
  (c.component? name).filter (·.variability = .constant)

/-- The extends clauses of a class. -/
def bases (c : ClassDecl α) : List (Extends α) :=
  c.elements.filterMap fun
    | .inherit clause => some clause
    | _ => none

mutual
/-- A class without its descriptions, which mean nothing past the source text. -/
def undescribed : ClassDecl α → ClassDecl α
  | ⟨name, kind, isPartial, _, elements, equations⟩ =>
    ⟨name, kind, isPartial, none, undescribedAll elements, equations⟩

/-- Elements without their descriptions. -/
def undescribedAll : List (Element α) → List (Element α)
  | [] => []
  | .inherit clause :: rest => .inherit clause :: undescribedAll rest
  | .component decl :: rest => .component { decl with description := none } :: undescribedAll rest
  | .nested decl :: rest => .nested (undescribed decl) :: undescribedAll rest
end

end ClassDecl

/-! ## Programs -/

/-- What one source text declares. -/
structure SourceFile (α : Type) where
  path : String
  classes : List (ClassDecl α)

/-- An ordered list of declarations. Libraries and models both take this form. -/
structure Program (α : Type) where
  classes : List (ClassDecl α)

namespace Program

variable {α : Type}

/-- The declarations of a source text. -/
def ofSource (source : SourceFile α) : Program α := ⟨source.classes.map (·.undescribed)⟩

/-- A library in front of a model: its declarations are found first. -/
def prepend (library model : Program α) : Program α := ⟨library.classes ++ model.classes⟩

def classNames (p : Program α) : List String := p.classes.map (·.name)

end Program

end Acausal
