-- Instances. Making an instance of a class lays out its components under their full names,
-- inlines what it extends, lets outer modifications win over inner ones, and collects the
-- equations. No class is entered while it is being laid out already, so the layout ends.
import Acausal.Flat.Scalar
import Acausal.Instance.Modification
import Acausal.Instance.Resolve

namespace Acausal

/-! ## Errors -/

/-- A reference that does not fit the declarations of a flat model. -/
inductive ReferenceError where
  | unknownVariable (name : String)
  | notArray (name : String)
  | outOfRange (r : Ref)
  deriving DecidableEq, Repr

def ReferenceError.message : ReferenceError → String
  | unknownVariable name => "unknown variable `" ++ name ++ "`"
  | notArray name => "`" ++ name ++ "` is not an array"
  | outOfRange r => "subscript out of range in `" ++ r.flatName ++ "`"

/-- Why there is no instance of a class. -/
inductive InstanceError (α : Type) where
  | classNotFound (name : String)
  | partialModel (name : String)
  | packageModel (name : String)
  | recursive (name : String)
  | baseNotFound (name : String)
  | typeNotFound (typeName name : String)
  | unsuitableType (name typeName : String)
  | duplicate (name : String)
  | arrayParameter (name : String)
  | parameterWithoutValue (name : String)
  | arrayOfComponents (name : String)
  | unresolved (cause : ResolveError)
  | inComponent (name : String) (cause : InstanceError α)
  | inBinding (name : String) (cause : ReferenceError)
  | inStart (name : String) (cause : ReferenceError)
  | inEquation (cause : ReferenceError)
  | shape (cause : ShapeError α)

/-! ## The instance so far -/

/-- A flat model with what was come across on the way to it. -/
structure Instance (α : Type) where
  model : FlatModel α
  cache : FunctionCache

variable {α : Type}

/-- The size of what a flat model declares under a name: none if it declares nothing, and
otherwise the array size if it is an array. -/
def FlatModel.declared? (m : FlatModel α) (name : String) : Option (Option Nat) :=
  match m.variableNamed? name with
  | some v => some v.size
  | none => (m.parameterNamed? name).map fun _ => none

namespace Instance

def empty (name : String) : Instance α := ⟨⟨name, [], [], []⟩, .empty⟩

def addClass (i : Instance α) (path : ClassPath) : Instance α :=
  { i with cache := i.cache.addClass (dotted path) }

def addCalls (i : Instance α) (names : List String) : Instance α :=
  { i with cache := i.cache.addCalls names }

def addParameter (i : Instance α) (p : FlatParameter α) : Instance α :=
  { i with model := { i.model with parameters := i.model.parameters ++ [p] } }

def addVariable (i : Instance α) (v : FlatVariable α) : Instance α :=
  { i with model := { i.model with unknowns := i.model.unknowns ++ [v] } }

def addEquation (i : Instance α) (e : Equation α) : Instance α :=
  { i with model := { i.model with equations := i.model.equations ++ [e] } }

/-! ## Components -/

/-- Declares a number under its full name. A parameter needs a value; for what changes with
time a value is an equation of its own. -/
def declare (i : Instance α) (name : String) (decl : Component α) (m : Modification α) :
    Except (InstanceError α) (Instance α) :=
  if (i.model.declared? name).isSome then .error (.duplicate name)
  else if decl.variability = .continuous then
    let i := i.addVariable ⟨name, decl.size, (m.child "start").value?⟩
    match m.value? with
    | none => .ok i
    | some value => .ok (i.addEquation ⟨.ref ⟨name, none⟩, value⟩)
  else if decl.size.isSome then .error (.arrayParameter name)
  else match m.value? with
    | none => .error (.parameterWithoutValue name)
    | some value => .ok (i.addParameter ⟨name, value, decl.variability = .constant⟩)

/-- What making an instance of a class under a stem adds to an instance. -/
abbrev Layout (α : Type) :=
  Located α → String → Modification α → Instance α → Except (InstanceError α) (Instance α)

/-- Adds what an extends clause brings in, under the same stem. -/
def addBase (p : Program α) (layout : Layout α) (owner : Located α) (stem : String)
    (m : Modification α) (i : Instance α) (clause : Extends α) :
    Except (InstanceError α) (Instance α) :=
  match p.resolve? owner.path (segments clause.base) with
  | none => .error (.baseNotFound clause.base)
  | some base =>
    match p.resolveModifiers (.instantiated stem owner) clause.modifiers with
    | .error e => .error (.unresolved e)
    | .ok modifiers =>
      layout base stem (m.merge (.ofModifiers modifiers))
        (i.addCalls (Modifier.callsAll modifiers))

/-- Adds a component of a class type, all of its parts under its own name. -/
def addPart (p : Program α) (layout : Layout α) (owner : Located α) (name : String)
    (m : Modification α) (i : Instance α) (decl : Component α) :
    Except (InstanceError α) (Instance α) :=
  if decl.size.isSome then .error (.arrayOfComponents name)
  else match p.resolve? owner.path (segments decl.typeName) with
  | none => .error (.typeNotFound decl.typeName name)
  | some type =>
    if type.decl.kind = .package ∨ type.decl.isPartial then
      .error (.unsuitableType name decl.typeName)
    else (layout type (name ++ ".") m i).mapError (.inComponent name)

/-- Adds a component, whose own binding and modifiers are written in the class at hand. -/
def addComponent (p : Program α) (layout : Layout α) (owner : Located α) (stem : String)
    (m : Modification α) (i : Instance α) (decl : Component α) :
    Except (InstanceError α) (Instance α) :=
  match p.resolveOptional (.instantiated stem owner) decl.binding with
  | .error e => .error (.unresolved e)
  | .ok binding =>
    match p.resolveModifiers (.instantiated stem owner) decl.modifiers with
    | .error e => .error (.unresolved e)
    | .ok modifiers =>
      let own := (Modification.ofValue binding).merge (.ofModifiers modifiers)
      let merged := (m.child decl.name).merge own
      let i := i.addCalls (binding.toList.flatMap (·.calls) ++ Modifier.callsAll modifiers)
      let name := stem ++ decl.name
      if decl.isBuiltin then i.declare name decl merged
      else addPart p layout owner name merged i decl

/-- Adds an element; a class inside a class adds nothing by itself. -/
def addElement (p : Program α) (layout : Layout α) (owner : Located α) (stem : String)
    (m : Modification α) (i : Instance α) :
    Element α → Except (InstanceError α) (Instance α)
  | .nested _ => .ok i
  | .inherit clause => addBase p layout owner stem m i clause
  | .component decl => addComponent p layout owner stem m i decl

/-- Adds an equation of the class at hand. -/
def addResolved (p : Program α) (owner : Located α) (stem : String) (i : Instance α)
    (e : Equation α) : Except (InstanceError α) (Instance α) :=
  match p.resolve (.instantiated stem owner) e.lhs with
  | .error e => .error (.unresolved e)
  | .ok lhs =>
    match p.resolve (.instantiated stem owner) e.rhs with
    | .error e => .error (.unresolved e)
    | .ok rhs => .ok ((i.addCalls (lhs.calls ++ rhs.calls)).addEquation ⟨lhs, rhs⟩)

/-! ## Classes -/

/-- Makes an instance of a class under a stem: its elements in order, then its equations.
Only the classes in `free` may be entered. -/
def layout (p : Program α) (free : List ClassPath) (c : Located α) (stem : String)
    (m : Modification α) (i : Instance α) : Except (InstanceError α) (Instance α) :=
  if _entered : c.path ∈ free then do
    let inner : Layout α := fun c' stem' m' i' => layout p (without c.path free) c' stem' m' i'
    let i ← c.decl.elements.foldlM (addElement p inner c stem m) (i.addClass c.path)
    c.decl.equations.foldlM (addResolved p c stem) i
  else .error (.recursive (dotted c.path))
termination_by free.length
decreasing_by exact length_without_lt _entered

/-! ## Checking references -/

end Instance

/-- Checks one reference against the declarations of a flat model. -/
def FlatModel.checkRef (m : FlatModel α) (r : Ref) : Except ReferenceError Unit :=
  match m.declared? r.name, r.index with
  | none, _ => .error (.unknownVariable r.name)
  | some none, some _ => .error (.notArray r.name)
  | some (some n), some i => if i = 0 ∨ n < i then .error (.outOfRange r) else .ok ()
  | some _, none => .ok ()

/-- Checks the references of an expression from left to right. -/
def FlatModel.checkExpr (m : FlatModel α) (e : Expr α) : Except ReferenceError Unit :=
  e.refs.forM m.checkRef

/-- Checks that every reference of a flat model names something it declares. -/
def FlatModel.checkReferences (m : FlatModel α) : Except (InstanceError α) Unit := do
  m.parameters.forM fun p => (m.checkExpr p.binding).mapError (.inBinding p.name)
  m.unknowns.forM fun v => match v.start with
    | none => .ok ()
    | some start => (m.checkExpr start).mapError (.inStart v.name)
  m.equations.forM fun e => do
    (m.checkExpr e.lhs).mapError .inEquation
    (m.checkExpr e.rhs).mapError .inEquation

/-! ## Models -/

/-- The flat model of a class given by its full name, in scalar form on request. -/
def Program.instantiate (p : Program α) (name : String) (scalar : Bool) :
    Except (InstanceError α) (Instance α) :=
  match p.find? (segments name) with
  | none => .error (.classNotFound name)
  | some decl =>
    if decl.isPartial then .error (.partialModel name)
    else if decl.kind = .package then .error (.packageModel name)
    else do
      let i ← Instance.layout p p.paths ⟨segments name, decl⟩ "" .none (.empty name)
      i.model.checkReferences
      if scalar then
        match i.model.scalarize with
        | .error e => .error (.shape e)
        | .ok model => return { i with model := model }
      else return i

end Acausal
