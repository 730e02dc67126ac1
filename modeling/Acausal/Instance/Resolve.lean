-- Resolving expressions. A reference inside a class means a component of the instance at hand,
-- written with the full name of that instance; any other name has to be a constant, and the
-- constant's own binding, resolved where it was written, takes its place.
import Acausal.Instance.Lookup

namespace Acausal

/-! ## Errors -/

/-- Why an expression means nothing where it is written. -/
inductive ResolveError where
  | derivativeOfConstant (r : Ref)
  | unknownFunction (name : String)
  | argumentCount (name : String) (count : Nat)
  | unknownArray (name : String)
  | unknownName (name : String)
  | circularConstant (name : String)
  | constantWithoutValue (name : String)
  deriving DecidableEq, Repr

def ResolveError.message : ResolveError → String
  | derivativeOfConstant r => "der() applied to constant `" ++ r.flatName ++ "`"
  | unknownFunction name => "unknown function `" ++ name ++ "`"
  | argumentCount name count =>
    "function `" ++ name ++ "` takes 1 argument, got " ++ toString count
  | unknownArray name => "unknown array `" ++ name ++ "`"
  | unknownName name => "unknown identifier `" ++ name ++ "`"
  | circularConstant name => "constant `" ++ name ++ "` is defined in terms of itself"
  | constantWithoutValue name => "constant `" ++ name ++ "` has no value"

/-! ## Scopes -/

variable {α : Type}

/-- Where an expression is written. -/
inductive Scope (α : Type) where
  /-- In a class of which an instance is made; names of its components start with `stem`. -/
  | instantiated (stem : String) (owner : Located α)
  /-- In the binding of a constant. -/
  | binding (owner : Located α)

/-- The class that an expression is written in. -/
def Scope.owner : Scope α → Located α
  | instantiated _ owner => owner
  | binding owner => owner

/-- The constant that a name means in a scope. A name of one segment is looked for in the
classes around the scope, and in the class itself only from the binding of a constant. -/
def Program.constant? (p : Program α) (scope : Scope α) (name : ClassPath) :
    Option (Located α × Component α) :=
  match name with
  | [] => none
  | [simple] =>
    let own := match scope with
      | .instantiated _ _ => none
      | .binding owner => (owner.decl.constant? simple).map fun constant => (owner, constant)
    own.orElse fun _ => p.enclosingConstant? scope.owner.path simple
  | first :: second :: rest =>
    p.qualifiedConstant? scope.owner.path (first :: (second :: rest).dropLast)
      ((second :: rest).getLastD second)

/-! ## Expressions -/

mutual
/-- An expression with every reference replaced by what it means. Functions have to be known
and called with one argument. -/
def Expr.resolve (meaning : Ref → Except ResolveError (Expr α)) :
    Expr α → Except ResolveError (Expr α)
  | .number value => .ok (.number value)
  | .time => .ok .time
  | .ref r => meaning r
  | .der r => do
    match ← meaning r with
    | .ref resolved => return .der resolved
    | _ => .error (.derivativeOfConstant r)
  | .binary lhs op rhs => do
    let lhs ← Expr.resolve meaning lhs
    let rhs ← Expr.resolve meaning rhs
    return .binary lhs op rhs
  | .neg operand => do return .neg (← Expr.resolve meaning operand)
  | .call function args =>
    if (Builtin.ofName? function).isNone then .error (.unknownFunction function)
    else if args.length ≠ 1 then .error (.argumentCount function args.length)
    else do return .call function (← Expr.resolveAll meaning args)

/-- A list of expressions resolved from left to right. -/
def Expr.resolveAll (meaning : Ref → Except ResolveError (Expr α)) :
    List (Expr α) → Except ResolveError (List (Expr α))
  | [] => .ok []
  | e :: es => do
    let e ← Expr.resolve meaning e
    let es ← Expr.resolveAll meaning es
    return e :: es
end

/-- How many constants may lead from one to the next. -/
def constantDepth : Nat := 32

/-- What a reference means, when constants may still lead on `depth` times. -/
def Program.meaning (p : Program α) (depth : Nat) (scope : Scope α) (r : Ref) :
    Except ResolveError (Expr α) :=
  let component : Option Ref := match scope with
    | .instantiated stem owner =>
      if p.declares owner r.head then some ⟨stem ++ r.name, r.index⟩ else none
    | .binding _ => none
  match component with
  | some resolved => .ok (.ref resolved)
  | none =>
    if r.index.isSome then .error (.unknownArray r.name)
    else match p.constant? scope (segments r.name) with
    | none => .error (.unknownName r.name)
    | some (owner, constant) =>
      match depth with
      | 0 => .error (.circularConstant r.name)
      | rest + 1 =>
        match constant.binding with
        | none => .error (.constantWithoutValue r.name)
        | some binding => binding.resolve fun inner => p.meaning rest (.binding owner) inner

/-- An expression resolved where it is written. -/
def Program.resolve (p : Program α) (scope : Scope α) (e : Expr α) :
    Except ResolveError (Expr α) :=
  e.resolve (p.meaning constantDepth scope)

/-- The value of a declaration resolved, if there is one. -/
def Program.resolveOptional (p : Program α) (scope : Scope α) :
    Option (Expr α) → Except ResolveError (Option (Expr α))
  | none => .ok none
  | some e => do return some (← p.resolve scope e)

mutual
/-- A modifier with its values resolved: its own before those inside it. -/
def Program.resolveModifier (p : Program α) (scope : Scope α) :
    Modifier α → Except ResolveError (Modifier α)
  | ⟨name, each, value, children⟩ => do
    let value ← p.resolveOptional scope value
    let children ← p.resolveModifiers scope children
    return ⟨name, each, value, children⟩

/-- Modifiers with their values resolved, in the order they are written. -/
def Program.resolveModifiers (p : Program α) (scope : Scope α) :
    List (Modifier α) → Except ResolveError (List (Modifier α))
  | [] => .ok []
  | m :: rest => do
    let m ← p.resolveModifier scope m
    let rest ← p.resolveModifiers scope rest
    return m :: rest
end

mutual
/-- The functions called in a modifier. -/
def Modifier.calls : Modifier α → List String
  | ⟨_, _, value, children⟩ => value.toList.flatMap (·.calls) ++ Modifier.callsAll children

/-- The functions called in some modifiers. -/
def Modifier.callsAll : List (Modifier α) → List String
  | [] => []
  | m :: rest => Modifier.calls m ++ Modifier.callsAll rest
end

end Acausal
