-- Code for expressions. Operands are computed from left to right before their operator;
-- variables become loads of their slots and parameters become constants.
import Acausal.Code.Basic

namespace Acausal

/-! ## Errors -/

/-- Why an expression cannot be computed where it stands. -/
inductive CodeError where
  | unknownName (name : String)
  | derivative (r : Ref)
  | unknownFunction (name : String)
  | argumentCount (name : String) (count : Nat)
  deriving DecidableEq, Repr

def CodeError.message : CodeError → String
  | unknownName name => "unknown variable or parameter `" ++ name ++ "`"
  | derivative r => "der(" ++ r.flatName ++ ") may only appear on the left-hand side"
  | unknownFunction name => "unknown function `" ++ name ++ "`"
  | argumentCount name count =>
    "function `" ++ name ++ "` takes 1 argument, got " ++ toString count

/-! ## Slots and known values -/

/-- Known values by name, the newest first. -/
abbrev Valuation (α : Type) := List (String × α)

/-- The slot of a name; of several equal names the last has the slot. -/
def slotOf? (names : List String) (name : String) : Option Nat :=
  (names.reverse.findIdx? (· == name)).map fun i => names.length - 1 - i

/-! ## Compilation -/

variable {α : Type}

/-- Code that leaves the value of an expression on the stack. -/
def Expr.compile (slot? : String → Option Nat) (known : Valuation α) :
    Expr α → Except CodeError (Code α)
  | number value => .ok [.const value]
  | time => .ok [.time]
  | ref r =>
    match slot? r.flatName with
    | some slot => .ok [.load slot]
    | none =>
      match known.lookup r.flatName with
      | some value => .ok [.const value]
      | none => .error (.unknownName r.flatName)
  | der r => .error (.derivative r)
  | binary lhs op rhs => do
    let a ← compile slot? known lhs
    let b ← compile slot? known rhs
    return a ++ b ++ [.operate op]
  | neg operand => do return (← compile slot? known operand) ++ [.neg]
  | call function [arg] =>
    match Builtin.ofName? function with
    | none => .error (.unknownFunction function)
    | some f => do return (← compile slot? known arg) ++ [.call f]
  | call function args =>
    match Builtin.ofName? function with
    | none => .error (.unknownFunction function)
    | some _ => .error (.argumentCount function args.length)

/-- The value of an expression that reads known values only. -/
def Expr.evaluate [Zero α] [Add α] [Sub α] [Mul α] [Div α] [Neg α] [Elementary α]
    (known : Valuation α) (e : Expr α) : Except CodeError α := do
  let code ← e.compile (fun _ => none) known
  return code.value id #[] 0

end Acausal
