-- The grammar of modifications: lists of modifiers in parentheses, to any depth. A modifier
-- with a quoted text as its value, such as a unit, says nothing about numbers and is dropped;
-- any other modifier needs a value or modifiers of its own.
import Acausal.Grammar.Expression
import Acausal.Syntax

namespace Acausal

/-- Passes over a word if it comes next; tells whether it did. -/
def optionalWord (word : String) (ts : List Lexeme) : Parsed Bool (ts.length + 1) :=
  match afterWord? word ts with
  | some p => (p.map fun _ => true).widen
  | none => .leaving false ts

/-- What a modifier is set to behind its name and children. -/
inductive ModifierValue where
  | absent
  | quoted
  | number (value : Expr Float)

/-- The value of a modifier, if an equals sign comes next. -/
def modifierValue (ts : List Lexeme) : Reading ModifierValue (ts.length + 1) :=
  match afterSymbol? '=' ts with
  | none => .ok (.leaving .absent ts)
  | some sign =>
    match quotedText? sign.rest with
    | some p => .ok (sign.andThen (p.map fun _ => .quoted)).widen
    | none =>
      match expression sign.rest with
      | .error e => .error e
      | .ok p => .ok (sign.andThen (p.map .number)).widen

/-- What a modifier amounts to, given its parts. -/
def combineModifier (name : String) (each : Bool) (children : List (Modifier Float)) :
    ModifierValue → Except GrammarProblem (Option (Modifier Float))
  | .quoted => .ok none
  | .number value => .ok (some ⟨name, each, some value, children⟩)
  | .absent =>
    if children.isEmpty then .error (.emptyModifier name)
    else .ok (some ⟨name, each, none, children⟩)

mutual
/-- Modifiers in parentheses. -/
def modification (ts : List Lexeme) : Reading (List (Modifier Float)) ts.length :=
  match expectSymbol '(' ts with
  | .error e => .error e
  | .ok opening =>
    match afterSymbol? ')' opening.rest with
    | some closing => .ok (opening.andThen (closing.map fun _ => []))
    | none =>
      match modifiers opening.rest with
      | .error e => .error e
      | .ok p => .ok (opening.andThen p)
termination_by ts.length * 4
decreasing_by have := opening.shorter; omega

/-- One or more modifiers up to the closing parenthesis. -/
def modifiers (ts : List Lexeme) : Reading (List (Modifier Float)) ts.length :=
  match modifier ts with
  | .error e => .error e
  | .ok p =>
    match afterSymbol? ')' p.rest with
    | some closing => .ok (p.andThen (closing.map fun _ => p.value.toList))
    | none =>
      match expectSymbol ',' p.rest with
      | .error e => .error e
      | .ok comma =>
        match modifiers comma.rest with
        | .error e => .error e
        | .ok q => .ok (p.andThen (comma.andThen (q.map (p.value.toList ++ ·))))
termination_by ts.length * 4 + 2
decreasing_by all_goals (try have h := p.shorter); (try have k := comma.shorter); omega

/-- One modifier, or nothing where it is dropped. -/
def modifier (ts : List Lexeme) : Reading (Option (Modifier Float)) ts.length :=
  let each := optionalWord "each" ts
  let final := optionalWord "final" each.rest
  match expectWord final.rest with
  | .error e => .error e
  | .ok name =>
    match optionalModification name.rest with
    | .error e => .error e
    | .ok children =>
      match modifierValue children.rest with
      | .error e => .error e
      | .ok value =>
        match combineModifier name.value each.value children.value value.value with
        | .error problem => .error ⟨problem, value.rest⟩
        | .ok result =>
          .ok (each.maybeThen (final.maybeThen (name.andMaybe (children.andMaybe
            (value.map fun _ => result)))))
termination_by ts.length * 4 + 1
decreasing_by
  have := each.shorter; have := final.shorter; have := name.shorter
  omega

/-- Modifiers in parentheses, if a parenthesis comes next. -/
def optionalModification (ts : List Lexeme) :
    Reading (List (Modifier Float)) (ts.length + 1) :=
  match afterSymbol? '(' ts with
  | none => .ok (.leaving [] ts)
  | some _ =>
    match modification ts with
    | .error e => .error e
    | .ok p => .ok p.widen
termination_by ts.length * 4 + 1
end

end Acausal
