-- The grammar of expressions. Sums and products group to the left and powers to the right; a
-- sign stands between products and powers, so that `-x^2` is the negative of a square, and a
-- minus sign in front of a literal becomes part of it.
import Acausal.Expr.Basic
import Acausal.Grammar.Basic

namespace Acausal

/-! ## Operators and references -/

/-- The operators of sums. -/
def sumOperator? : Char → Option Operator
  | '+' => some .add
  | '-' => some .sub
  | _ => none

/-- The operators of products. -/
def productOperator? : Char → Option Operator
  | '*' => some .mul
  | '/' => some .div
  | _ => none

/-- One of a choice of operators, if it comes next. -/
def operator? (choice : Char → Option Operator) :
    (ts : List Lexeme) → Option (Parsed Operator ts.length)
  | ⟨.symbol c, _⟩ :: rest => (choice c).map fun op => .leaving op rest
  | _ => none

/-- A component, with a subscript in brackets where there is one. -/
def reference (ts : List Lexeme) : Reading Ref ts.length :=
  match path ts with
  | .error e => .error e
  | .ok p =>
    match afterSymbol? '[' p.rest with
    | none => .ok (p.map fun name => ⟨name, none⟩)
    | some q =>
      match bracketed .badSubscript q.rest with
      | .error e => .error e
      | .ok r => .ok (p.andThen (q.andThen (r.map fun i => ⟨p.value, some i⟩)))

/-- A component in parentheses, as behind `der`. -/
def derivative (ts : List Lexeme) : Reading (Expr Float) ts.length :=
  match expectSymbol '(' ts with
  | .error e => .error e
  | .ok p =>
    match reference p.rest with
    | .error e => .error e
    | .ok q =>
      match expectSymbol ')' q.rest with
      | .error e => .error e
      | .ok r => .ok (p.andThen (q.andThen (r.map fun _ => .der q.value)))

/-- The negative of an expression; a literal takes the sign itself. -/
def negated : Expr Float → Expr Float
  | .number x => .number (-x)
  | e => .neg e

/-! ## Expressions -/

mutual
/-- A sum. -/
def expression (ts : List Lexeme) : Reading (Expr Float) ts.length :=
  match product ts with
  | .error e => .error e
  | .ok p =>
    match sumTail p.value p.rest with
    | .error e => .error e
    | .ok q => .ok (p.andMaybe q)
termination_by ts.length * 8 + 5
decreasing_by all_goals (try have := p.shorter); omega

/-- The rest of a sum behind its first terms. -/
def sumTail (left : Expr Float) (ts : List Lexeme) : Reading (Expr Float) (ts.length + 1) :=
  match operator? sumOperator? ts with
  | none => .ok (.leaving left ts)
  | some op =>
    match product op.rest with
    | .error e => .error e
    | .ok p =>
      match sumTail (.binary left op.value p.value) p.rest with
      | .error e => .error e
      | .ok q => .ok (op.andThen (p.andMaybe q)).widen
termination_by ts.length * 8 + 7
decreasing_by all_goals have h := op.shorter; (try have k := p.shorter); omega

/-- A product. -/
def product (ts : List Lexeme) : Reading (Expr Float) ts.length :=
  match signed ts with
  | .error e => .error e
  | .ok p =>
    match productTail p.value p.rest with
    | .error e => .error e
    | .ok q => .ok (p.andMaybe q)
termination_by ts.length * 8 + 4
decreasing_by all_goals (try have := p.shorter); omega

/-- The rest of a product behind its first factors. -/
def productTail (left : Expr Float) (ts : List Lexeme) :
    Reading (Expr Float) (ts.length + 1) :=
  match operator? productOperator? ts with
  | none => .ok (.leaving left ts)
  | some op =>
    match signed op.rest with
    | .error e => .error e
    | .ok p =>
      match productTail (.binary left op.value p.value) p.rest with
      | .error e => .error e
      | .ok q => .ok (op.andThen (p.andMaybe q)).widen
termination_by ts.length * 8 + 7
decreasing_by all_goals have h := op.shorter; (try have k := p.shorter); omega

/-- A power with any number of signs in front. -/
def signed (ts : List Lexeme) : Reading (Expr Float) ts.length :=
  match afterSymbol? '-' ts with
  | some sign =>
    match signed sign.rest with
    | .error e => .error e
    | .ok p => .ok (sign.andThen (p.map negated))
  | none =>
    match afterSymbol? '+' ts with
    | some sign =>
      match signed sign.rest with
      | .error e => .error e
      | .ok p => .ok (sign.andThen p)
    | none => power ts
termination_by ts.length * 8 + 3
decreasing_by all_goals (try have := sign.shorter); omega

/-- An operand, raised to a signed exponent where there is one. -/
def power (ts : List Lexeme) : Reading (Expr Float) ts.length :=
  match operand ts with
  | .error e => .error e
  | .ok p =>
    match afterSymbol? '^' p.rest with
    | none => .ok p
    | some caret =>
      match signed caret.rest with
      | .error e => .error e
      | .ok q => .ok (p.andThen (caret.andThen (q.map (.binary p.value .pow))))
termination_by ts.length * 8 + 2
decreasing_by all_goals (try have h := p.shorter); (try have k := caret.shorter); omega

/-- A literal, an expression in parentheses, the time, a derivative, a call or a component. -/
def operand (ts : List Lexeme) : Reading (Expr Float) ts.length :=
  match ts with
  | ⟨.number x, _⟩ :: rest => .ok (.leaving (.number x) rest)
  | ⟨.symbol '(', _⟩ :: rest =>
    match expression rest with
    | .error e => .error e
    | .ok p =>
      match expectSymbol ')' p.rest with
      | .error e => .error e
      | .ok q => .ok (p.andThen (q.map fun _ => p.value)).widen
  | ⟨.word "time", _⟩ :: rest => .ok (.leaving .time rest)
  | ⟨.word "true", _⟩ :: rest => .ok (.leaving (.number 1.0) rest)
  | ⟨.word "false", _⟩ :: rest => .ok (.leaving (.number 0.0) rest)
  | ⟨.word "der", _⟩ :: rest =>
    match derivative rest with
    | .error e => .error e
    | .ok p => .ok p.widen
  | ⟨.word w, place⟩ :: rest =>
    match reference (⟨.word w, place⟩ :: rest) with
    | .error e => .error e
    | .ok p =>
      match p.value.index, afterSymbol? '(' p.rest with
      | none, some opening =>
        match callArguments opening.rest with
        | .error e => .error e
        | .ok q => .ok (p.andThen (opening.andThen (q.map (.call p.value.name))))
      | _, _ => .ok (p.map .ref)
  | ts => .error ⟨.unexpectedLexeme, ts⟩
termination_by ts.length * 8 + 1
decreasing_by
  · simp only [List.length_cons]; omega
  · have := p.shorter; have := opening.shorter; omega

/-- The arguments of a call behind the opening parenthesis. -/
def callArguments (ts : List Lexeme) : Reading (List (Expr Float)) ts.length :=
  match afterSymbol? ')' ts with
  | some closing => .ok (closing.map fun _ => [])
  | none => arguments ts
termination_by ts.length * 8 + 7

/-- One or more arguments up to the closing parenthesis. -/
def arguments (ts : List Lexeme) : Reading (List (Expr Float)) ts.length :=
  match expression ts with
  | .error e => .error e
  | .ok p =>
    match afterSymbol? ')' p.rest with
    | some closing => .ok (p.andThen (closing.map fun _ => [p.value]))
    | none =>
      match expectSymbol ',' p.rest with
      | .error e => .error e
      | .ok comma =>
        match arguments comma.rest with
        | .error e => .error e
        | .ok q => .ok (p.andThen (comma.andThen (q.map (p.value :: ·))))
termination_by ts.length * 8 + 6
decreasing_by all_goals (try have h := p.shorter); (try have k := comma.shorter); omega
end

end Acausal
