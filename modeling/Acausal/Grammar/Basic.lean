-- Reading a list of lexemes from the front. A failure keeps the lexemes at which the reading
-- stood, which is where it is reported.
import Acausal.Number.Binary
import Acausal.Reading
import Acausal.Token

namespace Acausal

/-! ## Failures -/

/-- What a list of lexemes fails to be. -/
inductive GrammarProblem where
  | expectedSymbol (c : Char)
  | expectedWord
  | expectedClass
  | missingEnd (name : String)
  | mismatchedEnd (closing name : String)
  | badSize
  | badSubscript
  | emptyModifier (name : String)
  | unexpectedLexeme
  deriving DecidableEq, Repr

def GrammarProblem.message : GrammarProblem → String
  | expectedSymbol c => "expected `" ++ String.singleton c ++ "`"
  | expectedWord => "expected identifier"
  | expectedClass => "expected class definition"
  | missingEnd name => "missing `end " ++ name ++ ";`"
  | mismatchedEnd closing name => "`end " ++ closing ++ "` does not match class `" ++ name ++ "`"
  | badSize => "array size must be a positive integer literal"
  | badSubscript => "subscript must be a positive integer literal"
  | emptyModifier name => "modifier `" ++ name ++ "` has no value"
  | unexpectedLexeme => "unexpected token in expression"

/-- A problem and the lexemes that were left where it showed. -/
structure Failure where
  problem : GrammarProblem
  rest : List Lexeme

/-! ## Readings -/

/-- A value read from the front of a list of lexemes, which had `n` of them. -/
abbrev Parsed (β : Type) (n : Nat) := Taken Lexeme β n

/-- The outcome of reading from a list of `n` lexemes. -/
abbrev Reading (β : Type) (n : Nat) := Except Failure (Parsed β n)

/-! ## Single lexemes -/

/-- What is left behind a given symbol, if it comes next. -/
def afterSymbol? (c : Char) : (ts : List Lexeme) → Option (Parsed Unit ts.length)
  | ⟨.symbol d, _⟩ :: rest => if d = c then some (.leaving () rest) else none
  | _ => none

/-- What is left behind a given word, if it comes next. -/
def afterWord? (word : String) : (ts : List Lexeme) → Option (Parsed Unit ts.length)
  | ⟨.word w, _⟩ :: rest => if w = word then some (.leaving () rest) else none
  | _ => none

/-- A quoted text, if it comes next. -/
def quotedText? : (ts : List Lexeme) → Option (Parsed String ts.length)
  | ⟨.quoted text, _⟩ :: rest => some (.leaving text rest)
  | _ => none

/-- A given symbol, which has to come next. -/
def expectSymbol (c : Char) (ts : List Lexeme) : Reading Unit ts.length :=
  match afterSymbol? c ts with
  | some p => .ok p
  | none => .error ⟨.expectedSymbol c, ts⟩

/-- Any word, which has to come next. -/
def expectWord : (ts : List Lexeme) → Reading String ts.length
  | ⟨.word w, _⟩ :: rest => .ok (.leaving w rest)
  | ts => .error ⟨.expectedWord, ts⟩

/-- The segments behind the first one of a dotted name. -/
def pathTail (name : String) : (ts : List Lexeme) → Parsed String (ts.length + 1)
  | ⟨.symbol '.', _⟩ :: ⟨.word w, _⟩ :: rest =>
    (pathTail (name ++ "." ++ w) rest).widen.widen
  | ts => .leaving name ts

/-- A dotted name. -/
def path (ts : List Lexeme) : Reading String ts.length :=
  match expectWord ts with
  | .error e => .error e
  | .ok p => .ok (p.andMaybe (pathTail p.value p.rest))

/-- A size or subscript with its closing bracket. A wrong lexeme in its place is passed over
before it is reported. -/
def bracketed (problem : GrammarProblem) : (ts : List Lexeme) → Reading Nat ts.length
  | ⟨.number x, _⟩ :: rest =>
    match count? x with
    | none => .error ⟨problem, rest⟩
    | some n =>
      match expectSymbol ']' rest with
      | .error e => .error e
      | .ok p => .ok (p.map fun _ => n).widen
  | _ :: rest => .error ⟨problem, rest⟩
  | [] => .error ⟨problem, []⟩

end Acausal
