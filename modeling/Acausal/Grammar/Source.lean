-- The grammar of a source text: an optional `within` clause and then classes up to the end.
-- Whatever goes wrong is reported with the path of the text and the line and column at which
-- the reading stood.
import Acausal.Grammar.Declaration

namespace Acausal

/-! ## Errors -/

inductive SyntaxProblem where
  | lexical (problem : LexicalProblem)
  | grammar (problem : GrammarProblem)
  deriving DecidableEq, Repr

def SyntaxProblem.message : SyntaxProblem → String
  | lexical problem => problem.message
  | grammar problem => problem.message

/-- A source text that is no program. -/
structure SyntaxError where
  path : String
  position : Position
  problem : SyntaxProblem
  deriving DecidableEq, Repr

def SyntaxError.message (e : SyntaxError) : String :=
  e.path ++ ":" ++ toString e.position.line ++ ":" ++ toString e.position.column ++ ": " ++
    e.problem.message

/-! ## Source texts -/

/-- The classes up to the end of a text. -/
def classes (ts : List Lexeme) : Except Failure (List (ClassDecl Float)) :=
  if ts.isEmpty then .ok []
  else
    match classDecl ts with
    | .error e => .error e
    | .ok p =>
      match classes p.rest with
      | .error e => .error e
      | .ok more => .ok (p.value :: more)
termination_by ts.length
decreasing_by exact p.shorter

/-- What a `within` clause names behind its keyword; nothing is made of it. -/
def withinClause (ts : List Lexeme) : Reading Unit ts.length :=
  match afterSymbol? ';' ts with
  | some stop => .ok stop
  | none =>
    match path ts with
    | .error e => .error e
    | .ok p =>
      match expectSymbol ';' p.rest with
      | .error e => .error e
      | .ok stop => .ok (p.andThen stop)

/-- The classes of a source text given as lexemes. -/
def sourceClasses (ts : List Lexeme) : Except Failure (List (ClassDecl Float)) :=
  match afterWord? "within" ts with
  | none => classes ts
  | some word =>
    match withinClause word.rest with
    | .error e => .error e
    | .ok p => classes p.rest

/-- Where the first of some lexemes stands, or the end of the text. -/
def placeOf (stop : Position) : List Lexeme → Position
  | [] => stop
  | lexeme :: _ => lexeme.position

/-- A source text as a syntax tree. -/
def parseSource (path text : String) : Except SyntaxError (SourceFile Float) :=
  match lexemes text.toList with
  | .error (problem, position) => .error ⟨path, position, .lexical problem⟩
  | .ok found =>
    match sourceClasses found.list with
    | .error failure =>
      .error ⟨path, placeOf found.stop failure.rest, .grammar failure.problem⟩
    | .ok classes => .ok ⟨path, classes⟩

end Acausal
