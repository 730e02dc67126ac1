-- Lexemes of a source text. A text is cut into numbers, words, quoted texts and symbols, each
-- with the line and column of its first character; blanks and comments fall away. Every cut
-- takes at least one character, so cutting ends.
import Acausal.Number.Read
import Acausal.Text.Letter

namespace Acausal

/-! ## Positions -/

/-- A place in a text; lines and columns count from one, columns in characters. -/
structure Position where
  line : Nat := 1
  column : Nat := 1
  deriving DecidableEq, Repr

/-- The place behind a character; only a line feed ends a line. -/
def Position.next (p : Position) (c : Char) : Position :=
  if c = '\n' then ⟨p.line + 1, 1⟩ else ⟨p.line, p.column + 1⟩

/-- The place behind a piece of text. -/
def Position.after (p : Position) (text : List Char) : Position := text.foldl Position.next p

/-! ## Lexemes -/

inductive Token where
  | number (value : Float)
  | word (name : String)
  | quoted (text : String)
  | symbol (c : Char)

structure Lexeme where
  token : Token
  position : Position

/-- The lexemes of a text and the place behind its last character. -/
structure Lexemes where
  list : List Lexeme
  stop : Position

/-- What cannot be cut into lexemes. -/
inductive LexicalProblem where
  | openComment
  | openQuote
  | malformedNumber (text : String)
  | strayCharacter (c : Char)
  deriving DecidableEq, Repr

def LexicalProblem.message : LexicalProblem → String
  | openComment => "unterminated comment"
  | openQuote => "unterminated string"
  | malformedNumber text => "invalid number `" ++ text ++ "`"
  | strayCharacter c => "unexpected character `" ++ String.singleton c ++ "`"

/-! ## One cut -/

/-- The characters that are lexemes by themselves. -/
def symbols : List Char :=
  ['(', ')', '[', ']', ';', ',', '=', '+', '-', '*', '/', '^', '.', ':']

/-- How many characters a comment has behind its opening, the closing included. -/
def commentLength? : List Char → Option Nat
  | [] => none
  | '*' :: '/' :: _ => some 2
  | _ :: rest => (commentLength? rest).map (· + 1)

/-- The exponent digits behind the `e` of a number, with a sign if there is one. -/
def exponentText : List Char → List Char
  | [] => []
  | c :: rest =>
    if c = '+' ∨ c = '-' then c :: rest.takeWhile Char.isDigit
    else (c :: rest).takeWhile Char.isDigit

/-- The number at the front of a text: digits and points, then at most one exponent. -/
def numberText (text : List Char) : List Char :=
  let mantissa := text.takeWhile fun c => c.isDigit || c == '.'
  match text.drop mantissa.length with
  | [] => mantissa
  | e :: rest => if e = 'e' ∨ e = 'E' then mantissa ++ e :: exponentText rest else mantissa

/-- A piece cut off the front of a text: what it stands for, if anything, and how many
characters it takes behind its first. -/
structure Cut where
  token : Option Token
  more : Nat

/-- The number, word, quoted text or symbol at the front of a text. -/
def cutToken (c : Char) (rest : List Char) : Except LexicalProblem Cut :=
  if c.isDigit || (c == '.' && rest.head?.any Char.isDigit) then
    let text := numberText (c :: rest)
    match readUnsigned? text with
    | some value => .ok ⟨some (.number value), text.length - 1⟩
    | none =>
      .error (.malformedNumber (String.ofList (text.map fun d => if d = 'E' then 'e' else d)))
  else if startsWord c then
    let more := rest.takeWhile continuesWord
    .ok ⟨some (.word (String.ofList (c :: more))), more.length⟩
  else if c = '"' then
    let body := rest.takeWhile (· != '"')
    if body.length < rest.length then
      .ok ⟨some (.quoted (String.ofList body)), body.length + 1⟩
    else .error .openQuote
  else if symbols.contains c then
    .ok ⟨some (.symbol c), 0⟩
  else
    .error (.strayCharacter c)

/-- The piece at the front of a text; blanks and comments stand for nothing. -/
def cut (c : Char) (rest : List Char) : Except LexicalProblem Cut :=
  if isBlank c then .ok ⟨none, 0⟩
  else match c, rest with
    | '/', '/' :: more => .ok ⟨none, 1 + (more.takeWhile (· != '\n')).length⟩
    | '/', '*' :: more =>
      match commentLength? more with
      | some n => .ok ⟨none, 1 + n⟩
      | none => .error .openComment
    | c, rest => cutToken c rest

/-! ## The whole text -/

/-- The lexemes of a text that starts at `p`, or the first problem and where it is. -/
def lexemesFrom (p : Position) : List Char → Except (LexicalProblem × Position) Lexemes
  | [] => .ok ⟨[], p⟩
  | c :: rest =>
    match cut c rest with
    | .error problem => .error (problem, p)
    | .ok piece =>
      match lexemesFrom (p.after (c :: rest.take piece.more)) (rest.drop piece.more) with
      | .error failure => .error failure
      | .ok later =>
        match piece.token with
        | some token => .ok { later with list := ⟨token, p⟩ :: later.list }
        | none => .ok later
termination_by text => text.length

/-- The lexemes of a text. -/
def lexemes (text : List Char) : Except (LexicalProblem × Position) Lexemes := lexemesFrom {} text

end Acausal
