-- Quoted texts of settings, on one line or on several, with escapes or word for word. A reader
-- is given what follows the opening quote and goes past the closing one.
import Acausal.Reading
import Acausal.Toml.Scalar

namespace Acausal

namespace Toml

/-- A value read from the front of a text of `n` characters. -/
abbrev Piece (β : Type) (n : Nat) := Taken Char β n

/-! ## Characters -/

/-- The two ways to quote. -/
inductive Quoting where
  /-- Between double quotes, where a backslash starts an escape. -/
  | basic
  /-- Between single quotes, where every character stands for itself. -/
  | literal
  deriving DecidableEq, Repr

def Quoting.mark : Quoting → Char
  | basic => '"'
  | literal => '\''

/-- Characters that may stand in a text as they are: all but control characters, except tabs. -/
def isPlain (c : Char) : Bool := c = '\t' || (' ' ≤ c && c != '\x7f')

/-- What is left behind a given character, if it comes next. -/
def afterCharacter? (c : Char) : (cs : List Char) → Option (Piece Unit cs.length)
  | d :: rest => if d = c then some (.leaving () rest) else none
  | [] => none

/-- Reads a character from so many hexadecimal digits. -/
def hexCharacter? (width : Nat) (cs : List Char) : Option (Piece Char (cs.length + 1)) :=
  let digits := cs.take width
  let code := valueOf 16 digits
  if digits.length = width && digits.all (isDigitOf 16) && Nat.isValidChar code then
    some (.dropping (Char.ofNat code) width cs)
  else none

/-- Reads what an escape stands for, from behind its backslash. -/
def escape? : (cs : List Char) → Option (Piece Char cs.length)
  | 'b' :: rest => some (.leaving '\x08' rest)
  | 't' :: rest => some (.leaving '\t' rest)
  | 'n' :: rest => some (.leaving '\n' rest)
  | 'f' :: rest => some (.leaving '\x0c' rest)
  | 'r' :: rest => some (.leaving '\r' rest)
  | '"' :: rest => some (.leaving '"' rest)
  | '\\' :: rest => some (.leaving '\\' rest)
  | 'u' :: rest => hexCharacter? 4 rest
  | 'U' :: rest => hexCharacter? 8 rest
  | _ => none

/-! ## On one line -/

/-- The rest of a text on one line. -/
def line? (quoting : Quoting) (cs : List Char) : Option (Piece (List Char) cs.length) :=
  match cs with
  | [] => none
  | c :: rest =>
    if c = quoting.mark then some (.leaving [] rest)
    else if c = '\\' ∧ quoting = .basic then
      match escape? rest with
      | none => none
      | some e =>
        (line? quoting e.rest).map fun p => (e.andThen (p.map (e.value :: ·))).widen
    else if isPlain c then (line? quoting rest).map fun p => (p.map (c :: ·)).widen
    else none
termination_by cs.length
decreasing_by
  · exact Nat.lt_succ_of_lt e.shorter
  · exact Nat.lt_succ_self rest.length

/-! ## On several lines -/

/-- How many characters a line end at the front takes. -/
def lineEndLength : List Char → Nat
  | '\n' :: _ => 1
  | '\r' :: '\n' :: _ => 2
  | _ => 0

/-- What is left behind a line end, or everything where there is none. -/
def optionalLineEnd (cs : List Char) : Piece Unit (cs.length + 1) :=
  .dropping () (lineEndLength cs) cs

/-- How many characters the blanks and line ends at the front take. -/
def gapLength : List Char → Nat
  | ' ' :: rest => gapLength rest + 1
  | '\t' :: rest => gapLength rest + 1
  | '\n' :: rest => gapLength rest + 1
  | '\r' :: '\n' :: rest => gapLength rest + 2
  | _ => 0

/-- What is left behind a continuation from behind its backslash: blanks, a line end, and then
all blanks and line ends that follow. -/
def continuation? (cs : List Char) : Option (Piece Unit (cs.length + 1)) :=
  let blanks := (cs.takeWhile fun c => c = ' ' || c = '\t').length
  let lineEnd := lineEndLength (cs.drop blanks)
  if lineEnd = 0 then none
  else some (.dropping () (blanks + lineEnd + gapLength (cs.drop (blanks + lineEnd))) cs)

/-- The rest of a text on several lines, which three quotes close; up to two quotes right before
them are part of the text. A line end of any kind counts as a line feed. -/
def block? (quoting : Quoting) (cs : List Char) : Option (Piece (List Char) cs.length) :=
  match cs with
  | [] => none
  | c :: rest =>
    if c = quoting.mark then
      let more := (rest.takeWhile (· == quoting.mark)).length
      if more < 2 then (block? quoting rest).map fun p => (p.map (c :: ·)).widen
      else
        let kept := min (more - 2) 2
        some (.dropping (List.replicate kept c) (kept + 2) rest)
    else if c = '\\' ∧ quoting = .basic then
      match continuation? rest with
      | some gap => (block? quoting gap.rest).map fun p => (gap.maybeThen p).widen
      | none =>
        match escape? rest with
        | none => none
        | some e =>
          (block? quoting e.rest).map fun p => (e.andThen (p.map (e.value :: ·))).widen
    else if isPlain c || c = '\n' then
      (block? quoting rest).map fun p => (p.map (c :: ·)).widen
    else if c = '\r' ∧ rest.head? = some '\n' then
      (block? quoting rest).map fun p => p.widen
    else none
termination_by cs.length
decreasing_by
  · exact Nat.lt_succ_self rest.length
  · exact gap.shorter
  · exact Nat.lt_succ_of_lt e.shorter
  · exact Nat.lt_succ_self rest.length
  · exact Nat.lt_succ_self rest.length

/-! ## Any quoted text -/

/-- A quoted text behind its first quote. A line end right behind three opening quotes is not
part of it. -/
def quoted? (quoting : Quoting) (cs : List Char) : Option (Piece String (cs.length + 1)) :=
  match cs with
  | a :: b :: rest =>
    if a = quoting.mark ∧ b = quoting.mark then
      let start := optionalLineEnd rest
      (block? quoting start.rest).map fun p =>
        (start.maybeThen (p.map String.ofList)).widen.widen.widen
    else (line? quoting (a :: b :: rest)).map fun p => (p.map String.ofList).widen
  | cs => (line? quoting cs).map fun p => (p.map String.ofList).widen

end Toml

end Acausal
