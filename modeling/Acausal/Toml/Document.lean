-- The text of a document of settings. A document is a run of lines, each an entry, a header or
-- nothing; a value goes to several lines only between brackets or three quotes. Values stand in
-- one another to a fixed depth, which is what reading them recurses on.
import Acausal.Toml.Quoted

namespace Acausal

namespace Toml

/-! ## Blanks and comments -/

def isSpace (c : Char) : Bool := c = ' ' || c = '\t'

/-- Past the spaces at the front. -/
def spaces (cs : List Char) : Piece Unit (cs.length + 1) :=
  .dropping () (cs.takeWhile isSpace).length cs

/-- Past the spaces, line ends and comments at the front, from inside a comment or not. -/
def afterGap (inComment : Bool) : List Char → List Char
  | [] => []
  | c :: rest =>
    if inComment && isPlain c then afterGap true rest
    else if isSpace c || c = '\n' || (c = '\r' && rest.head? = some '\n') then afterGap false rest
    else if c = '#' then afterGap true rest
    else c :: rest

theorem length_afterGap (inComment : Bool) (cs : List Char) :
    (afterGap inComment cs).length ≤ cs.length := by
  induction cs generalizing inComment with
  | nil => simp [afterGap]
  | cons c rest ih =>
    have later := fun b => Nat.le_succ_of_le (ih b)
    unfold afterGap
    split
    · exact later true
    · split
      · exact later false
      · split
        · exact later true
        · exact Nat.le_refl _

/-- Past the spaces, line ends and comments at the front. -/
def gap (cs : List Char) : Piece Unit (cs.length + 1) :=
  ⟨(), afterGap false cs, Nat.lt_succ_of_le (length_afterGap false cs)⟩

/-- Past a comment at the front, if there is one. -/
def optionalComment : (cs : List Char) → Piece Unit (cs.length + 1)
  | '#' :: rest => (Taken.dropping () (rest.takeWhile isPlain).length rest).widen
  | cs => .leaving () cs

/-- Past the end of a line, with a comment before it or not; a document may end instead. -/
def lineEnd? (cs : List Char) : Option (Piece Unit (cs.length + 1)) :=
  let blanks := spaces cs
  let comment := optionalComment blanks.rest
  if lineEndLength comment.rest = 0 && !comment.rest.isEmpty then none
  else some (blanks.andMaybe (comment.andMaybe (optionalLineEnd comment.rest)))

/-! ## Keys -/

/-- Characters of names without quotes. -/
def isBareLetter (c : Char) : Bool :=
  ('a' ≤ c && c ≤ 'z') || ('A' ≤ c && c ≤ 'Z') || c.isDigit || c = '_' || c = '-'

/-- A single name, with quotes or without. -/
def name? : (cs : List Char) → Option (Piece String cs.length)
  | [] => none
  | c :: rest =>
    if c = '"' then (line? .basic rest).map fun p => (p.map String.ofList).widen
    else if c = '\'' then (line? .literal rest).map fun p => (p.map String.ofList).widen
    else if isBareLetter c then
      let more := rest.takeWhile isBareLetter
      some (.dropping (String.ofList (c :: more)) more.length rest)
    else none

/-- How many names a key has at most. -/
def keyLimit : Nat := 79

/-- Names with points between them, at most so many, and what follows them and their spaces. -/
def key? (limit : Nat) (cs : List Char) : Option (Piece Key cs.length) :=
  match limit with
  | 0 => none
  | limit + 1 =>
    let start := spaces cs
    match name? start.rest with
    | none => none
    | some first =>
      let blanks := spaces first.rest
      match afterCharacter? '.' blanks.rest with
      | none => some (start.maybeThen (first.andMaybe (blanks.map fun _ => ⟨[], first.value⟩)))
      | some point =>
        (key? limit point.rest).map fun p =>
          start.maybeThen (first.andThen (blanks.maybeThen (point.andThen
            (p.map fun key => ⟨first.value :: key.path, key.name⟩))))

/-! ## Values -/

/-- A reader of values. -/
abbrev ValueReader := (cs : List Char) → Option (Piece Toml cs.length)

/-- Characters of words. -/
def isWordLetter (c : Char) : Bool := isBareLetter c || c = '+' || c = '.' || c = ':'

/-- The word at the front; a date may have its time in a second one behind a space. -/
def wordText (cs : List Char) : List Char :=
  let word := cs.takeWhile isWordLetter
  match cs.drop word.length with
  | ' ' :: rest =>
    let longer := word ++ ' ' :: rest.takeWhile isWordLetter
    if (moment? longer).isSome then longer else word
  | _ => word

/-- A value of one word. -/
def word? : ValueReader
  | [] => none
  | c :: rest =>
    let word := wordText (c :: rest)
    (ofWord? word).map fun value => .dropping value (word.length - 1) rest

/-- The items of an array up to its closing bracket; a comma may follow the last one. -/
def items? (element : ValueReader) (cs : List Char) : Option (Piece (List Toml) (cs.length + 1)) :=
  let start := gap cs
  match afterCharacter? ']' start.rest with
  | some closing => some (start.maybeThen (closing.map fun _ => [])).widen
  | none =>
    match element start.rest with
    | none => none
    | some first =>
      let blanks := gap first.rest
      match afterCharacter? ']' blanks.rest with
      | some closing =>
        some (start.maybeThen (first.andThen (blanks.maybeThen
          (closing.map fun _ => [first.value])))).widen
      | none =>
        match afterCharacter? ',' blanks.rest with
        | none => none
        | some comma =>
          (items? element comma.rest).map fun p =>
            (start.maybeThen (first.andThen (blanks.maybeThen (comma.andMaybe
              (p.map (first.value :: ·)))))).widen
termination_by cs.length
decreasing_by exact (start.maybeThen (first.andThen (blanks.maybeThen comma))).shorter

/-- An entry: a key, an equals sign and a value. -/
def pair? (element : ValueReader) (cs : List Char) : Option (Piece (Key × Toml) cs.length) :=
  match key? keyLimit cs with
  | none => none
  | some key =>
    match afterCharacter? '=' key.rest with
    | none => none
    | some sign =>
      let blanks := spaces sign.rest
      (element blanks.rest).map fun p =>
        key.andThen (sign.andThen (blanks.maybeThen (p.map fun value => (key.value, value))))

/-- The entries of a table between braces, from its first entry up to its closing brace. -/
def pairs? (element : ValueReader) (cs : List Char) :
    Option (Piece (List (Key × Toml)) cs.length) :=
  match pair? element cs with
  | none => none
  | some first =>
    let blanks := spaces first.rest
    match afterCharacter? '\x7d' blanks.rest with
    | some closing =>
      some (first.andThen (blanks.maybeThen (closing.map fun _ => [first.value])))
    | none =>
      match afterCharacter? ',' blanks.rest with
      | none => none
      | some comma =>
        (pairs? element comma.rest).map fun p =>
          first.andThen (blanks.maybeThen (comma.andThen (p.map (first.value :: ·))))
termination_by cs.length
decreasing_by exact (first.andThen (blanks.maybeThen comma)).shorter

/-- A table between braces behind the opening one. -/
def braced? (element : ValueReader) (cs : List Char) : Option (Piece Toml (cs.length + 1)) :=
  let start := spaces cs
  match afterCharacter? '\x7d' start.rest with
  | some closing => some (start.maybeThen (closing.map fun _ => table .inline [])).widen
  | none =>
    match pairs? element start.rest with
    | none => none
    | some p =>
      (ofPairs? p.value).map fun value => (start.maybeThen (p.map fun _ => value)).widen

/-- How deep arrays and tables may stand in one another. -/
def depthLimit : Nat := 79

/-- A value with arrays and tables to a given depth. -/
def value? : (depth : Nat) → ValueReader
  | _, [] => none
  | depth, c :: rest =>
    if c = '"' then
      (quoted? .basic rest).map fun p => p.map string
    else if c = '\'' then
      (quoted? .literal rest).map fun p => p.map string
    else if c = '[' then
      match depth with
      | 0 => none
      | depth + 1 => (items? (value? depth) rest).map fun p => p.map array
    else if c = '\x7b' then
      match depth with
      | 0 => none
      | depth + 1 => braced? (value? depth) rest
    else word? (c :: rest)

/-! ## Lines -/

/-- A header behind its brackets: a key and the brackets that close it. -/
def header? (closing : List Char) (cs : List Char) : Option (Piece Key cs.length) :=
  match key? keyLimit cs with
  | none => none
  | some key =>
    if closing.isPrefixOf key.rest then
      some (key.andMaybe (.dropping key.value closing.length key.rest))
    else none

/-- A header or an entry. -/
def statement? : (cs : List Char) → Option (Piece Statement cs.length)
  | '[' :: '[' :: rest =>
    (header? [']', ']'] rest).map fun p => (p.map .rowHeader).widen.widen
  | '[' :: rest => (header? [']'] rest).map fun p => (p.map .header).widen
  | cs => (pair? (value? depthLimit) cs).map fun p => p.map fun pair => .entry pair.1 pair.2

/-- The statements of a text, each at the end of its line. -/
def statements? (cs : List Char) : Option (List Statement) :=
  let start := gap cs
  if start.rest.isEmpty then some []
  else
    match statement? start.rest with
    | none => none
    | some first =>
      match lineEnd? first.rest with
      | none => none
      | some stop => (statements? stop.rest).map (first.value :: ·)
termination_by cs.length
decreasing_by exact (start.maybeThen (first.andMaybe stop)).shorter

/-- A text without the mark of its encoding at the front. -/
def withoutMark : List Char → List Char
  | '\ufeff' :: rest => rest
  | cs => cs

/-- The document that a text holds. -/
def document? (text : String) : Option Toml :=
  (statements? (withoutMark text.toList)).bind ofStatements?

end Toml

end Acausal
