-- Reading decimal number texts. The text is split into sign, digits and exponent, and the
-- double nearest to that exact decimal is taken; a text too large is infinite and one too
-- small is zero.

namespace Acausal

/-! ## From digits to a double -/

/-- The natural number that a run of decimal digits stands for. -/
def digitsValue (digits : List Char) : Nat :=
  digits.foldl (fun n d => 10 * n + (d.toNat - '0'.toNat)) 0

/-- The double nearest to `coefficient * 10 ^ exponent`. Exponents far outside the range of
doubles are settled without raising ten to them. -/
def nearestDouble (coefficient : Nat) (exponent : Int) : Float :=
  let size : Int := (Nat.toDigits 10 coefficient).length + exponent
  if coefficient = 0 ∨ size < -400 then 0.0
  else if 400 < size then 1.0 / 0.0
  else match exponent with
    | .ofNat n => Float.ofScientific coefficient false n
    | .negSucc n => Float.ofScientific coefficient true (n + 1)

/-! ## The grammar of number texts -/

/-- A sign and what follows it. -/
def splitSign : List Char → Bool × List Char
  | '-' :: rest => (true, rest)
  | '+' :: rest => (false, rest)
  | rest => (false, rest)

/-- The exponent part, with its sign: empty text, or an `e` and at least one digit. -/
def readExponent? : List Char → Option Int
  | [] => some 0
  | e :: rest =>
    let (negative, digits) := splitSign rest
    if (e = 'e' ∨ e = 'E') ∧ digits ≠ [] ∧ digits.all Char.isDigit then
      some (if negative then -(digitsValue digits : Int) else digitsValue digits)
    else none

/-- An unsigned number: digits with at most one point, then an exponent. The point may come
first or last, but not without a digit. -/
def readUnsigned? (text : List Char) : Option Float :=
  let whole := text.takeWhile Char.isDigit
  let (fraction, rest) := match text.dropWhile Char.isDigit with
    | '.' :: rest => (rest.takeWhile Char.isDigit, rest.dropWhile Char.isDigit)
    | rest => ([], rest)
  if whole.isEmpty && fraction.isEmpty then none
  else (readExponent? rest).map fun exponent =>
    nearestDouble (digitsValue (whole ++ fraction)) (exponent - fraction.length)

/-- The words for values that have no digits, in any case of letters. -/
def readWord? (text : List Char) : Option Float :=
  match String.ofList (text.map Char.toLower) with
  | "inf" => some (1.0 / 0.0)
  | "infinity" => some (1.0 / 0.0)
  | "nan" => some (0.0 / 0.0)
  | _ => none

/-- A number text with an optional sign. -/
def readNumber? (text : List Char) : Option Float :=
  let (negative, rest) := splitSign text
  ((readUnsigned? rest).orElse fun _ => readWord? rest).map fun x => if negative then -x else x

end Acausal
