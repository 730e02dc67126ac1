-- The undivided values of settings: numbers, flags, dates and times. Each is one word of a text,
-- read as a whole, so a word that only starts like a value is none.
import Acausal.Number.Read
import Acausal.Toml.Value

namespace Acausal

namespace Toml

/-! ## Digits -/

/-- The value of a digit in bases up to sixteen. -/
def digitValue (c : Char) : Nat :=
  if c.isDigit then c.toNat - '0'.toNat else c.toLower.toNat - 'a'.toNat + 10

/-- Whether a character is a digit of a base. -/
def isDigitOf (base : Nat) (c : Char) : Bool :=
  (c.isDigit || ('a' ≤ c.toLower && c.toLower ≤ 'f')) && digitValue c < base

/-- The natural number that digits of a base stand for. -/
def valueOf (base : Nat) (digits : List Char) : Nat :=
  digits.foldl (fun n d => base * n + digitValue d) 0

/-- Digits without the underscores that may stand between two of them. -/
def digits? (base : Nat) : List Char → Option (List Char)
  | [] => none
  | [d] => if isDigitOf base d then some [d] else none
  | d :: '_' :: rest => if isDigitOf base d then (digits? base rest).map (d :: ·) else none
  | d :: rest => if isDigitOf base d then (digits? base rest).map (d :: ·) else none

/-- Decimal digits of which the first is a zero only if it is the only one. -/
def wholeDigits? (text : List Char) : Option (List Char) :=
  (digits? 10 text).filter fun digits => digits.length = 1 || digits.head? != some '0'

/-! ## Numbers -/

/-- How many integers of each sign 64 bits hold. -/
def integerLimit : Nat := Nat.pow 2 63

/-- An integer in 64 bits. -/
def inRange? (n : Int) : Option Toml :=
  if -integerLimit ≤ n ∧ n < integerLimit then some (integer n) else none

def integer? (text : List Char) : Option Toml :=
  match text with
  | '0' :: 'x' :: rest => (digits? 16 rest).bind fun d => inRange? (valueOf 16 d)
  | '0' :: 'o' :: rest => (digits? 8 rest).bind fun d => inRange? (valueOf 8 d)
  | '0' :: 'b' :: rest => (digits? 2 rest).bind fun d => inRange? (valueOf 2 d)
  | text =>
    let (negative, rest) := splitSign text
    (wholeDigits? rest).bind fun d =>
      inRange? (if negative then -(valueOf 10 d : Int) else valueOf 10 d)

/-- The digits behind the point, if there is one. -/
def fraction? : List Char → Option (List Char)
  | [] => some []
  | '.' :: rest => digits? 10 rest
  | _ => none

/-- The exponent, with its `e`, if there is one. -/
def exponent? : List Char → Option Int
  | [] => some 0
  | _ :: rest =>
    let (negative, text) := splitSign rest
    (digits? 10 text).map fun d => if negative then -(valueOf 10 d : Int) else valueOf 10 d

/-- Digits with a fraction, an exponent or both. -/
def decimal? (text : List Char) : Option Float := do
  let mantissa := text.takeWhile fun c => c != 'e' && c != 'E'
  let whole := mantissa.takeWhile (· != '.')
  if whole.length = text.length then none else
    let wholeDigits ← wholeDigits? whole
    let fraction ← fraction? (mantissa.drop whole.length)
    let exponent ← exponent? (text.drop mantissa.length)
    return nearestDouble (valueOf 10 (wholeDigits ++ fraction)) (exponent - fraction.length)

/-- A number with digits that is too large to have a double is none; one that is too small in
the negative is minus infinity. -/
def float? (text : List Char) : Option Toml := do
  let (negative, rest) := splitSign text
  match rest with
  | ['i', 'n', 'f'] => return float (if negative then -1.0 / 0.0 else 1.0 / 0.0)
  | ['n', 'a', 'n'] => return float (0.0 / 0.0)
  | rest =>
    let x ← decimal? rest
    if negative then return float (-x) else if x.isInf then none else return float x

/-! ## Dates and times -/

/-- A number of exactly so many digits, within bounds. -/
def fixed? (width low high : Nat) (text : List Char) : Option Nat :=
  if text.length = width && text.all Char.isDigit && low ≤ digitsValue text &&
      digitsValue text ≤ high then
    some (digitsValue text)
  else none

def daysInMonth (year month : Nat) : Nat :=
  if month = 2 then if year % 4 = 0 && (year % 100 != 0 || year % 400 = 0) then 29 else 28
  else if month = 4 || month = 6 || month = 9 || month = 11 then 30
  else 31

def isDate (text : List Char) : Bool :=
  text.length = 10 && text[4]? == some '-' && text[7]? == some '-' &&
    ((fixed? 4 0 9999 (text.take 4)).any fun year =>
      (fixed? 2 1 12 ((text.drop 5).take 2)).any fun month =>
        (fixed? 2 1 (daysInMonth year month) (text.drop 8)).isSome)

/-- An hour and a minute with a colon between them. -/
def isClock (text : List Char) : Bool :=
  text.length = 5 && text[2]? == some ':' && (fixed? 2 0 23 (text.take 2)).isSome &&
    (fixed? 2 0 59 (text.drop 3)).isSome

/-- The fraction of a second to nine places, without zeros at its end. -/
def secondFraction? : List Char → Option String
  | [] => some ""
  | '.' :: digits =>
    if digits.isEmpty || !digits.all Char.isDigit then none
    else match ((digits.take 9).reverse.dropWhile (· == '0')).reverse with
      | [] => some ""
      | kept => some ("." ++ String.ofList kept)
  | _ => none

/-- A time of day in its standard spelling. -/
def time? (text : List Char) : Option String :=
  if isClock (text.take 5) && text[5]? == some ':' &&
      (fixed? 2 0 60 ((text.drop 6).take 2)).isSome then
    (secondFraction? (text.drop 8)).map (String.ofList (text.take 8) ++ ·)
  else none

/-- The distance from universal time in its standard spelling. -/
def offset? : List Char → Option String
  | [] => some ""
  | ['Z'] => some "Z"
  | ['z'] => some "Z"
  | sign :: clock =>
    if (sign = '+' || sign = '-') && isClock clock then
      let forwards := sign = '+' || clock = ['0', '0', ':', '0', '0']
      some ((if forwards then "+" else "-") ++ String.ofList clock)
    else none

/-- A time of day with the distance from universal time, if it is given. -/
def timeWithOffset? (text : List Char) : Option String := do
  let isPart := fun (c : Char) => c.isDigit || c = ':' || c = '.'
  return (← time? (text.takeWhile isPart)) ++ (← offset? (text.dropWhile isPart))

/-- A date, a time, or a date and a time in one word. -/
def moment? (text : List Char) : Option Toml :=
  if isDate (text.take 10) then
    let date := String.ofList (text.take 10)
    match text.drop 10 with
    | [] => some (moment date)
    | delimiter :: rest =>
      if delimiter = 'T' || delimiter = 't' || delimiter = ' ' then
        (timeWithOffset? rest).map fun time => moment (date ++ "T" ++ time)
      else none
  else (time? text).map moment

/-! ## Words -/

/-- The value that a word stands for. -/
def ofWord? (word : List Char) : Option Toml :=
  match word with
  | ['t', 'r', 'u', 'e'] => some (flag true)
  | ['f', 'a', 'l', 's', 'e'] => some (flag false)
  | word => ((moment? word).orElse fun _ => float? word).orElse fun _ => integer? word

end Toml

end Acausal
