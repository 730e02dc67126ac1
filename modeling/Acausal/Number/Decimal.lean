-- Decimal renderings of an exact ratio. The shortest decimal is the one on the coarsest grid
-- of powers of ten that still lies between the neighbours of the value; a rounded decimal is
-- the nearest one with a given number of digits. Everything is natural number arithmetic.

namespace Acausal

/-! ## Decimals -/

/-- The number `coefficient * 10 ^ exponent`. -/
structure Decimal where
  coefficient : Nat
  exponent : Int
  deriving DecidableEq, Repr

namespace Decimal

/-- How many decimal digits a natural number is written with. -/
def digitCount (n : Nat) : Nat := (Nat.toDigits 10 n).length

/-- The exponent of the leading digit of `num / den`, for a positive ratio. -/
def leadingExponent (num den : Nat) : Int :=
  if den ≤ num then
    (digitCount (num / den) : Int) - 1
  else
    -(digitCount ((den + num - 1) / num - 1) : Int)

/-- A power of ten as numerator and denominator. -/
def powerOfTen : Int → Nat × Nat
  | .ofNat n => (Nat.pow 10 n, 1)
  | .negSucc n => (1, Nat.pow 10 (n + 1))

/-! ## The shortest decimal in an interval -/

/-- An interval around a value, all three over one denominator. The ends belong to it when
`closed` holds. -/
structure Interval where
  low : Nat
  value : Nat
  high : Nat
  den : Nat
  closed : Bool

/-- Whether `point / den` lies in the interval, for a point scaled like its ends. -/
def Interval.holds (i : Interval) (scale point : Nat) : Bool :=
  if i.closed then
    decide (i.low * scale ≤ point) && decide (point ≤ i.high * scale)
  else
    decide (i.low * scale < point) && decide (point < i.high * scale)

/-- The multiple of `10 ^ exponent` in the interval that is nearest to its value; of two that
are equally near, the larger. -/
def Interval.onGrid? (i : Interval) (exponent : Int) : Option Decimal :=
  let (up, down) := powerOfTen exponent
  let unit := i.den * up
  let value := i.value * down
  let below := value / unit
  let lower := below * unit
  let upper := lower + unit
  match i.holds down lower, i.holds down upper with
  | true, true =>
    some ⟨if value - lower < upper - value then below else below + 1, exponent⟩
  | true, false => some ⟨below, exponent⟩
  | false, true => some ⟨below + 1, exponent⟩
  | false, false => none

/-- The decimal with the fewest digits in the interval. Eighteen grids are enough for a
double, whose neighbours are told apart by seventeen digits. -/
def Interval.shortest (i : Interval) : Decimal :=
  let top := leadingExponent i.value i.den + 1
  ((List.range 19).findSome? fun (step : Nat) => i.onGrid? (top - step)).getD ⟨0, 0⟩

/-! ## A given number of digits -/

/-- A quotient rounded to the nearest natural number, a half going to the even one. -/
def roundedQuotient (num den : Nat) : Nat :=
  let quotient := num / den
  let twice := 2 * (num % den)
  if twice < den then quotient
  else if den < twice then quotient + 1
  else if quotient % 2 = 0 then quotient else quotient + 1

/-- The nearest decimal with exactly `digits` digits to a positive ratio. -/
def rounded (digits num den : Nat) : Decimal :=
  let exponent := leadingExponent num den - digits + 1
  let (up, down) := powerOfTen exponent
  let coefficient := roundedQuotient (num * down) (den * up)
  if digitCount coefficient = digits then ⟨coefficient, exponent⟩
  else ⟨coefficient / 10, exponent + 1⟩

/-! ## Layout -/

/-- The digits of the coefficient. -/
def digits (d : Decimal) : List Char := Nat.toDigits 10 d.coefficient

/-- One digit, the remaining digits after a point, and the exponent after an `e`. -/
def scientific (d : Decimal) : String :=
  match d.digits with
  | [] => ""
  | leading :: more =>
    let fraction := if more.isEmpty then "" else "." ++ String.ofList more
    let exponent : Int := d.exponent + (more.length : Int)
    String.singleton leading ++ fraction ++ "e" ++ toString exponent

/-- All digits in place, with as many zeros as it takes and never an exponent. -/
def positional (d : Decimal) : String :=
  match d.exponent with
  | .ofNat zeros => String.ofList (d.digits ++ List.replicate zeros '0')
  | .negSucc n =>
    let places := n + 1
    let padded := List.replicate (places + 1 - d.digits.length) '0' ++ d.digits
    let split := padded.length - places
    String.ofList (padded.take split) ++ "." ++ String.ofList (padded.drop split)

end Decimal

end Acausal
