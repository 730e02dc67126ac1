-- Doubles taken apart. Every finite double is a whole number of units of a power of two;
-- that exact value, held in natural numbers, is what every number text starts from, so no
-- printing or counting step rounds twice.

namespace Acausal

/-! ## The exact value of a double -/

/-- What a double stands for once its sign is set aside. -/
inductive Magnitude where
  | notANumber
  | infinite
  /-- The exact value `mantissa * 2 ^ exponent`, the mantissa below `2 ^ 53`. -/
  | finite (mantissa : Nat) (exponent : Int)
  deriving DecidableEq, Repr

/-- The sign bit; minus zero carries it too. -/
def signBit (x : Float) : Bool :=
  x.toBits.toNat / Nat.pow 2 63 = 1

/-- The magnitude read off the exponent and fraction fields. -/
def magnitude (x : Float) : Magnitude :=
  let bits : Nat := x.toBits.toNat
  let biased : Nat := bits / Nat.pow 2 52 % Nat.pow 2 11
  let fraction : Nat := bits % Nat.pow 2 52
  if biased = 2047 then
    if fraction = 0 then .infinite else .notANumber
  else if biased = 0 then
    .finite fraction (-1074)
  else
    .finite (Nat.pow 2 52 + fraction) ((biased : Int) - 1075)

/-- A power of two as numerator and denominator. -/
def powerOfTwo : Int → Nat × Nat
  | .ofNat n => (Nat.pow 2 n, 1)
  | .negSucc n => (1, Nat.pow 2 (n + 1))

/-! ## Whole numbers among the doubles -/

/-- The natural number that a double is in absolute value, if it is a whole number. -/
def wholeMagnitude? (x : Float) : Option Nat :=
  match magnitude x with
  | .finite mantissa exponent =>
    let (up, down) := powerOfTwo exponent
    if mantissa * up % down = 0 then some (mantissa * up / down) else none
  | _ => none

/-- Sizes and subscripts stop at the largest 64-bit count. -/
def largestCount : Nat := Nat.pow 2 64 - 1

/-- A number literal read as a size or subscript: whole and at least one. -/
def count? (x : Float) : Option Nat :=
  if 1.0 ≤ x then (wholeMagnitude? x).map (min · largestCount) else none

end Acausal
