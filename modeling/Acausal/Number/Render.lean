-- Number texts. A double is written with the fewest digits that read back as the same double,
-- or rounded to a fixed number of significant digits; the exact value is used in both cases.
import Acausal.Number.Binary
import Acausal.Number.Decimal

namespace Acausal

/-! ## Digits of a double -/

/-- The reals that round to `mantissa * 2 ^ exponent`: half a unit to either side, and only a
quarter unit below a power of two, where the spacing changes. The ends round to even, so
they belong to the interval exactly when the mantissa is even. -/
def roundingInterval (mantissa : Nat) (exponent : Int) : Decimal.Interval :=
  let (up, down) := powerOfTwo (exponent - 2)
  let narrow := mantissa = Nat.pow 2 52 ∧ -1074 < exponent
  { low := (4 * mantissa - if narrow then 1 else 2) * up
    value := 4 * mantissa * up
    high := (4 * mantissa + 2) * up
    den := down
    closed := mantissa % 2 = 0 }

/-- The fewest digits that read back as the same double. -/
def shortestDigits (mantissa : Nat) (exponent : Int) : Decimal :=
  if mantissa = 0 then ⟨0, 0⟩ else (roundingInterval mantissa exponent).shortest

/-- The double rounded to a number of significant digits, a half going to the even digit. -/
def significantDigits (digits mantissa : Nat) (exponent : Int) : Decimal :=
  let (up, down) := powerOfTwo exponent
  if mantissa = 0 then ⟨0, 0⟩ else Decimal.rounded digits (mantissa * up) down

/-! ## Texts -/

/-- A text for each double: the sign, then `finite` of the exact magnitude. -/
def renderWith (finite : Nat → Int → String) (x : Float) : String :=
  let sign := if signBit x then "-" else ""
  match magnitude x with
  | .notANumber => "NaN"
  | .infinite => sign ++ "inf"
  | .finite mantissa exponent => sign ++ finite mantissa exponent

/-- The shortest digits in positional notation, as in messages and model texts. -/
def plainText (x : Float) : String :=
  renderWith (fun mantissa exponent => (shortestDigits mantissa exponent).positional) x

/-- The shortest digits in scientific notation. -/
def exactText (x : Float) : String :=
  renderWith (fun mantissa exponent => (shortestDigits mantissa exponent).scientific) x

/-- Scientific notation with a fixed number of digits after the point. -/
def roundedText (places : Nat) (x : Float) : String :=
  renderWith (fun mantissa exponent =>
    if mantissa = 0 then "0." ++ String.ofList (List.replicate places '0') ++ "e0"
    else (significantDigits (places + 1) mantissa exponent).scientific) x

/-- A literal of the modelling language: whole numbers of ordinary size keep a `.0`, so that
they read as reals. -/
def literalText (x : Float) : String :=
  if (wholeMagnitude? x).any (· < Nat.pow 10 15) then plainText x ++ ".0" else plainText x

end Acausal
