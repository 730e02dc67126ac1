-- Dual numbers. Next to its value a dual number carries a slope, the rate at which the value
-- changes along a chosen direction; every operation keeps the two in step by the rules of
-- differentiation, and the value part is what plain evaluation gives.
import Acausal.Scalar

namespace Acausal

/-- A value together with its slope. -/
structure Dual (α : Type) where
  value : α
  slope : α
  deriving DecidableEq, Repr

namespace Dual

variable {α : Type}

/-- A number that does not change along the direction. -/
def constant [Zero α] (a : α) : Dual α := ⟨a, 0⟩

/-! ## Arithmetic -/

instance [Zero α] : Zero (Dual α) := ⟨constant 0⟩

instance [Zero α] [One α] : One (Dual α) := ⟨constant 1⟩

instance [Add α] : Add (Dual α) := ⟨fun x y => ⟨x.value + y.value, x.slope + y.slope⟩⟩

instance [Sub α] : Sub (Dual α) := ⟨fun x y => ⟨x.value - y.value, x.slope - y.slope⟩⟩

instance [Neg α] : Neg (Dual α) := ⟨fun x => ⟨-x.value, -x.slope⟩⟩

/-- The product rule. -/
instance [Add α] [Mul α] : Mul (Dual α) :=
  ⟨fun x y => ⟨x.value * y.value, x.value * y.slope + x.slope * y.value⟩⟩

/-- The quotient rule. -/
instance [Sub α] [Mul α] [Div α] : Div (Dual α) :=
  ⟨fun x y =>
    ⟨x.value / y.value, (x.slope * y.value - x.value * y.slope) / (y.value * y.value)⟩⟩

/-! ## Elementary functions -/

section
variable [Zero α] [One α] [Add α] [Sub α] [Mul α] [Div α] [Neg α] [OfScientific α]
  [BEq α] [LE α] [DecidableLE α] [Elementary α]

/-- A power. An exponent that does not change is kept away from the logarithm, which has no
value at a negative base. -/
def pow (x n : Dual α) : Dual α :=
  let value := Elementary.pow x.value n.value
  if n.slope == 0 then
    ⟨value, n.value * Elementary.pow x.value (n.value - 1) * x.slope⟩
  else
    ⟨value, value * (n.slope * Elementary.log x.value + n.value * x.slope / x.value)⟩

def sin (x : Dual α) : Dual α :=
  ⟨Elementary.sin x.value, x.slope * Elementary.cos x.value⟩

def cos (x : Dual α) : Dual α :=
  ⟨Elementary.cos x.value, -x.slope * Elementary.sin x.value⟩

def tan (x : Dual α) : Dual α :=
  let t := Elementary.tan x.value
  ⟨t, x.slope * (1 + t * t)⟩

def exp (x : Dual α) : Dual α :=
  let e := Elementary.exp x.value
  ⟨e, e * x.slope⟩

def log (x : Dual α) : Dual α :=
  ⟨Elementary.log x.value, x.slope / x.value⟩

def sqrt (x : Dual α) : Dual α :=
  let s := Elementary.sqrt x.value
  ⟨s, x.slope / (2.0 * s)⟩

/-- The absolute value, whose slope at zero is that from the right. -/
def abs (x : Dual α) : Dual α :=
  ⟨Elementary.abs x.value, if 0 ≤ x.value then x.slope else -x.slope⟩

instance : Elementary (Dual α) where
  pow := pow
  sin := sin
  cos := cos
  tan := tan
  exp := exp
  log := log
  sqrt := sqrt
  abs := abs

end

end Dual

end Acausal
