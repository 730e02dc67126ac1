-- How the tokens of a printed expression are grouped. Each expression is read at the level of the
-- grammar that its strength allows, whatever pulls less follows; a power is read on to the right,
-- so what is read for its base depends on the exponent that comes behind.
import Acausal.Proofs.PrintedTokens
import Acausal.Proofs.ReadingLevels

namespace Acausal

variable {ls tail rest : List Lexeme}

/-! ## Operands -/

/-- What follows a base: an exponent, or something that pulls less than one. -/
def Exponent (exponent : Option (Expr Float)) (tail rest : List Lexeme) : Prop :=
  match exponent with
  | none => pull tail < 4 ∧ tail = rest
  | some y => ∃ place more, tail = ⟨.symbol '^', place⟩ :: more ∧ Reads (signed more) y rest

/-- Tokens that are read together with the exponent behind them, if there is one. -/
def IsBase (read : Option (Expr Float) → Expr Float) (ts : List Token) : Prop :=
  ∀ ⦃exponent ls tail rest⦄, ls.map Lexeme.token = ts → Exponent exponent tail rest →
    Reads (signed (ls ++ tail)) (read exponent) rest

theorem Exponent.pull_lt {exponent : Option (Expr Float)} (h : Exponent exponent tail rest) :
    pull tail < 5 := by
  cases exponent with
  | none =>
    have := h.1
    omega
  | some y =>
    obtain ⟨place, more, rfl, -⟩ := h
    simp [pull, Token.pull]

/-- A literal without a sign, or no literal at all. -/
def Unsigned (a : Expr Float) : Prop := ∀ x, a = .number x → signBit x = false

theorem attached_of_unsigned {a : Expr Float} (h : Unsigned a) (y : Expr Float) :
    attached a (some y) = .binary a .pow y := by
  cases a with
  | number x => simp [attached, h x rfl]
  | _ => rfl

theorem reads_power_of_operand {a : Expr Float} {exponent : Option (Expr Float)}
    (h : Reads (operand ls) a tail) (plain : Unsigned a) (next : Exponent exponent tail rest) :
    Reads (power ls) (attached a exponent) rest := by
  refine reads_power.mpr ⟨a, tail, h, ?_⟩
  cases exponent with
  | none => exact .inl ⟨afterSymbol?_of_pull next.1, rfl, next.2⟩
  | some y =>
    obtain ⟨place, more, rfl, hy⟩ := next
    exact .inr ⟨place, more, y, rfl, hy, (attached_of_unsigned plain y).symm⟩

theorem IsOperand.isBase {a : Expr Float} {ts : List Token} (h : IsOperand a ts)
    (plain : Unsigned a) : IsBase (attached a) ts := by
  intro exponent ls tail rest hls next
  have whole := reads_power_of_operand (h.reads hls next.pull_lt) plain next
  obtain ⟨t, more, rfl, minus, plus⟩ := h.bare
  obtain ⟨place, behind, rfl, -⟩ := exists_of_tokens_cons hls
  exact reads_signed.mpr (.inr (.inr
    ⟨afterSymbol?_of_token_ne minus place, afterSymbol?_of_token_ne plus place, whole⟩))

/-- A literal with a sign gives its sign to the whole power. -/
theorem isBase_of_signBit {x : Float} (finite : Finite x) (sign : signBit x = true) :
    IsBase (attached (.number x)) [.symbol '-', .number (-x)] := by
  intro exponent ls tail rest hls next
  obtain ⟨i, more, rfl, hmore⟩ := exists_of_tokens_cons hls
  obtain ⟨j, rfl⟩ := exists_of_tokens_single hmore
  have plain : signBit (-x) = false := by
    rw [signBit_neg finite, sign]
    rfl
  have literal : Reads (operand (⟨.number (-x), j⟩ :: tail)) (.number (-x)) tail :=
    reads_operand.mpr (.number _ _ _)
  have magnitude := reads_power_of_operand literal (by rintro _ ⟨⟩; exact plain) next
  have inner : Reads (signed (⟨.number (-x), j⟩ :: tail)) (attached (.number (-x)) exponent) rest :=
    reads_signed.mpr (.inr (.inr ⟨rfl, rfl, magnitude⟩))
  refine reads_signed.mpr (.inl ⟨i, _, _, rfl, inner, ?_⟩)
  cases exponent with
  | none => simp [attached, negated, neg_neg_of_finite finite]
  | some y => simp [attached, negated, sign, plain]

/-! ## Levels of the grammar -/

variable {a e : Expr Float} {ts : List Token}

theorem IsBase.isSigned {read : Option (Expr Float) → Expr Float} (h : IsBase read ts) :
    IsSigned (read none) ts := by
  intro ls tail hls next
  exact h hls ⟨next, rfl⟩

/-- How the tokens of an expression are read at the levels that its strength allows. -/
structure Groups (e : Expr Float) (ts : List Token) : Prop where
  sum : IsSum (regrouped e none) ts
  product : 2 ≤ e.strength → IsProduct (regrouped e none) ts
  signed : 3 ≤ e.strength → IsSigned (regrouped e none) ts
  base : 4 ≤ e.strength → IsBase (regrouped e) ts

theorem Groups.of_base (h : IsBase (regrouped e) ts) : Groups e ts :=
  ⟨h.isSigned.isProduct.isSum, fun _ => h.isSigned.isProduct,
    fun _ => h.isSigned, fun _ => h⟩

theorem Groups.of_signed (loose : e.strength < 4) (h : IsSigned (regrouped e none) ts) :
    Groups e ts :=
  ⟨h.isProduct.isSum, fun _ => h.isProduct, fun _ => h,
    fun tight => by omega⟩

theorem Groups.of_product (loose : e.strength < 3) (h : IsProduct (regrouped e none) ts) :
    Groups e ts :=
  ⟨h.isSum, fun _ => h, fun tight => by omega, fun tight => by omega⟩

theorem Groups.of_sum (loose : e.strength < 2) (h : IsSum (regrouped e none) ts) : Groups e ts :=
  ⟨h, fun tight => by omega, fun tight => by omega, fun tight => by omega⟩

/-! ## Places of operands -/

theorem strength_pos (e : Expr Float) : 1 ≤ e.strength := by
  cases e with
  | binary lhs op rhs => cases op <;> simp [Expr.strength, Operator.strength]
  | _ => simp [Expr.strength]

theorem notPower_of_strength (h : e.strength ≠ 4) : e.NotPower := by
  rintro lhs rhs rfl
  exact h rfl

theorem unsigned_regrouped (written : Written e) (loose : e.strength < 5) :
    Unsigned (regrouped e none) := by
  intro x hx
  refine absurd hx (regrouped_ne_number written ?_ x)
  rintro y rfl
  exact absurd loose (Nat.lt_irrefl 5)

/-- In parentheses an expression is read as it is by itself. -/
theorem Groups.enclosed (h : Groups e ts) (written : Written e) (loose : e.strength < 5) :
    IsBase (attached (regrouped e none)) (.symbol '(' :: (ts ++ [.symbol ')'])) :=
  h.sum.enclosed.isBase (unsigned_regrouped written loose)

/-- The base of a power. -/
theorem Groups.placed_base (h : Groups e ts) (written : Written e) :
    IsBase (regrouped e) (enclosedTokens e.strength 4 ts) := by
  unfold enclosedTokens
  split
  · next loose =>
    have same : regrouped e = attached (regrouped e none) :=
      funext (regrouped_of_notPower (notPower_of_strength (by omega)))
    rw [same]
    exact h.enclosed written (by omega)
  · exact h.base (by omega)

/-- The exponent of a power. -/
theorem Groups.placed_exponent (h : Groups e ts) (written : Written e) :
    IsBase (attached (regrouped e none)) (enclosedTokens e.strength 5 ts) := by
  unfold enclosedTokens
  split
  · next loose => exact h.enclosed written loose
  · have same : regrouped e = attached (regrouped e none) :=
      funext (regrouped_of_notPower (notPower_of_strength (by omega)))
    rw [← same]
    exact h.base (by omega)

/-- The second factor of a product. -/
theorem Groups.placed_factor (h : Groups e ts) (written : Written e) :
    IsSigned (regrouped e none) (enclosedTokens e.strength 3 ts) := by
  unfold enclosedTokens
  split
  · exact (h.enclosed written (by omega)).isSigned
  · exact h.signed (by omega)

/-- The first factors of a product, or the second term of a sum. -/
theorem Groups.placed_product (h : Groups e ts) (written : Written e) :
    IsProduct (regrouped e none) (enclosedTokens e.strength 2 ts) := by
  unfold enclosedTokens
  split
  · exact (h.enclosed written (by omega)).isSigned.isProduct
  · exact h.product (by omega)

/-- The first terms of a sum. -/
theorem Groups.placed_sum (h : Groups e ts) :
    IsSum (regrouped e none) (enclosedTokens e.strength 1 ts) := by
  have tight := strength_pos e
  unfold enclosedTokens
  rw [if_neg (by omega)]
  exact h.sum

end Acausal
