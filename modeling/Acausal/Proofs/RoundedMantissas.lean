-- Mantissas, rounded. A mantissa is shifted to the grid of the fraction that it holds, with two
-- bits for what is shifted out, and these two bits are enough to find the nearest whole number.
-- So whole mantissas and quotients are rounded as the fractions that they stand for.
import Acausal.Proofs.Rounding

namespace Acausal

open Float.Model
open Float.Model.UnpackedFloat hiding pack unpack

/-! ## Mantissas with two more bits -/

/-- An extended mantissa holds a fraction: its mantissa and round bit are the digits of the fraction
down to the half, and its sticky bit says whether any digits follow. -/
structure Holds (em : ExtendedMantissa) (q : ℚ) : Prop where
  low : 2 * (em.mantissa : ℚ) + em.roundBit.toNat ≤ 2 * q
  high : 2 * q < 2 * (em.mantissa : ℚ) + em.roundBit.toNat + 1
  ends : em.stickyBit = false ↔ 2 * q = 2 * em.mantissa + em.roundBit.toNat

namespace Holds

variable {em : ExtendedMantissa} {q : ℚ}

theorem bounds (h : Holds em q) : em.mantissa ≤ q ∧ q < em.mantissa + 1 := by
  obtain ⟨low, high, -⟩ := h
  have bit : (em.roundBit.toNat : ℚ) ≤ 1 := by exact_mod_cast em.roundBit.toNat_le
  have positive : (0 : ℚ) ≤ em.roundBit.toNat := Nat.cast_nonneg _
  constructor <;> linarith

/-- The mantissa rounded by its two bits is the nearest whole number. -/
theorem isNearest (h : Holds em q) : IsNearest em.roundedMantissa q := by
  obtain ⟨low, high, ends⟩ := h
  obtain ⟨m, round, sticky⟩ := em
  unfold IsNearest ExtendedMantissa.roundedMantissa ExtendedMantissa.accuracy
  cases round <;> cases sticky <;>
    simp only [Accuracy.roundToNearestEven, Bool.toNat_false, Bool.toNat_true, Nat.cast_zero,
      Nat.cast_one, add_zero, true_iff, reduceCtorEq, false_iff] at low high ends ⊢
  · left
    rw [show q = m by linarith]
    norm_num
  · have strict := low.lt_of_ne' ends
    left
    rw [abs_lt]
    push_cast
    constructor <;> linarith
  · right
    have half : q = m + 1 / 2 := by linarith
    obtain even | odd := Nat.mod_two_eq_zero_or_one m
    · rw [even, half]
      refine ⟨?_, by exact_mod_cast Nat.even_iff.2 even⟩
      push_cast
      rw [abs_of_nonpos (by linarith)]
      ring
    · rw [odd, half]
      refine ⟨?_, by exact_mod_cast Nat.even_add_one.2 (Nat.not_even_iff.2 odd)⟩
      push_cast
      rw [abs_of_nonneg (by linarith)]
      ring
  · have strict := low.lt_of_ne' ends
    left
    rw [abs_lt]
    push_cast
    constructor <;> linarith

/-- Of a mantissa shifted by one the last digit becomes the round bit, and what was behind it is
remembered in the sticky bit. -/
theorem shiftRightOne (h : Holds em q) : Holds em.shiftRightOne (q / 2) := by
  obtain ⟨below, above⟩ := h.bounds
  obtain ⟨low, high, ends⟩ := h
  have digits : 2 * (em.shiftRightOne.mantissa : ℚ) + em.shiftRightOne.roundBit.toNat =
      em.mantissa := by
    have split : 2 * (em.mantissa / 2) + (em.mantissa % 2 != 0).toNat = em.mantissa := by
      obtain even | odd := Nat.mod_two_eq_zero_or_one em.mantissa
      · simp [even]
        omega
      · simp [odd]
        omega
    exact_mod_cast split
  refine ⟨by linarith, by linarith, ?_⟩
  rw [digits, mul_div_cancel₀ _ two_ne_zero]
  change (em.roundBit || em.stickyBit) = false ↔ _
  rw [Bool.or_eq_false_iff, ends]
  constructor
  · rintro ⟨round, same⟩
    rw [round] at same
    simpa using same
  · intro same
    have none : em.roundBit = false := by
      cases round : em.roundBit with
      | false => rfl
      | true =>
        rw [round] at low
        simp only [Bool.toNat_true, Nat.cast_one] at low
        linarith
    exact ⟨none, by simp [none, same]⟩

theorem shiftRight (h : Holds em q) (k : Nat) : Holds (em >>> k) (q / 2 ^ k) := by
  change Holds (k.repeat ExtendedMantissa.shiftRightOne em) _
  induction k with
  | zero => simpa [Nat.repeat] using h
  | succ k ih =>
    rw [pow_succ, ← div_div]
    exact ih.shiftRightOne

end Holds

/-! ## Shifting to the grid -/

theorem mantissa_ofMantissaAndAccuracy (m : Nat) (accuracy : Accuracy) :
    (ExtendedMantissa.ofMantissaAndAccuracy m accuracy).mantissa = m := by
  cases accuracy with
  | exact => rfl
  | inexact order => cases order <;> rfl

theorem targetExponent_eq_max (m : Nat) (e : Int) :
    Format.binary64.targetExponent (totalExponent m e) = max (m.log2 + e - 52) (-1074) := by
  have bits : (Format.binary64.mantissaBits : Int) = 53 := rfl
  have least : Format.binary64.minExponent = -1074 := rfl
  unfold Format.targetExponent totalExponent
  omega

section
variable {m : Nat} {e : Int} {q : ℚ}

/-- The spacing of a fraction is found from the digits of its mantissa. -/
theorem targetExponent_eq_spacing (positive : 0 < q) (low : m ≤ q) (high : q < m + 1)
    (enough : 0 < m ∨ e ≤ -1074) :
    Format.binary64.targetExponent (totalExponent m e) = spacing (q * 2 ^ e) := by
  have positive' : 0 < q * 2 ^ e := by positivity
  rw [targetExponent_eq_max, spacing_of_pos positive']
  have above : q * 2 ^ e < 2 ^ (m.log2 + 1 + e : ℤ) := by
    have digits : (m : ℚ) + 1 ≤ 2 ^ (m.log2 + 1) := by exact_mod_cast Nat.lt_log2_self (n := m)
    rw [zpow_add₀ two_ne_zero]
    gcongr
    exact_mod_cast high.trans_le digits
  have less : Int.log 2 (q * 2 ^ e) < m.log2 + 1 + e :=
    (Int.lt_zpow_iff_log_lt one_lt_two positive').1 (by exact_mod_cast above)
  obtain rfl | some := Nat.eq_zero_or_pos m
  · have : Nat.log2 0 = 0 := rfl
    omega
  · have below : (2 : ℚ) ^ (m.log2 + e : ℤ) ≤ q * 2 ^ e := by
      have digits : (2 : ℚ) ^ m.log2 ≤ m := by exact_mod_cast Nat.log2_self_le some.ne'
      rw [zpow_add₀ two_ne_zero]
      gcongr
      exact_mod_cast digits.trans low
    have more : m.log2 + e ≤ Int.log 2 (q * 2 ^ e) :=
      (Int.zpow_le_iff_le_log one_lt_two positive').1 (by exact_mod_cast below)
    omega

/-- A mantissa shifted to the grid of a fraction holds the fraction in units of the grid. -/
theorem shiftToTargetExponent_eq {accuracy : Accuracy} (positive : 0 < q)
    (holds : Holds (.ofMantissaAndAccuracy m accuracy) q) (enough : 0 < m ∨ e ≤ -1074)
    (fine : e ≤ spacing (q * 2 ^ e)) :
    ∃ em, shiftToTargetExponent .binary64 m e accuracy = (em, spacing (q * 2 ^ e)) ∧
      Holds em (q * 2 ^ e / 2 ^ spacing (q * 2 ^ e)) := by
  obtain ⟨low, high⟩ := holds.bounds
  rw [mantissa_ofMantissaAndAccuracy] at low high
  have target := targetExponent_eq_spacing positive low high enough
  obtain ⟨k, shift⟩ := Int.le.dest fine
  refine ⟨ExtendedMantissa.ofMantissaAndAccuracy m accuracy >>> k, ?_, ?_⟩
  · have amount : (spacing (q * 2 ^ e) - e).toNat = k := by omega
    simp only [shiftToTargetExponent, shiftToExponent, target, amount, shift]
  · have units : q * 2 ^ e / 2 ^ spacing (q * 2 ^ e) = q / 2 ^ k := by
      rw [← shift, zpow_add₀ two_ne_zero, zpow_natCast]
      field_simp
    rw [units]
    exact holds.shiftRight k

/-- A mantissa of 53 digits on its grid stays there. -/
theorem shiftToTargetExponent_small (small : m < 2 ^ 53) (low : -1074 ≤ e) :
    shiftToTargetExponent .binary64 m e .exact = (⟨m, false, false⟩, e) := by
  have digits : m.log2 ≤ 52 := by
    obtain rfl | some := Nat.eq_zero_or_pos m
    · decide
    · have := (Nat.log2_lt some.ne').2 small
      omega
  have still : (max (m.log2 + e - 52) (-1074) - e).toNat = 0 := by omega
  simp only [shiftToTargetExponent, shiftToExponent, targetExponent_eq_max, still, Nat.cast_zero,
    add_zero]
  rfl

/-- A mantissa that was rounded up to one more digit is shifted by it. -/
theorem shiftToTargetExponent_carry (low : -1074 ≤ e) :
    shiftToTargetExponent .binary64 (2 ^ 53) e .exact = (⟨2 ^ 52, false, false⟩, e + 1) := by
  have once : (max (((2 ^ 53 : Nat).log2 : Int) + e - 52) (-1074) - e).toNat = 1 := by
    rw [Nat.log2_two_pow]
    omega
  simp only [shiftToTargetExponent, shiftToExponent, targetExponent_eq_max, once]
  rfl

end

/-! ## Rounding a mantissa -/

/-- A magnitude of at most 53 bits, all of them used but for the smallest; it may be too large. -/
structure Gridded (m : Nat) (e : Int) : Prop where
  small : m < 2 ^ 53
  low : -1074 ≤ e
  normal : 2 ^ 52 ≤ m ∨ e = -1074

/-- What a fraction is rounded to, before it is held against the ceiling. -/
def RoundsTo (p : ℚ) : UnpackedFloat → Prop
  | .zero _ => rounded p = 0
  | .finite s m e _ => rounded p = withSign s (m * 2 ^ e) ∧ Gridded m e
  | _ => False

theorem rounded_withSign (s : Sign) (p : ℚ) : rounded (withSign s p) = withSign s (rounded p) := by
  cases s
  · exact rounded_neg p
  · rfl

theorem div_spacing_lt {p : ℚ} (positive : 0 < p) : p / 2 ^ spacing p < 2 ^ 53 := by
  rw [div_lt_iff₀ (by positivity)]
  calc p < 2 ^ (Int.log 2 p + 1) := by exact_mod_cast Int.lt_zpow_succ_log_self one_lt_two p
    _ ≤ 2 ^ (53 + spacing p) := by
      refine zpow_le_zpow_right₀ one_le_two ?_
      rw [spacing_of_pos positive]
      omega
    _ = 2 ^ 53 * 2 ^ spacing p := by
      rw [zpow_add₀ two_ne_zero]
      rfl

theorem le_div_spacing {p : ℚ} (positive : 0 < p) (normal : spacing p ≠ -1074) :
    2 ^ 52 ≤ p / 2 ^ spacing p := by
  rw [le_div_iff₀ (by positivity)]
  calc (2 : ℚ) ^ 52 * 2 ^ spacing p = 2 ^ (52 + spacing p) := by
        rw [zpow_add₀ two_ne_zero]
        rfl
    _ ≤ 2 ^ Int.log 2 p := by
      refine zpow_le_zpow_right₀ one_le_two ?_
      rw [spacing_of_pos positive] at normal ⊢
      omega
    _ ≤ p := by exact_mod_cast Int.zpow_log_le_self one_lt_two positive

theorem roundWithAccuracy_eq {m : Nat} {e g g' : Int} {accuracy : Accuracy}
    {em em' : ExtendedMantissa} (s : Sign)
    (shift : shiftToTargetExponent .binary64 m e accuracy = (em, g))
    (again : shiftToTargetExponent .binary64 em.roundedMantissa g .exact = (em', g')) :
    roundWithAccuracy .binary64 s m e accuracy =
      if h : em'.mantissa = 0 then .zero s
      else .finite s em'.mantissa g' (Nat.pos_of_ne_zero h) := by
  simp only [roundWithAccuracy, shift, again]

/-- A mantissa that holds a fraction is rounded as the fraction is. -/
theorem roundsTo_roundWithAccuracy {m : Nat} {e : Int} {q : ℚ} {accuracy : Accuracy} (s : Sign)
    (positive : 0 < q) (holds : Holds (.ofMantissaAndAccuracy m accuracy) q)
    (enough : 0 < m ∨ e ≤ -1074) (fine : e ≤ spacing (q * 2 ^ e)) :
    RoundsTo (withSign s (q * 2 ^ e)) (roundWithAccuracy .binary64 s m e accuracy) := by
  obtain ⟨em, shift, held⟩ := shiftToTargetExponent_eq positive holds enough fine
  have positive' : 0 < q * 2 ^ e := by positivity
  have least : -1074 ≤ spacing (q * 2 ^ e) := le_max_right _ _
  have below := div_spacing_lt positive'
  have above := le_div_spacing positive'
  generalize q * 2 ^ e = p at *
  have point : rounded p = em.roundedMantissa * 2 ^ spacing p := by
    rw [rounded, nearest_eq held.isNearest, Int.cast_natCast]
  have short : em.roundedMantissa ≤ 2 ^ 53 := by
    have whole := held.isNearest.mono (m := 2 ^ 53) (.inl (by norm_num)) below.le
    exact_mod_cast whole
  have long : 2 ^ 52 ≤ em.roundedMantissa ∨ spacing p = -1074 := by
    by_cases normal : spacing p = -1074
    · exact .inr normal
    · have whole := IsNearest.mono (n := 2 ^ 52) (.inl (by norm_num)) held.isNearest (above normal)
      exact .inl (by exact_mod_cast whole)
  obtain same | less := short.eq_or_lt
  · have again := shiftToTargetExponent_carry least
    rw [← same] at again
    rw [roundWithAccuracy_eq s shift again, dif_neg (by norm_num)]
    refine ⟨?_, by norm_num, by omega, .inl le_rfl⟩
    rw [rounded_withSign, point, same, zpow_add_one₀ two_ne_zero]
    congr 1
    push_cast
    ring
  · rw [roundWithAccuracy_eq s shift (shiftToTargetExponent_small less least)]
    split
    · next vanishes =>
      change rounded _ = 0
      rw [rounded_withSign, point, show em.roundedMantissa = 0 from vanishes, Nat.cast_zero,
        zero_mul, withSign_zero]
    · exact ⟨by rw [rounded_withSign, point], less, least, long⟩

/-! ## Whole mantissas and quotients -/

theorem holds_exact (m : Nat) : Holds (.ofMantissaAndAccuracy m .exact) m :=
  ⟨by simp [ExtendedMantissa.ofMantissaAndAccuracy],
    by simp [ExtendedMantissa.ofMantissaAndAccuracy],
    by simp [ExtendedMantissa.ofMantissaAndAccuracy]⟩

/-- A whole number and a part of one are held by how the part compares to a half. -/
theorem holds_part {m : Nat} {f : ℚ} (inside : 0 < f) (below : f < 1) :
    Holds (.ofMantissaAndAccuracy m (.inexact (compare f (1 / 2)))) (m + f) := by
  obtain less | rfl | more := lt_trichotomy f (1 / 2)
  · rw [compare_lt_iff_lt.2 less]
    refine ⟨?_, ?_, iff_of_false nofun fun same => ?_⟩ <;>
      simp only [ExtendedMantissa.ofMantissaAndAccuracy, Bool.toNat_false, Nat.cast_zero] at * <;>
      linarith
  · rw [compare_eq_iff_eq.2 rfl]
    refine ⟨?_, ?_, iff_of_true rfl ?_⟩ <;>
      simp only [ExtendedMantissa.ofMantissaAndAccuracy, Bool.toNat_true, Nat.cast_one] <;>
      linarith
  · rw [compare_gt_iff_gt.2 more]
    refine ⟨?_, ?_, iff_of_false nofun fun same => ?_⟩ <;>
      simp only [ExtendedMantissa.ofMantissaAndAccuracy, Bool.toNat_true, Nat.cast_one] at * <;>
      linarith

/-- A quotient is held by its whole part and by how twice the rest compares to the divisor. -/
theorem holds_quotient {n d : Nat} (positive : 0 < d) :
    Holds (.ofMantissaAndAccuracy (n / d) (accuracyOfFraction (n % d) d)) (n / d) := by
  have divisor : (0 : ℚ) < d := by exact_mod_cast positive
  have whole : (n : ℚ) / d = (n / d : Nat) + (n % d : Nat) / d := by
    rw [div_eq_iff divisor.ne', add_mul, div_mul_cancel₀ _ divisor.ne']
    exact_mod_cast (Nat.div_add_mod' n d).symm
  have bound : ((n % d : Nat) : ℚ) < d := by exact_mod_cast Nat.mod_lt n positive
  rw [whole]
  generalize n % d = r at bound
  unfold accuracyOfFraction
  obtain rfl | some := Nat.eq_zero_or_pos r
  · simpa using holds_exact (n / d)
  · have part : (0 : ℚ) < r := by exact_mod_cast some
    have compared : compare (2 * r) d = compare ((r : ℚ) / d) (1 / 2) := by
      obtain less | same | more := lt_trichotomy (2 * r) d
      · rw [compare_lt_iff_lt.2 less, compare_lt_iff_lt.2]
        rw [div_lt_div_iff₀ divisor two_pos]
        exact_mod_cast (by omega : r * 2 < 1 * d)
      · rw [compare_eq_iff_eq.2 same, compare_eq_iff_eq.2]
        rw [div_eq_div_iff divisor.ne' two_ne_zero]
        exact_mod_cast (by omega : r * 2 = 1 * d)
      · rw [compare_gt_iff_gt.2 more, compare_gt_iff_gt.2]
        rw [div_lt_div_iff₀ two_pos divisor]
        exact_mod_cast (by omega : 1 * d < r * 2)
    rw [if_neg some.ne', compared]
    exact holds_part (by positivity) ((div_lt_one divisor).2 bound)

section
variable {m : Nat} {e : Int}

theorem le_spacing (positive : 0 < m) (fine : 2 ^ 52 ≤ m ∨ e ≤ -1074) :
    e ≤ spacing (m * 2 ^ e) := by
  have above : 0 < (m : ℚ) * 2 ^ e := by positivity
  rw [spacing_of_pos above]
  obtain long | low := fine
  · have below : (2 : ℚ) ^ (52 + e : ℤ) ≤ m * 2 ^ e := by
      rw [zpow_add₀ two_ne_zero]
      gcongr
      exact_mod_cast long
    have := (Int.zpow_le_iff_le_log one_lt_two above).1 (by exact_mod_cast below)
    omega
  · omega

theorem spacing_le (positive : 0 < m) (small : m < 2 ^ 53) (low : -1074 ≤ e) :
    spacing (m * 2 ^ e) ≤ e := by
  have above : 0 < (m : ℚ) * 2 ^ e := by positivity
  rw [spacing_of_pos above]
  have below : (m : ℚ) * 2 ^ e < 2 ^ (53 + e : ℤ) := by
    rw [zpow_add₀ two_ne_zero]
    gcongr
    exact_mod_cast small
  have := (Int.lt_zpow_iff_log_lt one_lt_two above).1 (by exact_mod_cast below)
  omega

/-- A whole mantissa with an exponent that is low enough is rounded. -/
theorem roundsTo_whole (s : Sign) (positive : 0 < m) (fine : e ≤ spacing (m * 2 ^ e)) :
    RoundsTo (withSign s (m * 2 ^ e)) (roundWithAccuracy .binary64 s m e .exact) :=
  roundsTo_roundWithAccuracy s (by exact_mod_cast positive) (holds_exact m) (.inl positive) fine

/-- A whole mantissa with any exponent is rounded, once digits are put behind it. -/
theorem roundsTo_round (s : Sign) (positive : 0 < m) :
    RoundsTo (withSign s (m * 2 ^ e)) (UnpackedFloat.round .binary64 s m e) := by
  have target := targetExponent_eq_spacing (q := m) (e := e) (by exact_mod_cast positive) le_rfl
    (lt_add_one _) (.inl positive)
  simp only [UnpackedFloat.round, target, decreaseExponent]
  generalize shift : (e - spacing (m * 2 ^ e)).toNat = k
  have same : ((m <<< k : Nat) : ℚ) * 2 ^ (e - k) = m * 2 ^ e := by
    rw [Nat.shiftLeft_eq, zpow_sub₀ two_ne_zero, zpow_natCast]
    push_cast
    field_simp
  rw [← same]
  refine roundsTo_whole s ?_ ?_
  · rw [Nat.shiftLeft_eq]
    positivity
  · rw [same]
    omega

/-- A whole number with any exponent is rounded. -/
theorem roundsTo_normalize (n : ℤ) (s : Sign) :
    RoundsTo (n * 2 ^ e) (UnpackedFloat.normalize .binary64 n e s) := by
  unfold UnpackedFloat.normalize
  obtain less | rfl | more := lt_trichotomy n 0
  · have magnitude : (n : ℚ) = -((-n).toNat : ℕ) := by
      have whole : n = -((-n).toNat : ℤ) := by omega
      exact_mod_cast congrArg (Int.cast : ℤ → ℚ) whole
    rw [compare_lt_iff_lt.2 less, magnitude, neg_mul]
    exact roundsTo_round .negative (by omega)
  · rw [compare_eq_iff_eq.2 rfl, Int.cast_zero, zero_mul]
    exact rounded_zero
  · have magnitude : (n : ℚ) = (n.toNat : ℕ) := by
      have whole : n = (n.toNat : ℤ) := by omega
      exact_mod_cast congrArg (Int.cast : ℤ → ℚ) whole
    rw [compare_gt_iff_gt.2 more, magnitude]
    exact roundsTo_round .positive (by omega)

end

end Acausal
