-- Operations on doubles, rounded. A sum, a difference, a product or a quotient of finite doubles
-- stands where the exact result is rounded to, or at the ceiling if that is too far out. A result
-- that is finite has finite operands, a divisor apart.
import Acausal.Proofs.RoundedMantissas

namespace Acausal

open Float.Model
open Float.Model.UnpackedFloat hiding pack unpack

/-! ## Storing -/

/-- Where a fraction is stored: where it is rounded to, but no farther out than the ceiling. -/
def stored (p : ℚ) : ℚ := max (-ceiling) (min (rounded p) ceiling)

/-- A double is a number and stands at a place. -/
structure Stands (x : Float) (p : ℚ) : Prop where
  number : ¬ IsNaN x
  place : place x = p

theorem stands_of_unpacked {x : Float} {u : UnpackedFloat} (h : unpacked x = u)
    (number : u ≠ .notANumber) : Stands x (standing u) :=
  ⟨fun nan => number (h.symm.trans nan), congrArg standing h⟩

theorem stored_mono : Monotone stored :=
  fun _ _ le => max_le_max_left _ (min_le_min_right _ (rounded_mono le))

theorem stored_neg (p : ℚ) : stored (-p) = -stored p := by
  have top := ceiling_pos
  unfold stored
  rw [rounded_neg, max_def, max_def, min_def, min_def]
  split_ifs <;> linarith

theorem stored_withSign (s : Sign) (p : ℚ) : stored (withSign s p) = withSign s (stored p) := by
  cases s
  · exact stored_neg p
  · rfl

theorem stored_eq_rounded {p : ℚ} (inside : |rounded p| < ceiling) : stored p = rounded p := by
  obtain ⟨low, high⟩ := abs_lt.1 inside
  rw [stored, min_eq_left high.le, max_eq_right low.le]

theorem stored_eq_ceiling {p : ℚ} (above : ceiling ≤ rounded p) : stored p = ceiling := by
  have top := ceiling_pos
  rw [stored, min_eq_right above, max_eq_right (by linarith)]

theorem stored_le_ceiling (p : ℚ) : stored p ≤ ceiling :=
  max_le (neg_le_self ceiling_pos.le) (min_le_right _ _)

theorem Gridded.ceiling_le {m : Nat} {e : Int} (h : Gridded m e) (high : 971 < e) :
    ceiling ≤ m * 2 ^ e := by
  have long : (2 : ℚ) ^ (52 : ℤ) ≤ m := by
    have := h.normal.resolve_right (by omega)
    exact_mod_cast this
  calc ceiling ≤ 2 ^ (52 + e) := zpow_le_zpow_right₀ one_le_two (by omega)
    _ = 2 ^ (52 : ℤ) * 2 ^ e := zpow_add₀ two_ne_zero _ _
    _ ≤ m * 2 ^ e := by gcongr

/-- A magnitude whose exponent is too large for a double is packed as infinite. -/
theorem pack_large {s : Sign} {m : Nat} {e : Int} (positive : 0 < m) (high : 971 < e) :
    pack (.finite s m e positive) = pack (.infinity s) := by
  have biased : 2 ^ Format.exponentBits .binary64 ≤
      (e + (Format.exponentBias .binary64 : Nat) +
        (Format.mantissaBitsWithoutImplicit .binary64 : Nat)).toNat + 1 := by
    have bits : (2 ^ Format.exponentBits .binary64 : Nat) = 2048 := rfl
    have bias : (Format.exponentBias .binary64 : Int) = 1023 := rfl
    have fraction : (Format.mantissaBitsWithoutImplicit .binary64 : Int) = 52 := rfl
    omega
  have infinite : UnpackedFloat.pack .binary64 (.finite s m e positive) =
      UnpackedFloat.pack .binary64 (.infinity s) := if_pos biased
  unfold pack
  simp only [infinite]

/-- What a fraction is rounded to is packed where the fraction is stored. -/
theorem stands_pack {u : UnpackedFloat} {p : ℚ} (h : RoundsTo p u) :
    Stands (.ofModel (pack u)) (stored p) := by
  cases u with
  | notANumber => exact h.elim
  | infinity s => exact h.elim
  | zero s =>
    have zero : rounded p = 0 := h
    rw [stored_eq_rounded (by rw [zero, abs_zero]; exact ceiling_pos), zero]
    exact stands_of_unpacked (unpacked_pack (u := .zero s) trivial) (by simp)
  | finite s m e positive =>
    obtain ⟨point, grid⟩ := h
    obtain small | high := le_or_gt e 971
    · have canonical : Canonical m e := ⟨grid.small, grid.low, small, grid.normal⟩
      have inside : |rounded p| < ceiling := by
        have above : 0 < (m : ℚ) * 2 ^ e := by positivity
        rw [point, abs_withSign, abs_of_pos above]
        exact canonical.lt_ceiling
      rw [stored_eq_rounded inside, point]
      exact stands_of_unpacked (unpacked_pack (u := .finite s m e positive) canonical) (by simp)
    · have large : stored p = withSign s ceiling := by
        have outside := grid.ceiling_le high
        have rounds : rounded (withSign s p) = m * 2 ^ e := by
          rw [rounded_withSign, point, withSign_withSign]
        rw [← withSign_withSign s p, stored_withSign, stored_eq_ceiling (rounds ▸ outside)]
      rw [pack_large positive high, large]
      exact stands_of_unpacked (unpacked_pack (u := .infinity s) trivial) (by simp)

/-! ## Unpacked operations -/

theorem Sound.gridded {s : Sign} {m : Nat} {e : Int} {positive : 0 < m}
    (h : Sound (.finite s m e positive)) : Gridded m e :=
  have canonical : Canonical m e := h
  ⟨canonical.small, canonical.low, canonical.normal⟩

/-- A finite double is rounded to itself. -/
theorem roundsTo_standing {u : UnpackedFloat} (h : Sound u) (finite : u.isFinite = true) :
    RoundsTo (standing u) u := by
  cases u with
  | notANumber => cases finite
  | infinity s => cases finite
  | zero s => exact rounded_zero
  | finite s m e positive =>
    have grid := Sound.gridded h
    refine ⟨?_, grid⟩
    rw [standing, rounded_withSign]
    have fine := spacing_le positive grid.small grid.low
    congr 1
    exact_mod_cast rounded_eq_self (k := m) (e := e) (by exact_mod_cast fine)

theorem cast_apply (s : Sign) (n : ℤ) : ((s.apply n : ℤ) : ℚ) = withSign s n := by
  cases s
  · exact Int.cast_neg n
  · rfl

theorem standing_neg (u : UnpackedFloat) : standing u.neg = -standing u := by
  cases u with
  | notANumber => exact neg_zero.symm
  | infinity s => exact withSign_neg s _
  | zero s => exact neg_zero.symm
  | finite s m e positive => exact withSign_neg s _

/-- Magnitudes are aligned at the smaller exponent without a loss. -/
theorem decreaseExponent_eq {m : Nat} {e f : Int} (le : f ≤ e) :
    ∃ k, decreaseExponent m e f = (k, f) ∧ (k : ℚ) * 2 ^ f = m * 2 ^ e := by
  obtain ⟨d, rfl⟩ := Int.le.dest le
  refine ⟨m <<< d, ?_, ?_⟩
  · have shift : (f + d - f).toNat = d := by omega
    simp only [decreaseExponent, shift, add_sub_cancel_right]
  · rw [Nat.shiftLeft_eq, zpow_add₀ two_ne_zero, zpow_natCast]
    push_cast
    ring

section
variable {u v : UnpackedFloat}

theorem roundsTo_add (hu : Sound u) (hv : Sound v) (finite : u.isFinite = true)
    (finite' : v.isFinite = true) : RoundsTo (standing u + standing v) (u.add .binary64 v) := by
  cases u with
  | notANumber => cases finite
  | infinity s => cases finite
  | zero s =>
    cases v with
    | notANumber => cases finite'
    | infinity r => cases finite'
    | zero r =>
      have zero : rounded (0 + 0) = 0 := by rw [add_zero, rounded_zero]
      cases s <;> cases r <;> exact zero
    | finite r m e positive =>
      rw [show standing (.zero s) = 0 from rfl, zero_add]
      exact roundsTo_standing hv finite'
  | finite s m e positive =>
    cases v with
    | notANumber => cases finite'
    | infinity r => cases finite'
    | zero r =>
      rw [show standing (.zero r) = 0 from rfl, add_zero]
      exact roundsTo_standing hu finite
    | finite r m' e' positive' =>
      obtain ⟨k, aligned, same⟩ := decreaseExponent_eq (m := m) (min_le_left e e')
      obtain ⟨k', aligned', same'⟩ := decreaseExponent_eq (m := m') (min_le_right e e')
      have sum : standing (.finite s m e positive) + standing (.finite r m' e' positive') =
          ((s.apply k + r.apply k' : ℤ) : ℚ) * 2 ^ min e e' := by
        rw [Int.cast_add, cast_apply, cast_apply, add_mul, ← withSign_mul, ← withSign_mul,
          Int.cast_natCast, Int.cast_natCast, same, same']
        rfl
      simp only [UnpackedFloat.add, aligned, aligned', sum]
      exact roundsTo_normalize _ _

/-- A difference is the sum with the negated double. -/
theorem sub_eq_add_neg_unpacked : u.sub .binary64 v = u.add .binary64 v.neg := by
  cases u with
  | finite s m e positive =>
    cases v with
    | finite r m' e' positive' =>
      have negated (n : ℤ) : (-r).apply n = -r.apply n := by
        cases r
        · exact (neg_neg n).symm
        · rfl
      change normalize _ (_ - _) _ _ = normalize _ (_ + _) _ _
      rw [negated, ← sub_eq_add_neg]
    | _ => rfl
  | notANumber => rfl
  | infinity s => cases v <;> rfl
  | zero s => cases v <;> rfl

theorem roundsTo_sub (hu : Sound u) (hv : Sound v) (finite : u.isFinite = true)
    (finite' : v.isFinite = true) : RoundsTo (standing u - standing v) (u.sub .binary64 v) := by
  have sound : Sound v.neg := by cases v <;> exact hv
  have kept : v.neg.isFinite = true := by cases v <;> exact finite'
  rw [sub_eq_add_neg_unpacked, sub_eq_add_neg, ← standing_neg]
  exact roundsTo_add hu sound finite kept

theorem roundsTo_mul (hu : Sound u) (hv : Sound v) (finite : u.isFinite = true)
    (finite' : v.isFinite = true) : RoundsTo (standing u * standing v) (u.mul .binary64 v) := by
  cases u with
  | notANumber => cases finite
  | infinity s => cases finite
  | zero s =>
    rw [show standing (.zero s) = 0 from rfl, zero_mul]
    cases v with
    | notANumber => cases finite'
    | infinity r => cases finite'
    | zero r => exact rounded_zero
    | finite r m e positive => exact rounded_zero
  | finite s m e positive =>
    cases v with
    | notANumber => cases finite'
    | infinity r => cases finite'
    | zero r =>
      rw [show standing (.zero r) = 0 from rfl, mul_zero]
      exact rounded_zero
    | finite r m' e' positive' =>
      have grid := Sound.gridded hu
      have grid' := Sound.gridded hv
      have product : standing (.finite s m e positive) * standing (.finite r m' e' positive') =
          withSign (s * r) ((m * m' : ℕ) * 2 ^ (e + e')) := by
        rw [standing, standing, ← withSign_mul_withSign, zpow_add₀ two_ne_zero]
        push_cast
        congr 1
        ring
      rw [product]
      refine roundsTo_whole (s * r) (Nat.mul_pos positive positive')
        (le_spacing (Nat.mul_pos positive positive') ?_)
      -- a product of two mantissas of which one has 53 digits has no fewer
      obtain long | least := grid.normal
      · exact .inl (long.trans (Nat.le_mul_of_pos_right m positive'))
      · obtain long' | least' := grid'.normal
        · exact .inl (long'.trans (Nat.le_mul_of_pos_left m' positive))
        · exact .inr (by omega)

/-- A quotient is above the power of two that the digits of its operands tell. -/
theorem zpow_lt_div {m m' : Nat} (e e' : Int) (positive : 0 < m) (positive' : 0 < m') :
    (2 : ℚ) ^ (m.log2 + e - (m'.log2 + e') - 1) < m * 2 ^ e / (m' * 2 ^ e') := by
  have below : (2 : ℚ) ^ (m.log2 : ℤ) ≤ m := by exact_mod_cast Nat.log2_self_le positive.ne'
  have above : (m' : ℚ) < 2 ^ (m'.log2 + 1 : ℤ) := by exact_mod_cast Nat.lt_log2_self
  rw [lt_div_iff₀ (by positivity)]
  calc (2 : ℚ) ^ (m.log2 + e - (m'.log2 + e') - 1) * (m' * 2 ^ e')
      < 2 ^ (m.log2 + e - (m'.log2 + e') - 1) * (2 ^ (m'.log2 + 1 : ℤ) * 2 ^ e') := by gcongr
    _ = 2 ^ (m.log2 : ℤ) * 2 ^ e := by
      simp only [← zpow_add₀ (two_ne_zero : (2 : ℚ) ≠ 0)]
      congr 1
      ring
    _ ≤ m * 2 ^ e := by gcongr

/-- The quotient of two magnitudes has enough digits to be rounded. -/
theorem roundsTo_divCore {m m' : Nat} {e e' : Int} (s : Sign) (positive : 0 < m)
    (positive' : 0 < m') :
    let (k, g, accuracy) := divCore .binary64 m e m' e'
    RoundsTo (withSign s (m * 2 ^ e / (m' * 2 ^ e')))
      (roundWithAccuracy .binary64 s k g accuracy) := by
  have target : Format.binary64.targetExponent (totalExponent m e - totalExponent m' e') =
      max (m.log2 + e - (m'.log2 + e') - 53) (-1074) := by
    have bits : (Format.binary64.mantissaBits : Int) = 53 := rfl
    have least : Format.binary64.minExponent = -1074 := rfl
    unfold Format.targetExponent totalExponent
    omega
  simp only [divCore, target]
  set g := min (e - e') (max (m.log2 + e - (m'.log2 + e') - 53) (-1074)) with hg
  generalize shift : (e - e' - g).toNat = d
  have quotient : ((m <<< d : ℕ) : ℚ) / m' * 2 ^ g = m * 2 ^ e / (m' * 2 ^ e') := by
    have exponent : (e : ℤ) = d + g + e' := by omega
    rw [Nat.shiftLeft_eq, exponent, zpow_add₀ two_ne_zero, zpow_add₀ two_ne_zero, zpow_natCast]
    push_cast
    field_simp
  have large := zpow_lt_div e e' positive positive'
  have above : (0 : ℚ) < m * 2 ^ e / (m' * 2 ^ e') := by positivity
  rw [← quotient] at large above ⊢
  refine roundsTo_roundWithAccuracy s (pos_of_mul_pos_left above (by positivity))
    (holds_quotient positive') ?_ ?_
  · by_cases low : g ≤ -1074
    · exact .inr low
    · left
      have one : (1 : ℚ) ≤ (m <<< d : ℕ) / m' := by
        have unit : (0 : ℚ) < 2 ^ g := by positivity
        refine le_of_mul_le_mul_right ?_ unit
        rw [one_mul]
        exact (zpow_le_zpow_right₀ one_le_two (by omega)).trans large.le
      rw [one_le_div (by exact_mod_cast positive')] at one
      exact Nat.div_pos (by exact_mod_cast one) positive'
  · rw [spacing_of_pos above]
    have := (Int.zpow_le_iff_le_log one_lt_two above).1 (by exact_mod_cast large.le)
    omega

theorem roundsTo_div (finite : u.isFinite = true) (finite' : v.isFinite = true)
    (nonzero : standing v ≠ 0) : RoundsTo (standing u / standing v) (u.div .binary64 v) := by
  cases v with
  | notANumber => cases finite'
  | infinity r => cases finite'
  | zero r => exact absurd rfl nonzero
  | finite r m' e' positive' =>
    cases u with
    | notANumber => cases finite
    | infinity s => cases finite
    | zero s =>
      rw [show standing (.zero s) = 0 from rfl, zero_div]
      exact rounded_zero
    | finite s m e positive =>
      rw [standing, standing, ← withSign_div_withSign]
      exact roundsTo_divCore (s / r) positive positive'

end

/-! ## Operations -/

section
variable {x y : Float}

theorem Stands.isFinite_iff {p : ℚ} (h : Stands x p) : x.isFinite = true ↔ |p| < ceiling := by
  rw [isFinite_iff_place, h.place]
  exact and_iff_right h.number

/-- The place of a finite double is a point of its grid. -/
theorem rounded_place (h : x.isFinite = true) : rounded (place x) = place x := by
  have finite : (unpacked x).isFinite = true := h
  have rounds := roundsTo_standing (sound_unpacked x) finite
  unfold place
  generalize unpacked x = u at *
  cases u with
  | notANumber => cases finite
  | infinity s => cases finite
  | zero s => exact rounds
  | finite s m e positive => exact rounds.1

theorem stored_place (h : x.isFinite = true) : stored (place x) = place x := by
  have point := rounded_place h
  rw [stored_eq_rounded (point.symm ▸ (isFinite_iff_place.1 h).2), point]

/-- A finite double stands where the fraction stored in it is rounded to. -/
theorem place_eq_rounded {p : ℚ} (h : Stands x (stored p)) (finite : x.isFinite = true) :
    place x = rounded p := by
  rw [h.isFinite_iff, abs_lt] at finite
  unfold stored at finite
  rw [h.place, stored, min_eq_left, max_eq_right]
  · by_contra! low
    rw [max_eq_left ((min_le_left _ _).trans low.le)] at finite
    exact lt_irrefl _ finite.1
  · by_contra! high
    rw [min_eq_right high.le] at finite
    exact absurd (le_max_right _ _) finite.2.not_ge

theorem stands_add (hx : x.isFinite = true) (hy : y.isFinite = true) :
    Stands (x + y) (stored (place x + place y)) :=
  stands_pack (roundsTo_add (sound_unpacked x) (sound_unpacked y) hx hy)

theorem stands_sub (hx : x.isFinite = true) (hy : y.isFinite = true) :
    Stands (x - y) (stored (place x - place y)) :=
  stands_pack (roundsTo_sub (sound_unpacked x) (sound_unpacked y) hx hy)

theorem stands_mul (hx : x.isFinite = true) (hy : y.isFinite = true) :
    Stands (x * y) (stored (place x * place y)) :=
  stands_pack (roundsTo_mul (sound_unpacked x) (sound_unpacked y) hx hy)

theorem stands_div (hx : x.isFinite = true) (hy : y.isFinite = true) (nonzero : place y ≠ 0) :
    Stands (x / y) (stored (place x / place y)) :=
  stands_pack (roundsTo_div hx hy nonzero)

/-- Only an infinite double stands at the ceiling. -/
theorem exists_infinite (h : place x = ceiling) : ∃ s, unpacked x = .infinity s := by
  have top := ceiling_pos
  have sound := sound_unpacked x
  unfold place at h
  generalize unpacked x = u at *
  cases u with
  | notANumber => exact absurd h top.ne
  | infinity s => exact ⟨s, rfl⟩
  | zero s => exact absurd h top.ne
  | finite s m e positive =>
    have below : (m : ℚ) * 2 ^ e < ceiling := Canonical.lt_ceiling sound
    have above : 0 < (m : ℚ) * 2 ^ e := by positivity
    cases s
    · exact absurd h ((neg_lt_zero.2 above).trans top).ne
    · exact absurd h below.ne

theorem stands_div_infinite (hx : x.isFinite = true) (hy : place y = ceiling) :
    Stands (x / y) 0 := by
  have finite : (unpacked x).isFinite = true := hx
  obtain ⟨s, infinite⟩ := exists_infinite hy
  have quotient : ∃ r, (unpacked x).div .binary64 (unpacked y) = .zero r := by
    rw [infinite]
    generalize unpacked x = u at finite ⊢
    cases u with
    | notANumber => cases finite
    | infinity r => cases finite
    | zero r => exact ⟨_, rfl⟩
    | finite r m e positive => exact ⟨_, rfl⟩
  obtain ⟨r, zero⟩ := quotient
  have same : x / y = .ofModel (pack (.zero r)) := congrArg (fun u => Float.ofModel (pack u)) zero
  rw [same]
  exact stands_of_unpacked (unpacked_pack (u := .zero r) trivial) (by simp)

/-! ## One, and the least normal double -/

theorem stands_one : Stands 1.0 1 := by
  have unpacks : unpacked 1.0 = .finite .positive (2 ^ 52) (-52) (by norm_num) := rfl
  have one : standing (.finite .positive (2 ^ 52) (-52) (by norm_num)) = 1 := by
    norm_num [standing, withSign]
  exact one ▸ stands_of_unpacked unpacks (by simp)

theorem stands_leastNormal : Stands 2.2250738585072014e-308 leastNormal := by
  have bits : (2.2250738585072014e-308 : Float).toModel.toBits = 2 ^ 52 := by decide +kernel
  have unpacks : unpacked 2.2250738585072014e-308 =
      .finite .positive (2 ^ 52) (-1074) (by norm_num) := by
    unfold unpacked Float.Model.unpack
    rw [bits]
    rfl
  have value : leastNormal = standing (.finite .positive (2 ^ 52) (-1074) (by norm_num)) := by
    have exponent : (-1022 : ℤ) = 52 + -1074 := rfl
    rw [leastNormal, exponent, zpow_add₀ two_ne_zero]
    rfl
  rw [value]
  exact stands_of_unpacked unpacks (by simp)

/-! ## Whole numbers -/

theorem abs_natCast_lt_ceiling {n : Nat} (small : n < 2 ^ 53) : |(n : ℚ)| < ceiling := by
  rw [Nat.abs_cast]
  calc (n : ℚ) < 2 ^ (53 : ℤ) := by exact_mod_cast small
    _ ≤ ceiling := zpow_le_zpow_right₀ one_le_two (by norm_num)

theorem stored_natCast {n : Nat} (small : n < 2 ^ 53) : stored n = n := by
  obtain rfl | positive := Nat.eq_zero_or_pos n
  · rw [Nat.cast_zero, stored_eq_rounded, rounded_zero]
    rw [rounded_zero, abs_zero]
    exact ceiling_pos
  · have fine := spacing_le (e := 0) positive small (by norm_num)
    rw [zpow_zero, mul_one] at fine
    have point : rounded n = n := by
      simpa using rounded_eq_self (k := n) (e := 0) (by simpa using fine)
    rw [stored_eq_rounded (point.symm ▸ abs_natCast_lt_ceiling small), point]

theorem stored_nonneg {p : ℚ} (h : 0 ≤ p) : 0 ≤ stored p := by
  have zero := stored_natCast (n := 0) (by norm_num)
  rw [Nat.cast_zero] at zero
  exact zero.ge.trans (stored_mono h)

theorem one_le_stored {k : Nat} (positive : 0 < k) : 1 ≤ stored k := by
  have one := stored_natCast (n := 1) (by norm_num)
  rw [Nat.cast_one] at one
  rw [← one]
  exact stored_mono (by exact_mod_cast positive)

theorem stands_toFloat {n : Nat} (small : n < 2 ^ 53) : Stands n.toUInt64.toFloat n := by
  have same : n.toUInt64.toNat = n := Nat.mod_eq_of_lt (small.trans (by norm_num))
  have packed : Stands n.toUInt64.toFloat (stored (((n.toUInt64.toNat : ℕ) : ℤ) * 2 ^ (0 : ℤ))) :=
    stands_pack (roundsTo_normalize _ _)
  rwa [zpow_zero, mul_one, Int.cast_natCast, same, stored_natCast small] at packed

theorem stands_ofNat (n : Nat) : Stands (Float.ofNat n) (stored n) := by
  change Stands (Float.ofScientific n false 0) _
  unfold Float.ofScientific
  split
  · next small =>
    have whole := stands_toFloat small.1
    have finite := whole.isFinite_iff.2 (abs_natCast_lt_ceiling small.1)
    have product := stands_mul (y := 1.0) finite rfl
    rwa [whole.place, stands_one.place, mul_one] at product
  · next large =>
    have positive : 0 < n := by omega
    have powers : (2 ^ Format.exponentBits .binary64 : Int) = 2048 := rfl
    have huge : ¬ (0 : Int) > 2 ^ Format.exponentBits .binary64 := by omega
    have tiny : ¬ (0 : Int) < -(2 ^ Format.exponentBits .binary64 + n.log2) := by omega
    have product : UnpackedFloat.ofScientific .binary64 n 0 =
        roundWithAccuracy .binary64 .positive (n <<< 53 * 10 ^ 0) (-53) .exact := by
      unfold UnpackedFloat.ofScientific
      rw [dif_neg positive.ne', if_neg huge, if_neg tiny, if_pos le_rfl]
      rfl
    have long : n <<< 53 * 10 ^ 0 = n * 2 ^ 53 := by rw [Nat.shiftLeft_eq, pow_zero, mul_one]
    have value : ((n * 2 ^ 53 : ℕ) : ℚ) * 2 ^ (-53 : ℤ) = n := by
      rw [zpow_neg]
      push_cast
      field_simp
    have digits : 2 ^ 52 ≤ n * 2 ^ 53 := by omega
    rw [long] at product
    generalize n * 2 ^ 53 = k at value product digits
    have some : 0 < k := by omega
    have rounds := roundsTo_whole .positive some (le_spacing (e := -53) some (.inl digits))
    rw [value, ← product] at rounds
    change Stands (.ofModel (pack (UnpackedFloat.ofScientific .binary64 n 0))) _
    exact stands_pack rounds

theorem isFinite_ofNat_iff {n : Nat} : (Float.ofNat n).isFinite = true ↔ stored n < ceiling := by
  rw [(stands_ofNat n).isFinite_iff, abs_of_nonneg (stored_nonneg n.cast_nonneg)]

theorem stands_ofNat_of_lt {n : Nat} (small : n < 2 ^ 53) : Stands (Float.ofNat n) n := by
  have whole := stands_ofNat n
  rwa [stored_natCast small] at whole

theorem isFinite_ofNat_of_lt {n : Nat} (small : n < 2 ^ 53) : (Float.ofNat n).isFinite = true :=
  (stands_ofNat_of_lt small).isFinite_iff.2 (abs_natCast_lt_ceiling small)

/-! ## Results that are finite -/

theorem isFinite_of_pack {u : UnpackedFloat} (h : (Float.ofModel (pack u)).isFinite = true) :
    u.isFinite = true := by
  cases u with
  | notANumber => exact h
  | infinity s => cases s <;> exact h
  | zero s => rfl
  | finite s m e positive => rfl

theorem isFinite_of_add_unpacked {u v : UnpackedFloat}
    (finite : (u.add .binary64 v).isFinite = true) : u.isFinite = true ∧ v.isFinite = true := by
  cases u with
  | notANumber => cases finite
  | infinity s =>
    cases v with
    | infinity r => cases s <;> cases r <;> cases finite
    | _ => cases finite
  | zero s =>
    cases v with
    | notANumber => cases finite
    | infinity r => cases finite
    | _ => exact ⟨rfl, rfl⟩
  | finite s m e positive =>
    cases v with
    | notANumber => cases finite
    | infinity r => cases finite
    | _ => exact ⟨rfl, rfl⟩

theorem isFinite_of_add (h : (x + y).isFinite = true) : x.isFinite = true ∧ y.isFinite = true :=
  isFinite_of_add_unpacked (isFinite_of_pack h)

theorem isFinite_of_sub (h : (x - y).isFinite = true) : x.isFinite = true ∧ y.isFinite = true := by
  have finite : ((unpacked x).sub .binary64 (unpacked y)).isFinite = true := isFinite_of_pack h
  rw [sub_eq_add_neg_unpacked] at finite
  have kept : (unpacked y).neg.isFinite = (unpacked y).isFinite := by cases unpacked y <;> rfl
  obtain ⟨left, right⟩ := isFinite_of_add_unpacked finite
  exact ⟨left, kept.symm.trans right⟩

theorem isFinite_of_mul (h : (x * y).isFinite = true) : x.isFinite = true ∧ y.isFinite = true := by
  have finite : ((unpacked x).mul .binary64 (unpacked y)).isFinite = true := isFinite_of_pack h
  change (unpacked x).isFinite = true ∧ (unpacked y).isFinite = true
  generalize unpacked x = u at *
  generalize unpacked y = v at *
  cases u with
  | notANumber => cases finite
  | infinity s => cases v <;> cases finite
  | zero s =>
    cases v with
    | notANumber => cases finite
    | infinity r => cases finite
    | _ => exact ⟨rfl, rfl⟩
  | finite s m e positive =>
    cases v with
    | notANumber => cases finite
    | infinity r => cases finite
    | _ => exact ⟨rfl, rfl⟩

theorem isFinite_of_div (h : (x / y).isFinite = true) : x.isFinite = true := by
  have finite : ((unpacked x).div .binary64 (unpacked y)).isFinite = true := isFinite_of_pack h
  change (unpacked x).isFinite = true
  generalize unpacked x = u at *
  generalize unpacked y = v at *
  cases u with
  | notANumber => cases finite
  | infinity s => cases v <;> cases finite
  | _ => rfl

end

end Acausal
