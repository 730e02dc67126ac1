-- Sizes and subscripts as doubles. The magnitude read off the bits of a double is where it stands,
-- its sign set aside; so a literal is a count exactly when it stands at a positive whole number,
-- and the digits of that count are read as a double that is counted the same.
import Acausal.Number.Read
import Acausal.Proofs.RoundedDoubles
import Std.Data.String.ToNat

namespace Acausal

open Float.Model
open Float.Model.UnpackedFloat hiding pack unpack

variable {x : Float}

/-! ## Magnitudes -/

/-- The magnitude of an unpacked double. -/
def magnitudeOf : UnpackedFloat → Magnitude
  | .notANumber => .notANumber
  | .infinity _ => .infinite
  | .zero _ => .finite 0 (-1074)
  | .finite _ m e _ => .finite m e

theorem magnitude_eq (x : Float) : magnitude x = magnitudeOf (unpacked x) := by
  obtain ⟨s, biased, fraction, fields⟩ := exists_fields x
  have shape : unpacked x =
      UnpackedFloat.unpack .binary64 (packComponents .binary64 s biased fraction) := by
    rw [← fields]
    rfl
  rw [fields.magnitude_eq, shape, unpack_packComponents]
  have most : biased = -1#_ ↔ biased.toNat = 2047 := BitVec.toNat_inj.symm
  have least : biased = 0#_ ↔ biased.toNat = 0 := BitVec.toNat_inj.symm
  have empty : fraction = 0#_ ↔ fraction.toNat = 0 := BitVec.toNat_inj.symm
  simp only [most, least, empty]
  split
  · split <;> rfl
  · split
    · split
      · next zero =>
        rw [zero]
        rfl
      · rfl
    · rfl

/-! ## Powers of two -/

theorem powerOfTwo_pos (e : Int) : 0 < (powerOfTwo e).2 := by
  cases e with
  | ofNat n => exact Nat.one_pos
  | negSucc n => exact Nat.two_pow_pos (n + 1)

theorem powerOfTwo_div (e : Int) : ((powerOfTwo e).1 : ℚ) / (powerOfTwo e).2 = 2 ^ e := by
  cases e with
  | ofNat n => simp [powerOfTwo]
  | negSucc n => simp [powerOfTwo, zpow_negSucc]

/-- A quotient of natural numbers that is a natural number. -/
theorem exact_quotient_iff {a b w : Nat} (positive : 0 < b) :
    (if a % b = 0 then some (a / b) else none) = some w ↔ (a : ℚ) / b = w := by
  have nonzero : (b : ℚ) ≠ 0 := by positivity
  rw [div_eq_iff nonzero]
  norm_cast
  constructor
  · intro h
    split at h
    · next divides =>
      rw [← Option.some.inj h, Nat.div_mul_cancel (Nat.dvd_of_mod_eq_zero divides)]
    · cases h
  · rintro rfl
    rw [if_pos (Nat.mul_mod_left w b), Nat.mul_div_cancel w positive]

/-! ## Whole numbers -/

theorem wholeMagnitude?_of_magnitude {m w : Nat} {e : Int} (h : magnitude x = .finite m e) :
    wholeMagnitude? x = some w ↔ (m : ℚ) * 2 ^ e = w := by
  unfold wholeMagnitude?
  rw [h, ← powerOfTwo_div, ← mul_div_assoc, ← Nat.cast_mul]
  exact exact_quotient_iff (powerOfTwo_pos e)

theorem wholeMagnitude?_eq_some_iff {w : Nat} :
    wholeMagnitude? x = some w ↔ x.isFinite = true ∧ |place x| = w := by
  have magnitude := magnitude_eq x
  change _ ↔ (unpacked x).isFinite = true ∧ |standing (unpacked x)| = w
  generalize unpacked x = u at *
  cases u with
  | notANumber => simp [wholeMagnitude?, magnitude, magnitudeOf, UnpackedFloat.isFinite]
  | infinity s => simp [wholeMagnitude?, magnitude, magnitudeOf, UnpackedFloat.isFinite]
  | zero s =>
    rw [wholeMagnitude?_of_magnitude magnitude, Nat.cast_zero, zero_mul]
    simp [standing, UnpackedFloat.isFinite]
  | finite s m e positive =>
    have nonneg : 0 ≤ (m : ℚ) * 2 ^ e := by positivity
    rw [wholeMagnitude?_of_magnitude magnitude, standing, abs_withSign, abs_of_nonneg nonneg]
    exact iff_and_self.mpr fun _ => rfl

/-- A double is read as a count exactly when it stands at a positive whole number, which is the
count unless it is too large for one. -/
theorem count?_eq_some_iff {k : Nat} : count? x = some k ↔
    x.isFinite = true ∧ ∃ w : Nat, 1 ≤ w ∧ place x = w ∧ k = min w largestCount := by
  have one : ((1.0 : Float)).isFinite = true := rfl
  unfold count?
  constructor
  · intro h
    split at h
    · next least =>
      obtain ⟨w, whole, rfl⟩ := Option.map_eq_some_iff.mp h
      obtain ⟨finite, magnitude⟩ := wholeMagnitude?_eq_some_iff.mp whole
      rw [le_iff_of_isFinite one finite, stands_one.place] at least
      rw [abs_of_nonneg (by linarith)] at magnitude
      refine ⟨finite, w, ?_, magnitude, rfl⟩
      rw [magnitude] at least
      exact_mod_cast least
    · cases h
  · rintro ⟨finite, w, least, here, rfl⟩
    have above : (1.0 : Float) ≤ x := by
      rw [le_iff_of_isFinite one finite, stands_one.place, here]
      exact_mod_cast least
    have whole : wholeMagnitude? x = some w :=
      wholeMagnitude?_eq_some_iff.mpr ⟨finite, by rw [here, Nat.abs_cast]⟩
    rw [if_pos above, whole]
    rfl

/-! ## Counts that were read -/

theorem nearestDouble_eq {k : Nat} (positive : 0 < k) (bound : k < 2 ^ 64) :
    nearestDouble k 0 = Float.ofNat k := by
  have short : (Nat.toDigits 10 k).length ≤ 20 := by
    rw [Nat.length_toDigits_le_iff (by omega) (by omega)]
    exact Nat.lt_of_lt_of_le bound (by norm_num)
  unfold nearestDouble
  simp only
  rw [if_neg (by omega), if_neg (by omega)]
  rfl

/-- The digits of a count are read as a double that is counted the same. -/
theorem count?_nearestDouble {i : Nat} (h : count? x = some i) :
    count? (nearestDouble i 0) = some i := by
  obtain ⟨finite, w, least, here, rfl⟩ := count?_eq_some_iff.mp h
  rcases lt_or_ge largestCount w with large | small
  · rw [Nat.min_eq_right large.le]
    decide +kernel
  · have bound : w < 2 ^ 64 := small.trans_lt (by decide)
    have digits := stands_ofNat w
    rw [← here, stored_place finite] at digits
    rw [Nat.min_eq_left small, nearestDouble_eq least bound, count?_eq_some_iff]
    have inside := (isFinite_iff_place.mp finite).2
    exact ⟨digits.isFinite_iff.mpr inside, w, least, digits.place.trans here,
      (Nat.min_eq_left small).symm⟩

end Acausal
