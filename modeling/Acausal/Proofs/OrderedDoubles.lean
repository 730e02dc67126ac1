-- Doubles on the line of fractions. A double that is a number stands at a place: a finite one at
-- its value, an infinite one at the power of two that all finite ones stay below. Comparing
-- doubles is comparing places, so the order of the doubles that are numbers is that of the
-- fractions.
import Acausal.Proofs.SpecialDoubles
import Mathlib

namespace Acausal

open Float.Model
open Float.Model.UnpackedFloat hiding pack unpack

/-! ## Places -/

/-- A fraction with a sign put in front. -/
def withSign (s : Sign) (q : ℚ) : ℚ :=
  match s with
  | .positive => q
  | .negative => -q

theorem abs_withSign (s : Sign) (q : ℚ) : |withSign s q| = |q| := by
  cases s
  · exact abs_neg q
  · rfl

theorem withSign_zero (s : Sign) : withSign s 0 = 0 := by
  cases s
  · exact neg_zero
  · rfl

theorem withSign_withSign (s : Sign) (p : ℚ) : withSign s (withSign s p) = p := by
  cases s
  · exact neg_neg p
  · rfl

theorem withSign_mul (s : Sign) (p q : ℚ) : withSign s (p * q) = withSign s p * q := by
  cases s
  · exact (neg_mul p q).symm
  · rfl

theorem withSign_mul_withSign (s r : Sign) (p q : ℚ) :
    withSign (s * r) (p * q) = withSign s p * withSign r q := by
  cases s <;> cases r
  · exact (neg_mul_neg p q).symm
  · exact (neg_mul p q).symm
  · exact (mul_neg p q).symm
  · rfl

theorem withSign_div_withSign (s r : Sign) (p q : ℚ) :
    withSign (s / r) (p / q) = withSign s p / withSign r q := by
  cases s <;> cases r
  · exact (neg_div_neg_eq p q).symm
  · exact (neg_div q p).symm
  · exact (div_neg p).symm
  · rfl

theorem withSign_neg (s : Sign) (p : ℚ) : withSign (-s) p = -withSign s p := by
  cases s
  · exact (neg_neg p).symm
  · rfl

/-- The least power of two that is too large for a finite double. -/
def ceiling : ℚ := 2 ^ (1024 : ℤ)

theorem ceiling_pos : 0 < ceiling := zpow_pos two_pos _

/-- Where an unpacked double stands; what is no number is kept at zero. -/
def standing : UnpackedFloat → ℚ
  | .notANumber => 0
  | .infinity s => withSign s ceiling
  | .zero _ => 0
  | .finite s m e _ => withSign s (m * 2 ^ e)

/-- Where a double stands. -/
def place (x : Float) : ℚ := standing (unpacked x)

/-! ## Finite doubles -/

/-- What a double unpacks to, if it is finite and not zero, is in canonical form. -/
theorem canonical_of_unpacked {x : Float} {s : Sign} {m : Nat} {e : Int} {h : 0 < m}
    (hx : unpacked x = .finite s m e h) : Canonical m e := by
  obtain ⟨sign, exponent, fraction, fields⟩ := exists_fields x
  have := exponent.isLt
  have := fraction.isLt
  have shape : unpacked x =
      UnpackedFloat.unpack .binary64 (packComponents .binary64 sign exponent fraction) := by
    rw [← fields]
    rfl
  rw [shape, unpack_packComponents] at hx
  split at hx
  · split at hx <;> cases hx
  · next most =>
    have below : exponent.toNat ≠ 2047 := fun h => most (BitVec.eq_of_toNat_eq h)
    split at hx
    · split at hx
      · cases hx
      · cases hx
        exact ⟨by omega, by omega, by omega, .inr rfl⟩
    · next least =>
      have above : exponent.toNat ≠ 0 := fun h => least (BitVec.eq_of_toNat_eq h)
      cases hx
      exact ⟨by omega, by omega, by omega, .inl (by omega)⟩

variable {m m' : Nat} {e e' : Int}

theorem Canonical.lt_ceiling (h : Canonical m e) : (m : ℚ) * 2 ^ e < ceiling := by
  have small : (m : ℚ) < 2 ^ (53 : ℤ) := by exact_mod_cast h.small
  have high := h.high
  calc (m : ℚ) * 2 ^ e < 2 ^ (53 : ℤ) * 2 ^ e := by gcongr
    _ = 2 ^ (53 + e) := (zpow_add₀ two_ne_zero _ _).symm
    _ ≤ ceiling := zpow_le_zpow_right₀ one_le_two (by omega)

/-- Of two magnitudes in canonical form the one with the larger exponent is larger. -/
theorem Canonical.lt_of_exponent_lt (h : Canonical m e) (h' : Canonical m' e') (less : e < e') :
    (m : ℚ) * 2 ^ e < m' * 2 ^ e' := by
  have small : (m : ℚ) < 2 ^ (53 : ℤ) := by exact_mod_cast h.small
  have large : (2 : ℚ) ^ (52 : ℤ) ≤ m' := by
    have := h.low
    have := h'.normal.resolve_right (by omega)
    exact_mod_cast this
  calc (m : ℚ) * 2 ^ e < 2 ^ (53 : ℤ) * 2 ^ e := by gcongr
    _ = 2 ^ (53 + e) := (zpow_add₀ two_ne_zero _ _).symm
    _ ≤ 2 ^ (52 + e') := zpow_le_zpow_right₀ one_le_two (by omega)
    _ = 2 ^ (52 : ℤ) * 2 ^ e' := zpow_add₀ two_ne_zero _ _
    _ ≤ m' * 2 ^ e' := by gcongr

theorem Canonical.compare_eq (h : Canonical m e) (h' : Canonical m' e') :
    (compare e e').then (compare m m') = compare ((m : ℚ) * 2 ^ e) (m' * 2 ^ e') := by
  obtain less | rfl | more := lt_trichotomy e e'
  · rw [compare_lt_iff_lt.2 less, compare_lt_iff_lt.2 (h.lt_of_exponent_lt h' less)]
    rfl
  · have scale : (0 : ℚ) < 2 ^ e := by positivity
    rw [compare_eq_iff_eq.2 rfl]
    change compare m m' = _
    obtain less | rfl | more := lt_trichotomy m m'
    · rw [compare_lt_iff_lt.2 less, compare_lt_iff_lt.2]
      gcongr
    · rw [compare_eq_iff_eq.2 rfl, compare_eq_iff_eq.2 rfl]
    · rw [compare_gt_iff_gt.2 more, compare_gt_iff_gt.2]
      gcongr
  · rw [compare_gt_iff_gt.2 more, compare_gt_iff_gt.2 (h'.lt_of_exponent_lt h more)]
    rfl

/-! ## Comparison -/

/-- An unpacked double whose magnitude is in canonical form, if it has one. -/
def Sound : UnpackedFloat → Prop
  | .finite _ m e _ => Canonical m e
  | _ => True

theorem sound_unpacked (x : Float) : Sound (unpacked x) := by
  cases h : unpacked x with
  | finite s m e pos => exact canonical_of_unpacked h
  | _ => trivial

theorem compare_neg_neg (p q : ℚ) : compare (-p) (-q) = (compare p q).swap := by
  obtain less | rfl | more := lt_trichotomy p q
  · rw [compare_lt_iff_lt.2 less, compare_gt_iff_gt.2 (neg_lt_neg less)]
    rfl
  · rw [compare_eq_iff_eq.2 rfl, compare_eq_iff_eq.2 rfl]
    rfl
  · rw [compare_gt_iff_gt.2 more, compare_lt_iff_lt.2 (neg_lt_neg more)]
    rfl

theorem some_lt {p q : ℚ} (h : p < q) : some .lt = some (compare p q) :=
  congrArg some (compare_lt_iff_lt.2 h).symm

theorem some_gt {p q : ℚ} (h : q < p) : some .gt = some (compare p q) :=
  congrArg some (compare_gt_iff_gt.2 h).symm

theorem some_eq (p : ℚ) : some .eq = some (compare p p) :=
  congrArg some (compare_eq_iff_eq.2 rfl).symm

/-- Doubles that are numbers compare as the places where they stand. -/
theorem compare_eq_compare_standing {u v : UnpackedFloat} (hu : Sound u) (hv : Sound v)
    (number : u ≠ .notANumber) (number' : v ≠ .notANumber) :
    u.compare v = some (compare (standing u) (standing v)) := by
  have top := ceiling_pos
  have inside {m : Nat} {e : Int} (pos : 0 < m) (h : Canonical m e) :
      0 < (m : ℚ) * 2 ^ e ∧ (m : ℚ) * 2 ^ e < ceiling := ⟨by positivity, h.lt_ceiling⟩
  cases u with
  | notANumber => exact absurd rfl number
  | infinity s =>
    cases v with
    | notANumber => exact absurd rfl number'
    | infinity r =>
      cases s <;> cases r
      · exact some_eq _
      · exact some_lt (neg_lt_self top)
      · exact some_gt (neg_lt_self top)
      · exact some_eq _
    | zero r =>
      cases s
      · exact some_lt (neg_lt_zero.2 top)
      · exact some_gt top
    | finite r m' e' pos' =>
      obtain ⟨above, below⟩ := inside pos' hv
      cases s <;> cases r
      · exact some_lt (neg_lt_neg below)
      · exact some_lt ((neg_lt_zero.2 top).trans above)
      · exact some_gt ((neg_lt_zero.2 above).trans top)
      · exact some_gt below
  | zero s =>
    cases v with
    | notANumber => exact absurd rfl number'
    | infinity r =>
      cases r
      · exact some_gt (neg_lt_zero.2 top)
      · exact some_lt top
    | zero r => exact some_eq _
    | finite r m' e' pos' =>
      obtain ⟨above, -⟩ := inside pos' hv
      cases r
      · exact some_gt (neg_lt_zero.2 above)
      · exact some_lt above
  | finite s m e pos =>
    obtain ⟨above, below⟩ := inside pos hu
    cases v with
    | notANumber => exact absurd rfl number'
    | infinity r =>
      cases s <;> cases r
      · exact some_gt (neg_lt_neg below)
      · exact some_lt ((neg_lt_zero.2 above).trans top)
      · exact some_gt ((neg_lt_zero.2 top).trans above)
      · exact some_lt below
    | zero r =>
      cases s
      · exact some_lt (neg_lt_zero.2 above)
      · exact some_gt above
    | finite r m' e' pos' =>
      obtain ⟨above', -⟩ := inside pos' hv
      have magnitudes := hu.compare_eq hv
      cases s <;> cases r
      · refine congrArg some ?_
        rw [magnitudes]
        exact (compare_neg_neg _ _).symm
      · exact some_lt ((neg_lt_zero.2 above).trans above')
      · exact some_gt ((neg_lt_zero.2 above').trans above)
      · exact congrArg some magnitudes

section
variable {x y : Float}

theorem compare_unpacked (hx : ¬ IsNaN x) (hy : ¬ IsNaN y) :
    (unpacked x).compare (unpacked y) = some (compare (place x) (place y)) :=
  compare_eq_compare_standing (sound_unpacked x) (sound_unpacked y) hx hy

theorem compare_of_isNaN (h : IsNaN x ∨ IsNaN y) : (unpacked x).compare (unpacked y) = none := by
  rcases h with h | h
  · rw [h]
    rfl
  · rw [h]
    cases unpacked x <;> rfl

theorem lt_iff_unpacked : x < y ↔ (unpacked x).lt (unpacked y) = true := by
  change decide ((unpacked x).lt (unpacked y) = true) = true ↔ _
  rw [decide_eq_true_iff]

theorem le_iff_unpacked : x ≤ y ↔ (unpacked x).le (unpacked y) = true := by
  change decide ((unpacked x).le (unpacked y) = true) = true ↔ _
  rw [decide_eq_true_iff]

theorem lt_iff_place (hx : ¬ IsNaN x) (hy : ¬ IsNaN y) : x < y ↔ place x < place y := by
  rw [lt_iff_unpacked, UnpackedFloat.lt, compare_unpacked hx hy]
  simp [compare_lt_iff_lt]

theorem le_iff_place (hx : ¬ IsNaN x) (hy : ¬ IsNaN y) : x ≤ y ↔ place x ≤ place y := by
  rw [le_iff_unpacked, UnpackedFloat.le, compare_unpacked hx hy]
  simp [Ordering.isLE_iff_ne_gt, compare_gt_iff_gt]

/-- Only numbers are in order. -/
theorem not_isNaN_of_lt (h : x < y) : ¬ IsNaN x ∧ ¬ IsNaN y := by
  rw [← not_or]
  intro nan
  rw [lt_iff_unpacked, UnpackedFloat.lt, compare_of_isNaN nan] at h
  cases h

/-- The finite doubles are the numbers that stand below the ceiling on both sides. -/
theorem isFinite_iff_place : x.isFinite = true ↔ ¬ IsNaN x ∧ |place x| < ceiling := by
  have top := ceiling_pos
  have sound := sound_unpacked x
  change (unpacked x).isFinite = true ↔ _
  unfold IsNaN place
  generalize unpacked x = u at sound ⊢
  cases u with
  | notANumber => simp [UnpackedFloat.isFinite]
  | infinity s => simp [UnpackedFloat.isFinite, standing, abs_withSign, abs_of_pos top]
  | zero s => simp [UnpackedFloat.isFinite, standing, top]
  | finite s m e pos =>
    have below : (m : ℚ) * 2 ^ e < ceiling := Canonical.lt_ceiling sound
    have positive : 0 < (m : ℚ) * 2 ^ e := by positivity
    simp [UnpackedFloat.isFinite, standing, abs_withSign, abs_of_pos positive, below]

theorem le_iff_of_isFinite (hx : x.isFinite = true) (hy : y.isFinite = true) :
    x ≤ y ↔ place x ≤ place y :=
  le_iff_place (isFinite_iff_place.1 hx).1 (isFinite_iff_place.1 hy).1

/-! ## Absolute values -/

/-- Packing a sound double and taking it apart again changes nothing. -/
theorem unpacked_pack {u : UnpackedFloat} (h : Sound u) : unpacked (.ofModel (pack u)) = u := by
  cases u with
  | notANumber => rfl
  | infinity s => cases s <;> rfl
  | zero s => cases s <;> rfl
  | finite s m e pos => exact unpack_pack_finite pos h

theorem unpacked_abs (x : Float) : unpacked x.abs = (unpacked x).abs := by
  refine unpacked_pack (u := (unpacked x).abs) ?_
  have sound := sound_unpacked x
  generalize unpacked x = u at sound ⊢
  cases u with
  | finite s m e pos => exact sound
  | _ => trivial

theorem isNaN_abs : IsNaN x.abs ↔ IsNaN x := by
  unfold IsNaN
  rw [unpacked_abs]
  cases unpacked x <;> simp [UnpackedFloat.abs]

end

end Acausal
