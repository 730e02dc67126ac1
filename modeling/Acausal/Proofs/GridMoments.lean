-- The moments of a grid in order. Each moment between the ends is a rounded sum of the start and a
-- rounded product, and rounding keeps the order, so if the last of them is finite and not behind
-- the end of the span, then all are in order and inside it. It is there whenever the step size is a
-- normal double and there are not too many intervals, since then three roundings cannot make up for
-- the interval that is left.
import Acausal.Proofs.RoundedDoubles
import Acausal.Proofs.Trajectories

namespace Acausal.Grid

variable {g : Grid}

/-! ## Order -/

/-- The span of a grid is finite and not reversed. -/
structure Proper (g : Grid) : Prop where
  start : g.span.start.isFinite = true
  stop : g.span.stop.isFinite = true
  order : ¬ g.span.stop < g.span.start

/-- The last moment before the end is finite and not behind the end. -/
def Fits (g : Grid) : Prop :=
  (g.moment (g.intervals - 1)).isFinite = true ∧ g.moment (g.intervals - 1) ≤ g.span.stop

theorem Proper.place_le (h : g.Proper) : place g.span.start ≤ place g.span.stop := by
  have first := (isFinite_iff_place.1 h.start).1
  have last := (isFinite_iff_place.1 h.stop).1
  exact not_lt.1 fun reversed => h.order ((lt_iff_place last first).2 reversed)

theorem moment_inner {k : Nat} (positive : 0 < k) (inside : k < g.intervals) :
    g.moment k = g.span.start + Float.ofNat k * g.stepSize := by
  cases k with
  | zero => exact absurd positive (lt_irrefl 0)
  | succ k => exact if_neg inside.ne

/-- A finite step size is not negative. -/
theorem place_stepSize_nonneg (h : g.Proper) (finite : g.stepSize.isFinite = true) :
    0 ≤ place g.stepSize := by
  unfold stepSize at finite ⊢
  split_ifs at finite ⊢ with none
  · exact le_rfl
  · have width := isFinite_of_div finite
    have difference := stands_sub h.stop h.start
    have nonneg : 0 ≤ place (g.span.stop - g.span.start) := by
      rw [difference.place]
      exact stored_nonneg (sub_nonneg.2 h.place_le)
    have count := stands_ofNat g.intervals
    obtain below | infinite := (stored_le_ceiling g.intervals).lt_or_eq
    · have some := one_le_stored (Nat.pos_of_ne_zero none)
      have quotient := stands_div width (isFinite_ofNat_iff.2 below)
        (by rw [count.place]; exact (one_pos.trans_le some).ne')
      rw [quotient.place, count.place]
      exact stored_nonneg (div_nonneg nonneg (zero_le_one.trans some))
    · have quotient := stands_div_infinite width (count.place.trans infinite)
      exact quotient.place.ge

/-- How far a moment is from the start. -/
def offset (g : Grid) (k : Nat) : ℚ := stored (stored k * place g.stepSize)

/-- What the time of a moment is computed from is finite. -/
structure Measured (g : Grid) (k : Nat) : Prop where
  step : g.stepSize.isFinite = true
  count : (Float.ofNat k).isFinite = true
  product : (Float.ofNat k * g.stepSize).isFinite = true

namespace Measured

variable {k j : Nat}

theorem of_isFinite (positive : 0 < k) (inside : k < g.intervals)
    (finite : (g.moment k).isFinite = true) : g.Measured k := by
  rw [moment_inner positive inside] at finite
  have product := (isFinite_of_add finite).2
  have factors := isFinite_of_mul product
  exact ⟨factors.2, factors.1, product⟩

theorem stands_product (h : g.Measured k) : Stands (Float.ofNat k * g.stepSize) (g.offset k) := by
  have product := stands_mul h.count h.step
  rwa [(stands_ofNat k).place] at product

theorem stands_moment (h : g.Measured k) (proper : g.Proper) (positive : 0 < k)
    (inside : k < g.intervals) :
    Stands (g.moment k) (stored (place g.span.start + g.offset k)) := by
  have sum := stands_add proper.start h.product
  rwa [h.stands_product.place, ← moment_inner positive inside] at sum

end Measured

theorem offset_nonneg (h : 0 ≤ place g.stepSize) (k : Nat) : 0 ≤ g.offset k :=
  stored_nonneg (mul_nonneg (stored_nonneg k.cast_nonneg) h)

theorem offset_mono (h : 0 ≤ place g.stepSize) : Monotone g.offset :=
  fun _ _ le => stored_mono (mul_le_mul_of_nonneg_right (stored_mono (by exact_mod_cast le)) h)

/-- Before a measured moment all are. -/
theorem Measured.mono {k j : Nat} (h : g.Measured j) (proper : g.Proper) (le : k ≤ j) :
    g.Measured k := by
  have nonneg := place_stepSize_nonneg proper h.step
  have count : (Float.ofNat k).isFinite = true := by
    have later := h.count
    rw [isFinite_ofNat_iff] at later ⊢
    exact (stored_mono (by exact_mod_cast le)).trans_lt later
  refine ⟨h.step, count, ?_⟩
  have product := stands_mul count h.step
  rw [(stands_ofNat k).place] at product
  have later := h.product
  rw [h.stands_product.isFinite_iff, abs_of_nonneg (offset_nonneg nonneg j)] at later
  rw [product.isFinite_iff]
  change |g.offset k| < ceiling
  rw [abs_of_nonneg (offset_nonneg nonneg k)]
  exact (offset_mono nonneg le).trans_lt later

/-- The moments before a finite one are finite and in order. -/
theorem moments_ordered (proper : g.Proper) {k j : Nat} (le : k ≤ j) (inside : j < g.intervals)
    (finite : (g.moment j).isFinite = true) :
    (g.moment k).isFinite = true ∧ place g.span.start ≤ place (g.moment k) ∧
      place (g.moment k) ≤ place (g.moment j) := by
  obtain rfl | later := Nat.eq_zero_or_pos j
  · obtain rfl : k = 0 := by omega
    exact ⟨finite, le_rfl, le_rfl⟩
  · have measured := Measured.of_isFinite later inside finite
    have nonneg := place_stepSize_nonneg proper measured.step
    have stands := measured.stands_moment proper later inside
    have point := stored_place proper.start
    have behind (i : Nat) : place g.span.start ≤ stored (place g.span.start + g.offset i) :=
      point.ge.trans (stored_mono (le_add_of_nonneg_right (offset_nonneg nonneg i)))
    obtain rfl | positive := Nat.eq_zero_or_pos k
    · refine ⟨proper.start, le_rfl, ?_⟩
      rw [stands.place]
      exact behind j
    · have stands' := (measured.mono proper le).stands_moment proper positive (by omega)
      have order : stored (place g.span.start + g.offset k) ≤
          stored (place g.span.start + g.offset j) :=
        stored_mono (add_le_add_right (offset_mono nonneg le) _)
      rw [stands.isFinite_iff, abs_lt] at finite
      have low := (abs_lt.1 (isFinite_iff_place.1 proper.start).2).1
      rw [stands'.isFinite_iff, stands'.place, stands.place, abs_lt]
      exact ⟨⟨low.trans_le (behind k), order.trans_lt finite.2⟩, behind k, order⟩

/-! ## Inside the span -/

/-- All moments are finite, inside the span and in order. -/
structure Ordered (g : Grid) : Prop where
  within : ∀ k ≤ g.intervals, (g.moment k).isFinite = true ∧ g.span.start ≤ g.moment k ∧
    g.moment k ≤ g.span.stop
  order : ∀ k j, k ≤ j → j ≤ g.intervals → g.moment k ≤ g.moment j

/-- The moments of a grid whose last inner moment fits into the span all do. -/
theorem moment_within (proper : g.Proper) (fits : g.Fits) {k : Nat} (le : k ≤ g.intervals) :
    (g.moment k).isFinite = true ∧ place g.span.start ≤ place (g.moment k) ∧
      place (g.moment k) ≤ place g.span.stop := by
  obtain less | rfl := le.lt_or_eq
  · obtain ⟨finite, low, high⟩ :=
      moments_ordered proper (Nat.le_sub_one_of_lt less) (by omega) fits.1
    exact ⟨finite, low, high.trans ((le_iff_of_isFinite fits.1 proper.stop).1 fits.2)⟩
  · obtain none | some := Nat.eq_zero_or_pos g.intervals
    · rw [none]
      exact ⟨proper.start, le_rfl, proper.place_le⟩
    · rw [moment_last g some]
      exact ⟨proper.stop, proper.place_le, le_rfl⟩

theorem ordered_of_fits (proper : g.Proper) (fits : g.Fits) : g.Ordered where
  within k le := by
    obtain ⟨finite, low, high⟩ := moment_within proper fits le
    exact ⟨finite, (le_iff_of_isFinite proper.start finite).2 low,
      (le_iff_of_isFinite finite proper.stop).2 high⟩
  order k j le last := by
    have first := moment_within proper fits (le.trans last)
    have second := moment_within proper fits last
    rw [le_iff_of_isFinite first.1 second.1]
    obtain less | rfl := last.lt_or_eq
    · exact (moments_ordered proper le less second.1).2.2
    · obtain none | some := Nat.eq_zero_or_pos g.intervals
      · obtain rfl : k = g.intervals := by omega
        exact le_rfl
      · rw [moment_last g some]
        exact first.2.2

/-! ## Regular steps -/

/-- The step size is finite and no smaller than the normal doubles are, and there are not too many
intervals for three rounding errors to stay below one of them. -/
structure Regular (g : Grid) : Prop where
  finite : g.stepSize.isFinite = true
  normal : 2.2250738585072014e-308 ≤ g.stepSize
  count : g.intervals ≤ 2 ^ 51

theorem moment_fits (proper : g.Proper) (measured : g.Measured (g.intervals - 1))
    (many : 1 < g.intervals)
    (inside : g.offset (g.intervals - 1) ≤ place g.span.stop - place g.span.start) : g.Fits := by
  have nonneg := offset_nonneg (place_stepSize_nonneg proper measured.step) (g.intervals - 1)
  have stands := measured.stands_moment proper (by omega) (by omega)
  have low : place g.span.start ≤ place (g.moment (g.intervals - 1)) := by
    rw [stands.place]
    exact (stored_place proper.start).ge.trans (stored_mono (by linarith))
  have high : place (g.moment (g.intervals - 1)) ≤ place g.span.stop := by
    rw [stands.place]
    exact (stored_mono (by linarith)).trans_eq (stored_place proper.stop)
  have first := abs_lt.1 (isFinite_iff_place.1 proper.start).2
  have last := abs_lt.1 (isFinite_iff_place.1 proper.stop).2
  have finite : (g.moment (g.intervals - 1)).isFinite = true := by
    rw [isFinite_iff_place, abs_lt]
    exact ⟨stands.number, by linarith, by linarith⟩
  exact ⟨finite, (le_iff_of_isFinite finite proper.stop).2 high⟩

/-- A regular step size is found by two roundings, neither of which adds much. -/
theorem Regular.place_stepSize (proper : g.Proper) (regular : g.Regular) (some : 0 < g.intervals) :
    let width := place g.span.stop - place g.span.start
    leastNormal ≤ place g.stepSize ∧ |rounded width| < ceiling ∧
      (1 - halfDigit) * rounded width ≤ width ∧
      (1 - halfDigit) * place g.stepSize ≤ rounded width / g.intervals := by
  intro width
  have normal := (le_iff_place stands_leastNormal.number
    (isFinite_iff_place.1 regular.finite).1).1 regular.normal
  rw [stands_leastNormal.place] at normal
  have small : g.intervals < 2 ^ 53 := regular.count.trans_lt (by norm_num)
  have number : (0 : ℚ) < g.intervals := by exact_mod_cast some
  have count := (stands_ofNat_of_lt small).place
  have finite := regular.finite
  unfold stepSize at normal finite ⊢
  rw [if_neg some.ne'] at normal finite ⊢
  have difference_finite := isFinite_of_div finite
  have difference := place_eq_rounded (stands_sub proper.stop proper.start) difference_finite
  have quotient := place_eq_rounded (stands_div difference_finite (isFinite_ofNat_of_lt small)
    (count ▸ number.ne')) finite
  rw [count, difference] at quotient
  rw [quotient] at normal ⊢
  have point : rounded (rounded width) = rounded width := by
    rw [← difference]
    exact rounded_place difference_finite
  have wide : leastNormal ≤ rounded width := by
    have share := pos_of_rounded_pos (leastNormal_pos.trans_le normal)
    have positive : 0 < rounded width := pos_of_mul_pos_left share (inv_nonneg.2 number.le)
    have one : (1 : ℚ) ≤ g.intervals := by exact_mod_cast some
    calc leastNormal ≤ rounded (rounded width / g.intervals) := normal
      _ ≤ rounded (rounded width) := rounded_mono (div_le_self positive.le one)
      _ = rounded width := point
  exact ⟨normal, difference ▸ (isFinite_iff_place.1 difference_finite).2,
    le_of_leastNormal_le_rounded wide, le_of_leastNormal_le_rounded normal⟩

/-- Of at most one interval there is no moment between the ends. -/
theorem fits_of_few (proper : g.Proper) (few : g.intervals ≤ 1) : g.Fits := by
  have none : g.intervals - 1 = 0 := by omega
  unfold Fits
  rw [none]
  exact ⟨proper.start, (le_iff_of_isFinite proper.start proper.stop).2 proper.place_le⟩

/-- The moments of a grid with a regular step size fit into the span. -/
theorem fits_of_regular (proper : g.Proper) (regular : g.Regular) : g.Fits := by
  obtain few | many := le_or_gt g.intervals 1
  · exact fits_of_few proper few
  · obtain ⟨normal, below, first, second⟩ := regular.place_stepSize proper (by omega)
    have small : g.intervals - 1 < 2 ^ 53 := by have := regular.count; omega
    have normal' : leastNormal ≤ rounded ((g.intervals - 1 : ℕ) * place g.stepSize) := by
      have one : (1 : ℚ) ≤ (g.intervals - 1 : ℕ) := by exact_mod_cast (by omega : 0 < _)
      refine rounded_leastNormal.ge.trans (rounded_mono (normal.trans ?_))
      exact le_mul_of_one_le_left (leastNormal_pos.le.trans normal) one
    have inside := le_of_rounded_thrice (by omega) regular.count
      (sub_nonneg.2 proper.place_le) first second (le_of_leastNormal_le_rounded normal')
    have short : |rounded ((g.intervals - 1 : ℕ) * place g.stepSize)| < ceiling := by
      rw [abs_of_pos (leastNormal_pos.trans_le normal')]
      by_contra! long
      have far := rounded_ceiling.ge.trans (rounded_mono (long.trans inside))
      exact absurd far (abs_lt.1 below).2.not_ge
    have counted := isFinite_ofNat_of_lt small
    have product := stands_mul counted regular.finite
    rw [(stands_ofNat_of_lt small).place, stored_eq_rounded short] at product
    refine moment_fits proper ⟨regular.finite, counted, product.isFinite_iff.2 short⟩ many ?_
    rwa [offset, stored_natCast small, stored_eq_rounded short]

end Acausal.Grid
