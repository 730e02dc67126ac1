-- Rounding to 53 binary digits. A fraction is rounded to the nearest point of a grid whose
-- spacing is that of doubles of its size, and of two nearest points to the even one. Rounding
-- keeps the order of fractions and every point of a grid at least as coarse, and errs by half a
-- spacing at most.
import Acausal.Proofs.OrderedDoubles

namespace Acausal

/-! ## Whole numbers -/

/-- A whole number is nearest to a fraction; of two it is the even one. -/
def IsNearest (n : ℤ) (q : ℚ) : Prop := |n - q| < 1 / 2 ∨ |n - q| = 1 / 2 ∧ Even n

namespace IsNearest

variable {n m : ℤ} {p q : ℚ}

theorem abs_sub_le (h : IsNearest n q) : |n - q| ≤ 1 / 2 :=
  h.elim le_of_lt fun tie => tie.1.le

theorem neg (h : IsNearest n q) : IsNearest (-n) (-q) := by
  have same : |((-n : ℤ) : ℚ) - -q| = |n - q| := by
    push_cast
    rw [← abs_neg]
    congr 1
    ring
  unfold IsNearest
  rwa [same, even_neg]

/-- Whole numbers nearest to fractions are in the order of the fractions. -/
theorem mono (h : IsNearest n p) (h' : IsNearest m q) (le : p ≤ q) : n ≤ m := by
  by_contra! more
  have apart : (m : ℚ) + 1 ≤ n := by exact_mod_cast more
  have near := abs_le.1 h.abs_sub_le
  have near' := abs_le.1 h'.abs_sub_le
  -- both are half away from the same fraction, and cannot both be even
  have tie : n - p = 1 / 2 := by linarith
  have tie' : m - q = -(1 / 2) := by linarith
  have even : Even n := by
    refine (h.resolve_left ?_).2
    rw [tie]
    norm_num
  have even' : Even m := by
    refine (h'.resolve_left ?_).2
    rw [tie']
    norm_num
  have neighbours : n = m + 1 := by
    have : (n : ℚ) = m + 1 := by linarith
    exact_mod_cast this
  rw [neighbours, Int.even_add_one] at even
  exact even even'

theorem unique (h : IsNearest n q) (h' : IsNearest m q) : n = m :=
  le_antisymm (h.mono h' le_rfl) (h'.mono h le_rfl)

end IsNearest

/-- The whole number nearest to a fraction, of two the even one. -/
def nearest (q : ℚ) : ℤ :=
  if q - ⌊q⌋ < 1 / 2 then ⌊q⌋
  else if 1 / 2 < q - ⌊q⌋ then ⌊q⌋ + 1
  else ⌊q⌋ + ⌊q⌋ % 2

theorem isNearest_nearest (q : ℚ) : IsNearest (nearest q) q := by
  have low := Int.floor_le q
  have high := Int.lt_floor_add_one q
  unfold nearest IsNearest
  split_ifs with down up
  · left
    rw [abs_lt]
    constructor <;> linarith
  · left
    push_cast
    rw [abs_lt]
    constructor <;> linarith
  · right
    have middle : q - ⌊q⌋ = 1 / 2 := le_antisymm (not_lt.1 up) (not_lt.1 down)
    obtain even | odd := Int.emod_two_eq_zero_or_one ⌊q⌋
    · rw [even, add_zero, abs_sub_comm, middle]
      exact ⟨by norm_num, Int.even_iff.2 even⟩
    · rw [odd, show ((⌊q⌋ + 1 : ℤ) : ℚ) - q = 1 / 2 by push_cast; linarith]
      exact ⟨by norm_num, Int.even_iff.2 (by omega)⟩

theorem nearest_eq {n : ℤ} {q : ℚ} (h : IsNearest n q) : nearest q = n :=
  (isNearest_nearest q).unique h

theorem nearest_mono : Monotone nearest :=
  fun p q le => (isNearest_nearest p).mono (isNearest_nearest q) le

theorem nearest_intCast (k : ℤ) : nearest k = k :=
  nearest_eq (.inl (by norm_num))

theorem nearest_neg (q : ℚ) : nearest (-q) = -nearest q :=
  nearest_eq (isNearest_nearest q).neg

/-! ## Grids -/

/-- The exponent of the spacing of doubles of the size of a fraction. -/
def spacing (q : ℚ) : ℤ := max (Int.log 2 |q| - 52) (-1074)

/-- The fraction rounded to a point of its grid. -/
def rounded (q : ℚ) : ℚ := nearest (q / 2 ^ spacing q) * 2 ^ spacing q

theorem spacing_of_pos {q : ℚ} (positive : 0 < q) :
    spacing q = max (Int.log 2 q - 52) (-1074) := by
  rw [spacing, abs_of_pos positive]

theorem spacing_neg (q : ℚ) : spacing (-q) = spacing q := by
  rw [spacing, spacing, abs_neg]

theorem rounded_neg (q : ℚ) : rounded (-q) = -rounded q := by
  rw [rounded, rounded, spacing_neg, neg_div, nearest_neg]
  push_cast
  ring

/-- Rounding does not pass a point of a grid that is no finer. -/
theorem rounded_le_of_le {q : ℚ} {k e : ℤ} (coarse : spacing q ≤ e) (le : q ≤ k * 2 ^ e) :
    rounded q ≤ k * 2 ^ e := by
  obtain ⟨d, rfl⟩ := Int.le.dest coarse
  have unit : (0 : ℚ) < 2 ^ spacing q := by positivity
  have point : (k : ℚ) * 2 ^ (spacing q + d) = ((k * 2 ^ d : ℤ) : ℚ) * 2 ^ spacing q := by
    rw [zpow_add₀ two_ne_zero, zpow_natCast]
    push_cast
    ring
  rw [point] at le ⊢
  refine mul_le_mul_of_nonneg_right ?_ unit.le
  exact_mod_cast (nearest_mono ((div_le_iff₀ unit).2 le)).trans_eq (nearest_intCast _)

theorem le_rounded_of_le {q : ℚ} {k e : ℤ} (coarse : spacing q ≤ e) (le : k * 2 ^ e ≤ q) :
    k * 2 ^ e ≤ rounded q := by
  have mirrored := rounded_le_of_le (q := -q) (k := -k) (spacing_neg q ▸ coarse)
    (by push_cast; linarith)
  rw [rounded_neg] at mirrored
  push_cast at mirrored
  linarith

theorem rounded_eq_self {k e : ℤ} (coarse : spacing (k * 2 ^ e) ≤ e) :
    rounded (k * 2 ^ e) = k * 2 ^ e :=
  le_antisymm (rounded_le_of_le coarse le_rfl) (le_rounded_of_le coarse le_rfl)

theorem rounded_zero : rounded 0 = 0 := by
  simp [rounded, nearest]

/-- Between the grids of two fractions lies a power of two that is a point of both. -/
theorem exists_between {x y : ℚ} (positive : 0 < x) (le : x ≤ y) (finer : spacing x < spacing y) :
    x ≤ 2 ^ 52 * 2 ^ spacing y ∧ 2 ^ 52 * 2 ^ spacing y ≤ y := by
  have positive' := positive.trans_le le
  rw [spacing_of_pos positive, spacing_of_pos positive'] at finer
  have exponent : spacing y = Int.log 2 y - 52 := by
    rw [spacing_of_pos positive']
    omega
  have above : Int.log 2 x + 1 ≤ Int.log 2 y := by omega
  have power : (2 : ℚ) ^ 52 * 2 ^ spacing y = 2 ^ Int.log 2 y := by
    rw [← zpow_natCast, ← zpow_add₀ two_ne_zero, exponent]
    congr 1
    norm_num
  rw [power]
  constructor
  · calc x ≤ 2 ^ (Int.log 2 x + 1) := (Int.lt_zpow_succ_log_self one_lt_two x).le
      _ ≤ 2 ^ Int.log 2 y := zpow_le_zpow_right₀ one_le_two above
  · exact_mod_cast Int.zpow_log_le_self one_lt_two positive'

theorem rounded_mono : Monotone rounded := by
  refine monotone_of_odd_of_monotoneOn_nonneg rounded_neg fun x hx y hy le => ?_
  obtain rfl | positive := eq_or_lt_of_le (Set.mem_Ici.1 hx)
  · have point := le_rounded_of_le (q := y) (k := 0) le_rfl (by simpa using le)
    simpa [rounded_zero] using point
  · have coarser : spacing x ≤ spacing y := by
      rw [spacing_of_pos positive, spacing_of_pos (positive.trans_le le)]
      have := Int.log_mono_right (b := 2) positive le
      omega
    obtain same | finer := coarser.eq_or_lt
    · unfold rounded
      rw [same]
      gcongr
      exact nearest_mono (by gcongr)
    · obtain ⟨low, high⟩ := exists_between positive le finer
      have low' := rounded_le_of_le (k := 2 ^ 52) finer.le (by push_cast; exact low)
      have high' := le_rounded_of_le (k := 2 ^ 52) le_rfl (by push_cast; exact high)
      exact low'.trans high'

/-! ## Errors -/

/-- The least fraction whose grid has 53 digits. -/
def leastNormal : ℚ := 2 ^ (-1022 : ℤ)

theorem leastNormal_pos : 0 < leastNormal := zpow_pos two_pos _

/-- Half the spacing of one, which relates an error to what is rounded. -/
def halfDigit : ℚ := 2 ^ (-53 : ℤ)

theorem halfDigit_pos : 0 < halfDigit := zpow_pos two_pos _

theorem halfDigit_mul_zpow (e : ℤ) : halfDigit * 2 ^ e = 2 ^ (e - 52) / 2 := by
  unfold halfDigit
  rw [div_eq_mul_inv, ← zpow_add₀ two_ne_zero, ← zpow_sub_one₀ two_ne_zero]
  congr 1
  ring

theorem half_spacing_le {q : ℚ} (positive : 0 < q) :
    (2 : ℚ) ^ spacing q / 2 ≤ halfDigit * max q leastNormal := by
  have digit := halfDigit_pos
  rw [spacing_of_pos positive]
  obtain subnormal | normal := le_total (Int.log 2 q - 52) (-1074)
  · rw [max_eq_right subnormal, show (-1074 : ℤ) = -1022 - 52 by norm_num,
      ← halfDigit_mul_zpow]
    gcongr
    exact le_max_right _ _
  · rw [max_eq_left normal, ← halfDigit_mul_zpow]
    gcongr
    exact le_max_of_le_left (by exact_mod_cast Int.zpow_log_le_self one_lt_two positive)

theorem abs_rounded_sub_le {q : ℚ} (positive : 0 < q) :
    |rounded q - q| ≤ halfDigit * max q leastNormal := by
  have unit : (0 : ℚ) < 2 ^ spacing q := by positivity
  have near := (isNearest_nearest (q / 2 ^ spacing q)).abs_sub_le
  calc |rounded q - q| = |nearest (q / 2 ^ spacing q) - q / 2 ^ spacing q| * 2 ^ spacing q := by
        rw [← abs_of_pos unit, ← abs_mul, abs_of_pos unit, sub_mul, div_mul_cancel₀ _ unit.ne']
        rfl
    _ ≤ 1 / 2 * 2 ^ spacing q := by gcongr
    _ = 2 ^ spacing q / 2 := by ring
    _ ≤ halfDigit * max q leastNormal := half_spacing_le positive

/-- Powers of two are doubles, unless they are too small. -/
theorem rounded_two_zpow {e : ℤ} (low : -1074 ≤ e) : rounded (2 ^ e) = 2 ^ e := by
  have fine : spacing (((1 : ℤ) : ℚ) * 2 ^ e) ≤ e := by
    have log : Int.log 2 ((2 : ℚ) ^ e) = e := Int.log_zpow (R := ℚ) one_lt_two _
    rw [Int.cast_one, one_mul, spacing_of_pos (by positivity), log]
    omega
  have point := rounded_eq_self fine
  rwa [Int.cast_one, one_mul] at point

theorem rounded_leastNormal : rounded leastNormal = leastNormal :=
  rounded_two_zpow (e := -1022) (by omega)

theorem rounded_ceiling : rounded ceiling = ceiling :=
  rounded_two_zpow (e := 1024) (by omega)

theorem pos_of_rounded_pos {q : ℚ} (h : 0 < rounded q) : 0 < q := by
  by_contra! nonpos
  exact absurd ((rounded_mono nonpos).trans_eq rounded_zero) h.not_ge

/-- What is rounded to a normal double is not much smaller than that. -/
theorem le_of_leastNormal_le_rounded {q : ℚ} (normal : leastNormal ≤ rounded q) :
    (1 - halfDigit) * rounded q ≤ q := by
  have positive : 0 < q := pos_of_rounded_pos (leastNormal_pos.trans_le normal)
  have error := (abs_le.1 (abs_rounded_sub_le positive)).2
  obtain small | large := le_total q leastNormal
  · have equal : rounded q = leastNormal :=
      le_antisymm ((rounded_mono small).trans_eq rounded_leastNormal) normal
    rw [max_eq_right small, equal] at error
    rw [equal]
    linarith
  · rw [max_eq_left large] at error
    have below : halfDigit ≤ 1 := zpow_le_one_of_nonpos₀ one_le_two (by norm_num)
    have square : 0 ≤ halfDigit ^ 2 * q := by positivity
    calc (1 - halfDigit) * rounded q ≤ (1 - halfDigit) * (q + halfDigit * q) := by
          gcongr
          linarith
      _ = q - halfDigit ^ 2 * q := by ring
      _ ≤ q := by linarith

/-- Three roundings cannot make up for one interval of many. -/
theorem le_of_rounded_thrice {width difference step product : ℚ} {k n : Nat} (less : k < n)
    (few : n ≤ 2 ^ 51) (nonneg : 0 ≤ width) (first : (1 - halfDigit) * difference ≤ width)
    (second : (1 - halfDigit) * step ≤ difference / n)
    (third : (1 - halfDigit) * product ≤ k * step) : product ≤ width := by
  have half : halfDigit = 1 / 2 ^ 53 := by norm_num [halfDigit, zpow_neg]
  have some : (0 : ℚ) < n := by exact_mod_cast Nat.zero_lt_of_lt less
  have left : (k : ℚ) / n ≤ (1 - halfDigit) ^ 3 := by
    rw [div_le_iff₀ some]
    have before : (k : ℚ) ≤ n - 1 := by
      rw [le_sub_iff_add_le]
      exact_mod_cast less
    have bound : (n : ℚ) ≤ 2 ^ 51 := by exact_mod_cast few
    rw [half]
    nlinarith
  have positive : 0 < 1 - halfDigit := by norm_num [half]
  have share : (0 : ℚ) ≤ k / n := by positivity
  refine le_of_mul_le_mul_left ?_ (pow_pos positive 3)
  calc (1 - halfDigit) ^ 3 * product = (1 - halfDigit) ^ 2 * ((1 - halfDigit) * product) := by ring
    _ ≤ (1 - halfDigit) ^ 2 * (k * step) := by gcongr
    _ = (1 - halfDigit) * (k * ((1 - halfDigit) * step)) := by ring
    _ ≤ (1 - halfDigit) * (k * (difference / n)) := by gcongr
    _ = k / n * ((1 - halfDigit) * difference) := by ring
    _ ≤ k / n * width := by gcongr
    _ ≤ (1 - halfDigit) ^ 3 * width := by gcongr

end Acausal
