-- Elimination with pivots, over an ordered field. The matrix that elimination works on holds two
-- triangular factors at every moment: the multipliers of the columns that are done, and what the
-- rows have become. Their product is always the original matrix with its rows exchanged, so
-- substitution forwards and backwards solves the original system.
import Acausal.Linear.Solve
import Acausal.Proofs.LinearFlows

namespace Acausal

variable {α β σ : Type} {n : Nat}

/-! ## Walks over all indices -/

/-- What each step of a walk upwards carries on holds at its end. -/
theorem foldl_finRange {P : Nat → σ → Prop} {f : σ → Fin n → σ} {s : σ} (start : P 0 s)
    (step : ∀ (i : Fin n) s, P i s → P (i + 1) (f s i)) : P n ((List.finRange n).foldl f s) := by
  have upTo (k : Nat) (few : k ≤ n) : P k (((List.finRange n).take k).foldl f s) := by
    induction k with
    | zero => exact start
    | succ k ih =>
      have next : k < (List.finRange n).length := by simpa using few
      rw [List.take_succ_eq_append_getElem next, List.foldl_append, List.getElem_finRange]
      exact step ⟨k, few⟩ _ (ih (Nat.le_of_lt few))
  have all := upTo n (Nat.le_refl n)
  rwa [List.take_of_length_le (by simp)] at all

/-- A walk downwards of which each step succeeds and carries something on succeeds with it. -/
theorem foldlM_reverse_finRange {P : Nat → σ → Prop} {f : σ → Fin n → Option σ} {s : σ}
    (start : P n s) (step : ∀ (i : Fin n) s, P (i + 1) s → ∃ s', f s i = some s' ∧ P i s') :
    ∃ s', (List.finRange n).reverse.foldlM f s = some s' ∧ P 0 s' := by
  have downFrom (k : Nat) (few : k ≤ n) (s : σ) (here : P k s) :
      ∃ s', ((List.finRange n).take k).reverse.foldlM f s = some s' ∧ P 0 s' := by
    induction k generalizing s with
    | zero => exact ⟨s, rfl, here⟩
    | succ k ih =>
      have next : k < (List.finRange n).length := by simpa using few
      obtain ⟨s₁, made, below⟩ := step ⟨k, few⟩ s here
      obtain ⟨s', rest, done⟩ := ih (Nat.le_of_lt few) s₁ below
      refine ⟨s', ?_, done⟩
      rw [List.take_succ_eq_append_getElem next, List.reverse_append, List.getElem_finRange]
      change (f s ⟨k, few⟩ >>= fun s => List.foldlM f s _) = some s'
      rw [made]
      exact rest
  have all := downFrom n (Nat.le_refl n) s start
  rwa [List.take_of_length_le (by simp)] at all

namespace Linear

/-! ## Exchanges -/

/-- Items exchanged in pairs, one pair after the other. -/
def exchange (pairs : List (Fin n × Fin n)) (v : Vector β n) : Vector β n :=
  pairs.foldl (fun v (i, j) => v.swap i j i.isLt j.isLt) v

theorem get_swap (v : Vector β n) (i j k : Fin n) :
    (v.swap i j i.isLt j.isLt).get k = v.get (Equiv.swap i j k) := by
  simp only [Vector.get_eq_getElem, Vector.getElem_swap, Equiv.swap_apply_def, Fin.ext_iff]
  split
  · rfl
  · split <;> rfl

theorem exchange_snoc (pairs : List (Fin n × Fin n)) (i j : Fin n) (v : Vector β n) :
    exchange (pairs ++ [(i, j)]) v = (exchange pairs v).swap i j i.isLt j.isLt := by
  simp [exchange]

theorem exchange_injective (pairs : List (Fin n × Fin n)) :
    Function.Injective (exchange (β := β) pairs) := by
  induction pairs with
  | nil => exact fun v w same => same
  | cons pair pairs ih =>
    intro v w same
    have swapped := ih same
    apply ext_get
    funext k
    have entries := congrArg (fun u => u.get (Equiv.swap pair.1 pair.2 k)) swapped
    simpa only [get_swap, Equiv.swap_apply_self] using entries

/-- Exchanged rows have exchanged images. -/
theorem image_exchange [Field α] (pairs : List (Fin n × Fin n)) (m : Matrix α n) (x : Vector α n) :
    Matrix.image (exchange pairs m) x = exchange pairs (m.image x) := by
  induction pairs generalizing m with
  | nil => rfl
  | cons pair pairs ih =>
    change Matrix.image (exchange pairs (m.swap pair.1 pair.2 _ _)) x =
      exchange pairs ((m.image x).swap pair.1 pair.2 _ _)
    rw [ih]
    congr 1
    apply ext_get
    funext k
    rw [get_swap, Matrix.image, Matrix.image, Vector.get_ofFn, Vector.get_ofFn]
    simp only [Matrix.entry, get_swap]

theorem entry_swap (f : Matrix α n) (i j row column : Fin n) :
    Matrix.entry (f.swap i j i.isLt j.isLt) row column = f.entry (Equiv.swap i j row) column := by
  rw [Matrix.entry, get_swap]
  rfl

/-! ## Factors -/

section
variable [Field α]

/-- The multiplier that a row keeps in a column, if the column is one of those done. -/
def multiplier (f : Matrix α n) (done : Nat) (row column : Fin n) : α :=
  if column < row ∧ column < done then f.entry row column else 0

/-- What a row has become. -/
def remainder (f : Matrix α n) (done : Nat) (row column : Fin n) : α :=
  if column < row ∧ column < done then 0 else f.entry row column

/-- The product of the factors in a matrix of which some columns are done. -/
def product (f : Matrix α n) (done : Nat) (row column : Fin n) : α :=
  ∑ k, multiplier f done row k * remainder f done k column + remainder f done row column

/-- A column that is done adds its multipliers to those of the columns before. -/
theorem multiplier_succ (f : Matrix α n) (i row column : Fin n) :
    multiplier f (i + 1) row column =
      multiplier f i row column + if column = i ∧ i < row then f.entry row i else 0 := by
  unfold multiplier
  by_cases here : column = i
  · subst here
    simp
  · simp only [here, false_and, if_false, add_zero]
    exact if_congr (by omega) rfl rfl

theorem multiplier_eq_zero {f : Matrix α n} {done : Nat} {row column : Fin n}
    (later : done ≤ column) : multiplier f done row column = 0 :=
  if_neg fun early => Nat.not_lt.2 later early.2

/-- Exchanging two rows moves none of them across a column before both. -/
theorem lt_swap_iff {i j row column : Fin n} (below : i ≤ j) (early : column < i) :
    column < Equiv.swap i j row ↔ column < row := by
  rw [Equiv.swap_apply_def]
  split
  · next same => exact ⟨fun _ => same ▸ early, fun _ => early.trans_le below⟩
  · split
    · next same => exact ⟨fun _ => same ▸ early.trans_le below, fun _ => early⟩
    · exact Iff.rfl

section
variable (f : Matrix α n) {i j : Fin n} (below : i ≤ j) (row column : Fin n)
include below

theorem multiplier_swap : multiplier (f.swap i j i.isLt j.isLt) i row column =
    multiplier f i (Equiv.swap i j row) column := by
  unfold multiplier
  rw [entry_swap]
  exact if_congr (and_congr_left fun early => (lt_swap_iff below early).symm) rfl rfl

theorem remainder_swap : remainder (f.swap i j i.isLt j.isLt) i row column =
    remainder f i (Equiv.swap i j row) column := by
  unfold remainder
  rw [entry_swap]
  exact if_congr (and_congr_left fun early => (lt_swap_iff below early).symm) rfl rfl

/-- Exchanging rows of which no column is done exchanges the rows of the product. -/
theorem product_swap : product (f.swap i j i.isLt j.isLt) i row column =
    product f i (Equiv.swap i j row) column := by
  unfold product
  rw [remainder_swap f below]
  congr 1
  refine Finset.sum_congr rfl fun k _ => ?_
  rw [multiplier_swap f below, remainder_swap f below]
  rcases lt_or_ge k i with early | later
  · rw [Equiv.swap_apply_of_ne_of_ne early.ne (early.trans_le below).ne]
  · rw [multiplier_eq_zero later, zero_mul, zero_mul]

end

/-- A column of which one matrix has been made another: the rows up to the diagonal and the columns
before stay, and each later row is split into its multiple of the row on the diagonal and a rest. -/
structure Clears (f g : Matrix α n) (i : Fin n) : Prop where
  same : ∀ row column, row ≤ i ∨ column < i → g.entry row column = f.entry row column
  split : ∀ row column, i < row → i ≤ column → f.entry row column =
    g.entry row i * f.entry i column + if column = i then 0 else g.entry row column

namespace Clears

variable {f g : Matrix α n} {i row : Fin n} (h : Clears f g i) (column : Fin n)
include h

theorem multiplier_eq : multiplier g (i + 1) row column =
    multiplier f i row column + if column = i ∧ i < row then g.entry row i else 0 := by
  have before : multiplier g i row column = multiplier f i row column :=
    ite_congr rfl (fun early => h.same row column (.inr early.2)) fun _ => rfl
  rw [multiplier_succ, before]

theorem remainder_above (above : row ≤ i) :
    remainder g (i + 1) row column = remainder f i row column := by
  unfold remainder
  rw [h.same row column (.inl above)]
  refine if_congr (and_congr_right fun left => ?_) rfl rfl
  have : column < i := left.trans_le above
  omega

theorem remainder_below (below : i < row) :
    g.entry row i * remainder f i i column + remainder g (i + 1) row column =
      remainder f i row column := by
  unfold remainder
  rcases lt_or_ge column i with before | from_here
  · rw [if_pos ⟨before, before⟩, if_pos ⟨before.trans below, by omega⟩,
      if_pos ⟨before.trans below, before⟩, mul_zero, add_zero]
  · have here : column < row ∧ column < i.val + 1 ↔ column = i := by omega
    have not_before : ¬ column.val < i := Nat.not_lt.2 from_here
    simp only [not_before, and_false, if_false, here]
    rw [h.split row column below from_here]

/-- Making a column done changes no product. -/
theorem product_eq (row : Fin n) : product g (i + 1) row column = product f i row column := by
  have early (k : Fin n) : multiplier f i row k * remainder g (i + 1) k column =
      multiplier f i row k * remainder f i k column := by
    rcases lt_or_ge k i with before | later
    · rw [h.remainder_above column before.le]
    · rw [multiplier_eq_zero later, zero_mul, zero_mul]
  unfold product
  rcases le_or_gt row i with above | below
  · simp only [h.multiplier_eq, above.not_gt, and_false, if_false, add_zero, early,
      h.remainder_above column above]
  · simp only [h.multiplier_eq, below, and_true, add_mul, early, Finset.sum_add_distrib, ite_mul,
      zero_mul, Finset.sum_ite_eq', Finset.mem_univ, if_true, h.remainder_above column le_rfl]
    rw [add_assoc, h.remainder_below column below]

end Clears

/-- A column that is zero from the diagonal on is done as it is. -/
theorem clears_self {f : Matrix α n} {i : Fin n} (empty : ∀ row, i ≤ row → f.entry row i = 0) :
    Clears f f i where
  same _ _ _ := rfl
  split row column below _ := by
    rw [empty row below.le, zero_mul, zero_add]
    split
    · next here => rw [here, empty row below.le]
    · rfl

theorem clears_clear {f : Matrix α n} {i : Fin n} (pivot : f.entry i i ≠ 0) :
    Clears f (clear f i) i where
  same row column outside := by
    unfold clear
    rw [Matrix.entry_ofFn]
    split
    · next below =>
      have before := outside.resolve_left below.not_ge
      rw [if_neg before.ne, if_neg before.not_gt]
    · rfl
  split row column below from_here := by
    unfold clear
    simp only [Matrix.entry_ofFn, if_pos below, if_true]
    split
    · next here =>
      subst here
      field_simp
      ring
    · next other =>
      rw [if_pos (lt_of_le_of_ne from_here (Ne.symm other))]
      ring

end

/-! ## Elimination -/

section
variable [Field α] [LinearOrder α] [Elementary α] (absolute : ∀ a : α, Elementary.abs a = |a|)
include absolute

/-- The pivot of a column is at or below the diagonal and has the largest entry there. -/
theorem pivotRow_spec (m : Matrix α n) (column : Fin n) :
    column ≤ pivotRow m column ∧
      ∀ row, column ≤ row → |m.entry row column| ≤ |m.entry (pivotRow m column) column| := by
  let Largest (k : Nat) (best : Fin n) : Prop := column ≤ best ∧
    ∀ row, column ≤ row → row < k ∨ row = column → |m.entry row column| ≤ |m.entry best column|
  have largest : Largest n (pivotRow m column) := by
    unfold pivotRow
    apply foldl_finRange (P := Largest)
    · refine ⟨le_rfl, fun row _ seen => ?_⟩
      rw [seen.resolve_left (Nat.not_lt_zero row)]
    · rintro i best ⟨below, above_all⟩
      simp only [absolute]
      split
      · next larger =>
        refine ⟨larger.1.le, fun row from_here seen => ?_⟩
        by_cases here : row = i
        · rw [here]
        · exact (above_all row from_here (by omega)).trans larger.2.le
      · next smaller =>
        refine ⟨below, fun row from_here seen => ?_⟩
        by_cases here : row = i ∧ column ≠ i
        · rw [here.1]
          have after := lt_of_le_of_ne (here.1 ▸ from_here) here.2
          exact not_lt.1 fun larger => smaller ⟨after, larger⟩
        · exact above_all row from_here (by omega)
  exact ⟨largest.1, fun row from_here => largest.2 row from_here (.inl row.isLt)⟩

/-- What elimination keeps: the product of the factors is the original matrix with its rows
exchanged. -/
def Factors.Multiply (f : Factors α n) (m : Matrix α n) (done : Nat) : Prop :=
  ∀ row column, product f.matrix done row column =
    Matrix.entry (exchange f.exchanges m) row column

variable [IsStrictOrderedRing α] [BEq α] [LawfulBEq α]

theorem Factors.Multiply.eliminate {f : Factors α n} {m : Matrix α n} {i : Fin n}
    (h : f.Multiply m i) : (Linear.eliminate f i).Multiply m (i + 1) := by
  obtain ⟨below, largest⟩ := pivotRow_spec absolute f.matrix i
  intro row column
  unfold Linear.eliminate
  simp only
  split
  · next zero =>
    have empty (row : Fin n) (from_here : i ≤ row) : f.matrix.entry row i = 0 := by
      have none := largest row from_here
      rw [eq_of_beq zero, abs_zero] at none
      exact abs_nonpos_iff.1 none
    rw [(clears_self empty).product_eq column row]
    exact h row column
  · next nonzero =>
    have pivot :
        Matrix.entry (f.matrix.swap i (pivotRow f.matrix i) i.isLt (Fin.isLt _)) i i ≠ 0 := by
      rw [entry_swap, Equiv.swap_apply_left]
      exact fun zero => nonzero (beq_iff_eq.2 zero)
    rw [(clears_clear pivot).product_eq column row, product_swap _ below, exchange_snoc,
      entry_swap, h]

theorem factor_multiply (m : Matrix α n) : (factor m).Multiply m n := by
  refine foldl_finRange (P := fun done (f : Factors α n) => f.Multiply m done) ?_ ?_
  · intro row column
    simp [product, multiplier, remainder, exchange]
  · intro i f h
    exact h.eliminate absolute

end

/-! ## Substitution -/

section
variable [Field α]

/-- Substitution forwards solves for the lower factor. -/
theorem forward_solves (f : Matrix α n) (b : Vector α n) (row : Fin n) :
    let y := (List.finRange n).foldl (forward f) b
    ∑ k, multiplier f n row k * y.get k + y.get row = b.get row := by
  let Solved (done : Nat) (y : Vector α n) : Prop :=
    ∀ row, ∑ k, multiplier f done row k * y.get k + y.get row = b.get row
  refine foldl_finRange (P := Solved) ?_ (fun i y h row => ?_) row
  · intro row
    simp [multiplier]
  · have found (k : Fin n) (early : k ≤ i) : (forward f y i).get k = y.get k := by
      rw [forward, Vector.get_ofFn, if_neg early.not_gt]
    have before (k : Fin n) : multiplier f i row k * (forward f y i).get k =
        multiplier f i row k * y.get k := by
      rcases lt_or_ge k i with early | later
      · rw [found k early.le]
      · rw [multiplier_eq_zero later, zero_mul, zero_mul]
    simp only [multiplier_succ, add_mul, before, Finset.sum_add_distrib, ite_and, ite_mul,
      zero_mul, Finset.sum_ite_eq', Finset.mem_univ, if_true, found i le_rfl]
    rw [← h row, forward, Vector.get_ofFn]
    split
    · ring
    · rw [add_zero]

variable [BEq α] [LawfulBEq α] {f : Matrix α n} {x y : Vector α n} {i : Fin n}

/-- A step of substitution backwards finds the entry of its row and takes it out of the rows
above. -/
theorem exists_backward (regular : f.entry i i ≠ 0) :
    ∃ x', backward f x i = some x' ∧ x'.get i = x.get i / f.entry i i ∧
      (∀ row, row < i → x'.get row = x.get row - x'.get i * f.entry row i) ∧
      ∀ row, i < row → x'.get row = x.get row := by
  have nonzero : ¬ (f.entry i i == 0) = true := fun zero => regular (eq_of_beq zero)
  refine ⟨_, if_neg nonzero, ?_, fun row above => ?_, fun row below => ?_⟩
  · rw [Vector.get_ofFn, if_pos rfl]
  · rw [Vector.get_ofFn, if_neg above.ne, if_pos above, Vector.get_ofFn, if_pos rfl]
  · rw [Vector.get_ofFn, if_neg below.ne', if_neg below.not_gt]

/-- What substitution backwards keeps: the rows that are left have the entries found so far taken
out, and the other rows are solved. -/
def Upper (f : Matrix α n) (y : Vector α n) (left : Nat) (x : Vector α n) : Prop :=
  ∀ row, (∑ k : Fin n, if left ≤ k ∧ row ≤ k then f.entry row k * x.get k else 0) +
    (if row < left then x.get row else 0) = y.get row

theorem Upper.step (regular : f.entry i i ≠ 0) (h : Upper f y (i + 1) x) :
    ∃ x', backward f x i = some x' ∧ Upper f y i x' := by
  obtain ⟨x', found, here, above, below⟩ := exists_backward (x := x) regular
  refine ⟨x', found, fun row => ?_⟩
  have terms (k : Fin n) : (if i.val ≤ k ∧ row ≤ k then f.entry row k * x'.get k else 0) =
      (if i.val + 1 ≤ k ∧ row ≤ k then f.entry row k * x.get k else 0) +
        if k = i then (if row ≤ i then f.entry row i * x'.get i else 0) else 0 := by
    rcases lt_trichotomy k i with early | rfl | later
    · rw [if_neg (by omega), if_neg (by omega), if_neg early.ne, add_zero]
    · simp
    · rw [below k later, if_neg later.ne', add_zero]
      exact if_congr (by omega) rfl rfl
  rw [← h row]
  simp only [terms, Finset.sum_add_distrib, Finset.sum_ite_eq', Finset.mem_univ, if_true,
    add_assoc]
  congr 1
  rcases lt_trichotomy row i with early | rfl | later
  · rw [if_pos early.le, if_pos (c := row.val < i.val) early, above row early,
      if_pos (Nat.lt_succ_of_lt early)]
    ring
  · rw [if_pos le_rfl, here, if_neg (Nat.lt_irrefl _), if_pos (Nat.lt_succ_self _), add_zero,
      mul_div_cancel₀ _ regular]
  · rw [if_neg later.not_ge, if_neg (by omega), if_neg (by omega), add_zero]

/-- Substitution backwards solves for the upper factor, if that has no zero on its diagonal. -/
theorem backward_solves (regular : ∀ i, f.entry i i ≠ 0) (y : Vector α n) :
    ∃ x, (List.finRange n).reverse.foldlM (backward f) y = some x ∧
      ∀ row, ∑ k, remainder f n row k * x.get k = y.get row := by
  have start : Upper f y n y := by
    intro row
    simp [Nat.not_le.2 (Fin.isLt _)]
  obtain ⟨x, found, solved⟩ := foldlM_reverse_finRange start fun i x h => h.step (regular i)
  refine ⟨x, found, fun row => ?_⟩
  rw [← solved row, if_neg (Nat.not_lt_zero _), add_zero]
  refine Finset.sum_congr rfl fun k _ => ?_
  unfold remainder
  by_cases left : k < row
  · rw [if_pos ⟨left, k.isLt⟩, if_neg (by omega), zero_mul]
  · rw [if_neg (by omega), if_pos (by omega)]

end

/-! ## Systems -/

section
variable [Field α] [LinearOrder α] [IsStrictOrderedRing α] [Elementary α] [BEq α] [LawfulBEq α]

/-- The original matrix, its rows exchanged, is the product of a lower factor with ones on the
diagonal and an upper factor. -/
theorem table_exchange (absolute : ∀ a : α, Elementary.abs a = |a|) (m : Matrix α n) :
    Matrix.table (exchange (factor m).exchanges m) =
      (1 + Matrix.of (multiplier (factor m).matrix n)) *
        Matrix.of (remainder (factor m).matrix n) := by
  ext row column
  rw [add_mul, one_mul, Matrix.add_apply, Matrix.mul_apply, add_comm]
  exact (factor_multiply absolute m row column).symm

/-- Elimination finds the solution of every system whose matrix is not singular. -/
theorem elimination_exact (absolute : ∀ a : α, Elementary.abs a = |a|) :
    (elimination : LinearSolver α n).Exact := by
  intro m b nonsingular
  have factors := table_exchange absolute m
  generalize hf : factor m = f at factors
  have upper : (Matrix.of (remainder f.matrix n)).IsUpperTriangular :=
    fun row column left => if_pos ⟨left, column.isLt⟩
  have regular (i : Fin n) : f.matrix.entry i i ≠ 0 := by
    have exchanged : Matrix.Nonsingular (exchange f.exchanges m) := by
      intro x x' same
      rw [image_exchange, image_exchange] at same
      exact nonsingular (exchange_injective _ same)
    rw [Matrix.nonsingular_iff, factors, Matrix.det_mul,
      Matrix.det_of_isUpperTriangular upper] at exchanged
    have diagonal :=
      Finset.prod_ne_zero_iff.1 (right_ne_zero_of_mul exchanged) i (Finset.mem_univ i)
    rwa [Matrix.of_apply, remainder, if_neg (fun left => lt_irrefl i left.1)] at diagonal
  have lower := forward_solves f.matrix (exchange f.exchanges b)
  obtain ⟨x, found, solved⟩ := backward_solves regular
    ((List.finRange n).foldl (forward f.matrix) (exchange f.exchanges b))
  refine ⟨x, ?_, ?_⟩
  · unfold elimination
    rw [hf]
    exact found
  · apply exchange_injective f.exchanges
    rw [← image_exchange]
    apply ext_get
    rw [Matrix.get_image, factors, ← Matrix.mulVec_mulVec,
      show (Matrix.of (remainder f.matrix n)).mulVec x.get = _ from funext solved,
      Matrix.add_mulVec, Matrix.one_mulVec, add_comm]
    exact funext lower

end

end Linear

end Acausal
