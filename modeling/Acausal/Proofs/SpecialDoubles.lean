-- Zeros and what is no number, among the doubles. A sum of zeros, a zero times another double and
-- a zero divided by one are each a zero or no number, and which of the two it is depends only on
-- whether the other double is finite, or one to divide by. What is no number stays so.
import Acausal.Proofs.Doubles

namespace Acausal

open Float.Model
open Float.Model.UnpackedFloat hiding pack unpack

variable {x y : Float} {u : UnpackedFloat}

/-! ## What a double unpacks to -/

def unpacked (x : Float) : UnpackedFloat := x.toModel.unpack

/-- A zero of either sign. -/
def IsZero (x : Float) : Prop := ∃ s, unpacked x = .zero s

/-- What is no number. -/
def IsNaN (x : Float) : Prop := unpacked x = .notANumber

theorem isNaN_iff : x.isNaN = true ↔ IsNaN x := by
  change (unpacked x).isNaN = true ↔ _
  unfold IsNaN
  cases unpacked x with
  | notANumber => exact iff_of_true rfl rfl
  | _ => exact iff_of_false nofun nofun

theorem beq_zero_iff : (x == 0) = true ↔ IsZero x := by
  have nothing : unpacked 0 = .zero .positive := rfl
  change (unpacked x).beq (unpacked 0) = true ↔ _
  rw [nothing]
  unfold IsZero
  cases unpacked x with
  | zero s => exact iff_of_true rfl ⟨s, rfl⟩
  | finite s m e h => cases s <;> exact iff_of_false nofun nofun
  | infinity s => cases s <;> exact iff_of_false nofun nofun
  | notANumber => exact iff_of_false nofun nofun

theorem isZero_zero : IsZero 0 := ⟨.positive, rfl⟩

theorem not_isNaN_of_isZero (h : IsZero x) : ¬ IsNaN x := by
  obtain ⟨s, hs⟩ := h
  simp [IsNaN, hs]

/-- A double by which a zero divides to zero. -/
def IsDivisor (x : Float) : Prop := ¬ (x == 0) = true ∧ ¬ x.isNaN = true

instance : DecidablePred IsDivisor := fun _ => inferInstanceAs (Decidable (_ ∧ _))

/-! ## Packing -/

theorem isZero_pack {s : Sign} (h : u = .zero s) : IsZero (.ofModel (pack u)) := by
  subst h
  exact ⟨s, by cases s <;> rfl⟩

theorem isNaN_pack (h : u = .notANumber) : IsNaN (.ofModel (pack u)) := by
  subst h
  rfl

/-- An operation that gives no number for an operand that is none. -/
theorem isNaN_operation (operation : UnpackedFloat → UnpackedFloat → UnpackedFloat)
    (left : ∀ u, operation .notANumber u = .notANumber)
    (right : ∀ u, operation u .notANumber = .notANumber) (h : IsNaN x ∨ IsNaN y) :
    IsNaN (.ofModel (pack (operation (unpacked x) (unpacked y)))) := by
  apply isNaN_pack
  rcases h with h | h
  · rw [h, left]
  · rw [h, right]

/-- An operation that gives a zero for two zeros. -/
theorem isZero_operation (operation : UnpackedFloat → UnpackedFloat → UnpackedFloat)
    (zeros : ∀ s r, ∃ q, operation (.zero s) (.zero r) = .zero q) (hx : IsZero x)
    (hy : IsZero y) : IsZero (.ofModel (pack (operation (unpacked x) (unpacked y)))) := by
  obtain ⟨s, hs⟩ := hx
  obtain ⟨r, hr⟩ := hy
  obtain ⟨q, hq⟩ := zeros s r
  rw [hs, hr]
  exact isZero_pack hq

/-! ## Operations -/

theorem isZero_neg (h : IsZero x) : IsZero (-x) := by
  obtain ⟨s, hs⟩ := h
  exact isZero_pack (show (unpacked x).neg = .zero (-s) by rw [hs]; rfl)

theorem isNaN_neg (h : IsNaN x) : IsNaN (-x) :=
  isNaN_pack (show (unpacked x).neg = .notANumber by rw [h]; rfl)

theorem isZero_add (hx : IsZero x) (hy : IsZero y) : IsZero (x + y) := by
  refine isZero_operation (UnpackedFloat.add .binary64) (fun s r => ?_) hx hy
  cases s <;> cases r <;> exact ⟨_, rfl⟩

theorem isNaN_add (h : IsNaN x ∨ IsNaN y) : IsNaN (x + y) :=
  isNaN_operation (UnpackedFloat.add .binary64) (fun _ => rfl)
    (fun u => by cases u <;> rfl) h

theorem isZero_sub (hx : IsZero x) (hy : IsZero y) : IsZero (x - y) := by
  refine isZero_operation (UnpackedFloat.sub .binary64) (fun s r => ?_) hx hy
  cases s <;> cases r <;> exact ⟨_, rfl⟩

theorem isNaN_sub (h : IsNaN x ∨ IsNaN y) : IsNaN (x - y) :=
  isNaN_operation (UnpackedFloat.sub .binary64) (fun _ => rfl)
    (fun u => by cases u <;> rfl) h

theorem isNaN_mul (h : IsNaN x ∨ IsNaN y) : IsNaN (x * y) :=
  isNaN_operation (UnpackedFloat.mul .binary64) (fun _ => rfl)
    (fun u => by cases u <;> rfl) h

theorem isNaN_div (h : IsNaN x ∨ IsNaN y) : IsNaN (x / y) :=
  isNaN_operation (UnpackedFloat.div .binary64) (fun _ => rfl)
    (fun u => by cases u <;> rfl) h

theorem mul_comm_of_isZero (h : IsZero x) (y : Float) : y * x = x * y := by
  obtain ⟨s, hs⟩ := h
  have same : UnpackedFloat.mul .binary64 (unpacked y) (.zero s) =
      UnpackedFloat.mul .binary64 (.zero s) (unpacked y) := by
    cases unpacked y with
    | zero r => cases s <;> cases r <;> rfl
    | finite r m e h => cases s <;> cases r <;> rfl
    | _ => rfl
  rw [← hs] at same
  exact congrArg (fun u => Float.ofModel (pack u)) same

/-! ## Zeros that may be lost -/

/-- A double that is a zero where a condition holds, and no number where it does not. -/
structure ZeroIff (condition : Prop) (x : Float) : Prop where
  zero : condition → IsZero x
  lost : ¬ condition → IsNaN x

namespace ZeroIff

variable {p q : Prop}

theorem iff (h : ZeroIff p x) : IsZero x ↔ p := by
  refine ⟨fun zero => ?_, h.zero⟩
  by_contra fails
  exact not_isNaN_of_isZero zero (h.lost fails)

theorem congr (h : ZeroIff p x) (same : p ↔ q) : ZeroIff q x := by
  rwa [← propext same]

theorem neg (h : ZeroIff p x) : ZeroIff p (-x) :=
  ⟨fun holds => isZero_neg (h.zero holds), fun fails => isNaN_neg (h.lost fails)⟩

theorem add (hx : ZeroIff p x) (hy : ZeroIff q y) : ZeroIff (p ∧ q) (x + y) where
  zero := fun ⟨hp, hq⟩ => isZero_add (hx.zero hp) (hy.zero hq)
  lost := fun fails => isNaN_add ((not_and_or.1 fails).imp hx.lost hy.lost)

theorem sub (hx : ZeroIff p x) (hy : ZeroIff q y) : ZeroIff (p ∧ q) (x - y) where
  zero := fun ⟨hp, hq⟩ => isZero_sub (hx.zero hp) (hy.zero hq)
  lost := fun fails => isNaN_sub ((not_and_or.1 fails).imp hx.lost hy.lost)

/-- A zero times a double is zero where the double is finite. -/
theorem mul_right (hx : ZeroIff p x) (y : Float) : ZeroIff (p ∧ y.isFinite = true) (x * y) := by
  by_cases hp : p
  · obtain ⟨s, hs⟩ := hx.zero hp
    have finite : y.isFinite = (unpacked y).isFinite := rfl
    have product : x * y = .ofModel (pack (UnpackedFloat.mul .binary64 (.zero s) (unpacked y))) :=
      hs ▸ rfl
    rw [finite, product]
    cases unpacked y with
    | notANumber => exact ⟨nofun, fun _ => isNaN_pack rfl⟩
    | infinity r => exact ⟨nofun, fun _ => isNaN_pack rfl⟩
    | zero r => exact ⟨fun _ => isZero_pack rfl, fun fails => absurd ⟨hp, rfl⟩ fails⟩
    | finite r m e h => exact ⟨fun _ => isZero_pack rfl, fun fails => absurd ⟨hp, rfl⟩ fails⟩
  · exact ⟨fun holds => absurd holds.1 hp, fun _ => isNaN_mul (.inl (hx.lost hp))⟩

theorem mul_left (hx : ZeroIff p x) (y : Float) : ZeroIff (p ∧ y.isFinite = true) (y * x) := by
  by_cases hp : p
  · rw [mul_comm_of_isZero (hx.zero hp) y]
    exact hx.mul_right y
  · exact ⟨fun holds => absurd holds.1 hp, fun _ => isNaN_mul (.inr (hx.lost hp))⟩

/-- A zero divided by a double is zero where the double is one to divide by. -/
theorem div (hx : ZeroIff p x) (y : Float) : ZeroIff (p ∧ IsDivisor y) (x / y) := by
  by_cases hp : p
  · obtain ⟨s, hs⟩ := hx.zero hp
    have quotient : x / y = .ofModel (pack (UnpackedFloat.div .binary64 (.zero s) (unpacked y))) :=
      hs ▸ rfl
    unfold IsDivisor
    rw [quotient, beq_zero_iff, isNaN_iff]
    unfold IsZero IsNaN
    cases unpacked y with
    | notANumber => exact ⟨fun holds => absurd rfl holds.2.2, fun _ => isNaN_pack rfl⟩
    | zero r => exact ⟨fun holds => absurd ⟨r, rfl⟩ holds.2.1, fun _ => isNaN_pack rfl⟩
    | infinity r =>
      exact ⟨fun _ => isZero_pack rfl, fun fails => absurd ⟨hp, nofun, nofun⟩ fails⟩
    | finite r m e h =>
      exact ⟨fun _ => isZero_pack rfl, fun fails => absurd ⟨hp, nofun, nofun⟩ fails⟩
  · exact ⟨fun holds => absurd holds.1 hp, fun _ => isNaN_div (.inl (hx.lost hp))⟩

end ZeroIff

end Acausal
