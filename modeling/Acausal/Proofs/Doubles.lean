-- Doubles behind their bits. A double is unpacked into a sign, a mantissa and an exponent, and
-- packing undoes that, so negating flips the sign bit and nothing else, and a whole number that
-- fits into the mantissa is held exactly.
import Mathlib.Tactic.NormNum
import Mathlib.Tactic.Ring
import Acausal.Number.Binary

namespace Acausal

open Float.Model
open Float.Model.UnpackedFloat hiding pack unpack

/-! ## Fields -/

theorem unpackSign_packComponents {spec : Format} {s : Sign} {e : BitVec spec.exponentBits}
    {m : BitVec spec.mantissaBitsWithoutImplicit} :
    unpackSign (packComponents spec s e m) = s.toBitVec := by
  refine BitVec.eq_of_getLsbD_eq fun i hi => ?_
  obtain rfl : i = 0 := by omega
  change ((packComponents spec s e m).extractLsb _ _).getLsbD 0 = s.toBitVec.getLsbD 0
  simp [packComponents, BitVec.getLsbD_append, BitVec.getElem_append]

theorem ofBitVec_toBitVec (s : Sign) : Sign.ofBitVec s.toBitVec = s := by
  cases s <;> rfl

theorem implicit_bit (m : BitVec 52) : (1#1 ++ m).toNat = 2 ^ 52 + m.toNat := by
  rw [BitVec.toNat_append, ← Nat.shiftLeft_add_eq_or_of_lt m.isLt]
  simp

theorem finite_congr {s : Sign} {m m' : Nat} {e e' : Int} {h : 0 < m} {h' : 0 < m'}
    (hm : m = m') (he : e = e') : UnpackedFloat.finite s m e h = .finite s m' e' h' := by
  subst hm he
  rfl

/-- What is unpacked from a sign, a biased exponent and a fraction. -/
theorem unpack_packComponents (s : Sign) (e : BitVec 11) (m : BitVec 52) :
    UnpackedFloat.unpack .binary64 (packComponents .binary64 s e m) =
      if e = -1#_ then if m = 0#_ then .infinity s else .notANumber
      else if e = 0#_ then
        if h : m = 0#_ then .zero s
        else .finite s m.toNat (-1074) (by simpa [BitVec.toNat_pos, BitVec.pos_iff_ne_zero])
      else .finite s (2 ^ 52 + m.toNat) (e.toNat - 1075) (by omega) := by
  have sign : Sign.ofBitVec (unpackSign (packComponents .binary64 s e m)) = s := by
    rw [unpackSign_packComponents, ofBitVec_toBitVec]
  have exponent : unpackExponent (packComponents .binary64 s e m) = e :=
    unpackExponent_packComponents
  have mantissa : unpackMantissa (packComponents .binary64 s e m) = m :=
    unpackMantissa_packComponents
  generalize packComponents .binary64 s e m = b at *
  subst sign exponent mantissa
  unfold UnpackedFloat.unpack
  by_cases most : unpackExponent b = -1#_
  · rw [if_pos most, if_pos most]
  · rw [if_neg most, if_neg most]
    by_cases least : unpackExponent b = 0#_
    · rw [if_pos least, if_pos least, least]
      rfl
    · rw [if_neg least, if_neg least]
      exact finite_congr (implicit_bit _) rfl

/-! ## Packing and unpacking -/

/-- The magnitudes of finite doubles: at most 53 bits, all of them used but for the smallest. -/
structure Canonical (m : Nat) (e : Int) : Prop where
  small : m < 2 ^ 53
  low : -1074 ≤ e
  high : e ≤ 971
  normal : 2 ^ 52 ≤ m ∨ e = -1074

theorem pack_finite {s : Sign} {m : Nat} {e : Int} (hm : 0 < m) (h : Canonical m e) :
    UnpackedFloat.pack .binary64 (.finite s m e hm) =
      packComponents .binary64 s (if 2 ^ 52 ≤ m then BitVec.ofNat 11 (e + 1075).toNat else 0#11)
        (BitVec.ofNat 52 m) := by
  obtain ⟨small, low, high, normal⟩ := h
  unfold UnpackedFloat.pack
  have bias : (e + (Format.exponentBias .binary64 : Nat) +
      (Format.mantissaBitsWithoutImplicit .binary64 : Nat)).toNat = (e + 1075).toNat := by
    have : (Format.exponentBias .binary64 : Int) = 1023 := rfl
    have : (Format.mantissaBitsWithoutImplicit .binary64 : Int) = 52 := rfl
    omega
  dsimp only
  rw [bias, if_neg (show ¬ 2 ^ 11 ≤ (e + 1075).toNat + 1 by omega)]
  by_cases hn : 2 ^ 52 ≤ m
  · have log : m.log2 + 1 = 53 := by
      rw [(Nat.log2_eq_iff (by omega)).mpr ⟨hn, small⟩]
    rw [if_pos hn, if_pos (show m.log2 + 1 = Format.mantissaBits .binary64 from log)]
  · have log : ¬ m.log2 + 1 = 53 := by
      have := (Nat.log2_lt (by omega)).mpr (show m < 2 ^ 52 by omega)
      omega
    rw [if_neg hn, if_neg (show ¬ m.log2 + 1 = Format.mantissaBits .binary64 from log)]

theorem unpack_pack_finite {s : Sign} {m : Nat} {e : Int} (hm : 0 < m) (h : Canonical m e) :
    UnpackedFloat.unpack .binary64 (UnpackedFloat.pack .binary64 (.finite s m e hm)) =
      .finite s m e hm := by
  rw [pack_finite hm h, unpack_packComponents]
  obtain ⟨small, low, high, normal⟩ := h
  by_cases hn : 2 ^ 52 ≤ m
  · have biased : (BitVec.ofNat 11 (e + 1075).toNat).toNat = (e + 1075).toNat := by
      rw [BitVec.toNat_ofNat, Nat.mod_eq_of_lt (by omega)]
    have fits : BitVec.ofNat 11 (e + 1075).toNat ≠ -1#_ := by
      intro h
      have := biased.symm.trans (congrArg BitVec.toNat h)
      simp at this
      omega
    have normal : BitVec.ofNat 11 (e + 1075).toNat ≠ 0#_ := by
      intro h
      have := biased.symm.trans (congrArg BitVec.toNat h)
      simp at this
      omega
    rw [if_pos hn, if_neg fits, if_neg normal]
    apply finite_congr
    · rw [BitVec.toNat_ofNat]
      omega
    · rw [biased]
      omega
  · have fraction : (BitVec.ofNat 52 m).toNat = m := by
      rw [BitVec.toNat_ofNat, Nat.mod_eq_of_lt (by omega)]
    have nonzero : BitVec.ofNat 52 m ≠ 0#_ := by
      intro h
      have := fraction.symm.trans (congrArg BitVec.toNat h)
      simp at this
      omega
    rw [if_neg hn, if_neg (by decide), if_pos rfl, dif_neg nonzero]
    exact finite_congr fraction (by omega)

/-! ## Fields of a double -/

/-- The fields that a double is packed from. -/
def HasFields (x : Float) (s : Sign) (e : BitVec 11) (m : BitVec 52) : Prop :=
  x.toBits.toBitVec = packComponents .binary64 s e m

variable {x : Float} {s : Sign} {e : BitVec 11} {m : BitVec 52}

theorem toNat_packComponents (s : Sign) (e : BitVec 11) (m : BitVec 52) :
    (packComponents .binary64 s e m).toNat =
      s.toBitVec.toNat * 2 ^ 63 + e.toNat * 2 ^ 52 + m.toNat := by
  unfold packComponents
  rw [BitVec.toNat_append, ← Nat.shiftLeft_add_eq_or_of_lt m.isLt, BitVec.toNat_append,
    ← Nat.shiftLeft_add_eq_or_of_lt e.isLt, Nat.shiftLeft_eq, Nat.shiftLeft_eq]
  ring

theorem exists_fields (x : Float) : ∃ s e m, HasFields x s e m := by
  have bound : x.toBits.toBitVec.toNat < 2 ^ 64 := x.toBits.toBitVec.isLt
  generalize hb : x.toBits.toBitVec = b at bound
  refine ⟨if b.toNat / 2 ^ 63 = 0 then .positive else .negative,
    BitVec.ofNat 11 (b.toNat / 2 ^ 52), BitVec.ofNat 52 b.toNat, ?_⟩
  refine hb.trans (BitVec.eq_of_toNat_eq ?_)
  rw [toNat_packComponents, BitVec.toNat_ofNat, BitVec.toNat_ofNat]
  split
  · simp only [Sign.toBitVec]
    simp only [BitVec.toNat_ofNat]
    omega
  · simp only [Sign.toBitVec]
    simp only [BitVec.toNat_ofNat]
    omega

theorem HasFields.toNat (h : HasFields x s e m) :
    x.toBits.toNat = s.toBitVec.toNat * 2 ^ 63 + e.toNat * 2 ^ 52 + m.toNat := by
  rw [← toNat_packComponents, ← h]
  rfl

theorem HasFields.unique {y : Float} (h : HasFields x s e m) (h' : HasFields y s e m) : x = y := by
  have bits : x.toModel.toBits = y.toModel.toBits := UInt64.eq_of_toBitVec_eq (h.trans h'.symm)
  cases x with
  | ofModel a => cases y with
    | ofModel b =>
      cases a
      cases b
      cases bits
      rfl

theorem HasFields.signBit_iff (h : HasFields x s e m) : signBit x = true ↔ s = .negative := by
  have := e.isLt
  have := m.isLt
  unfold signBit
  rw [h.toNat, decide_eq_true_iff, Nat.pow_eq]
  cases s
  · simp only [Sign.toBitVec, BitVec.toNat_ofNat, iff_true]
    omega
  · simp only [Sign.toBitVec, BitVec.toNat_ofNat, reduceCtorEq, iff_false]
    omega

theorem HasFields.magnitude_eq (h : HasFields x s e m) :
    magnitude x =
      if e.toNat = 2047 then if m.toNat = 0 then .infinite else .notANumber
      else if e.toNat = 0 then .finite m.toNat (-1074)
      else .finite (2 ^ 52 + m.toNat) (e.toNat - 1075) := by
  have he := e.isLt
  have hm := m.isLt
  have hs := s.toBitVec.isLt
  unfold magnitude
  have biased : x.toBits.toNat / Nat.pow 2 52 % Nat.pow 2 11 = e.toNat := by
    rw [h.toNat]
    change _ / 2 ^ 52 % 2 ^ 11 = _
    omega
  have fraction : x.toBits.toNat % Nat.pow 2 52 = m.toNat := by
    rw [h.toNat]
    change _ % 2 ^ 52 = _
    omega
  simp only [biased, fraction]
  rfl

/-! ## Negation -/

/-- A double that is neither infinite nor no number. -/
def Finite (x : Float) : Prop := ∃ mantissa exponent, magnitude x = .finite mantissa exponent

theorem HasFields.finite_iff (h : HasFields x s e m) : Finite x ↔ e.toNat ≠ 2047 := by
  unfold Finite
  rw [h.magnitude_eq]
  split
  · next he =>
    split <;> simp [he]
  · next he =>
    split <;> simp [he]

theorem neg_unpacked (s : Sign) (m : Nat) (e : Int) (hm : 0 < m) :
    (UnpackedFloat.finite s m e hm).neg = .finite (-s) m e hm := rfl

theorem pack_neg_unpack (s : Sign) (m : BitVec 52) (he : e.toNat ≠ 2047) :
    UnpackedFloat.pack .binary64
        (UnpackedFloat.unpack .binary64 (packComponents .binary64 s e m)).neg =
      packComponents .binary64 (-s) e m := by
  have hm := m.isLt
  have hlt := e.isLt
  have fits : e ≠ -1#_ := by
    rintro rfl
    exact he rfl
  rw [unpack_packComponents, if_neg fits]
  by_cases zero : e = 0#_
  · subst zero
    rw [if_pos rfl]
    by_cases empty : m = 0#_
    · subst empty
      rw [dif_pos rfl]
      rfl
    · have positive : 0 < m.toNat := by
        rwa [BitVec.toNat_pos, BitVec.pos_iff_ne_zero]
      rw [dif_neg empty, neg_unpacked,
        pack_finite positive ⟨by omega, by omega, by omega, .inr rfl⟩, if_neg (by omega),
        BitVec.ofNat_toNat, BitVec.setWidth_eq]
  · have positive : e.toNat ≠ 0 := by
      intro h
      exact zero (BitVec.eq_of_toNat_eq h)
    rw [if_neg zero, neg_unpacked,
      pack_finite _ ⟨by omega, by omega, by omega, .inl (by omega)⟩, if_pos (by omega)]
    congr 1
    · apply BitVec.eq_of_toNat_eq
      rw [BitVec.toNat_ofNat]
      omega
    · apply BitVec.eq_of_toNat_eq
      rw [BitVec.toNat_ofNat]
      omega

theorem HasFields.neg (h : HasFields x s e m) (finite : Finite x) : HasFields (-x) (-s) e m := by
  rw [h.finite_iff] at finite
  unfold HasFields at *
  rw [← pack_neg_unpack s m finite, ← h]
  rfl

theorem neg_neg_of_finite (finite : Finite x) : - -x = x := by
  obtain ⟨s, e, m, h⟩ := exists_fields x
  have back := (h.neg finite).neg ((h.neg finite).finite_iff.mpr (h.finite_iff.mp finite))
  rw [show - -s = s by cases s <;> rfl] at back
  exact back.unique h

theorem magnitude_neg (finite : Finite x) : magnitude (-x) = magnitude x := by
  obtain ⟨s, e, m, h⟩ := exists_fields x
  rw [h.magnitude_eq, (h.neg finite).magnitude_eq]

theorem finite_neg (finite : Finite x) : Finite (-x) := by
  unfold Finite
  rw [magnitude_neg finite]
  exact finite

theorem signBit_neg (finite : Finite x) : signBit (-x) = !signBit x := by
  obtain ⟨s, e, m, h⟩ := exists_fields x
  have before := h.signBit_iff
  have after := (h.neg finite).signBit_iff
  cases s <;> simp_all [Neg.neg]

end Acausal
