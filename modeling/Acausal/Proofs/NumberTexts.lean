-- The texts of numbers. The text of a finite literal without a sign is made of digits and points
-- and starts with a digit, a sign stands in front of the text of the negated literal, and the
-- digits of a count are read as the double nearest to it.
import Mathlib.Data.List.TakeWhile
import Acausal.Number.Render
import Acausal.Proofs.Counts

namespace Acausal

/-! ## Digits and points -/

/-- A text of digits and points that starts with a digit. -/
structure Numeral (text : List Char) : Prop where
  first : ∃ c more, text = c :: more ∧ c.isDigit = true
  all : ∀ d ∈ text, (d.isDigit || d == '.') = true

theorem numeral_of_digits {text : List Char} (filled : text ≠ [])
    (digits : ∀ d ∈ text, d.isDigit = true) : Numeral text := by
  refine ⟨?_, fun d hd => by simp [digits d hd]⟩
  cases text with
  | nil => exact absurd rfl filled
  | cons c more => exact ⟨c, more, rfl, digits c (by simp)⟩

theorem Numeral.append {front back : List Char} (h : Numeral front)
    (more : ∀ d ∈ back, (d.isDigit || d == '.') = true) : Numeral (front ++ back) := by
  obtain ⟨⟨c, rest, rfl, hc⟩, all⟩ := h
  refine ⟨⟨c, rest ++ back, rfl, hc⟩, ?_⟩
  intro d hd
  rcases List.mem_append.mp hd with hd | hd
  · exact all d hd
  · exact more d hd

theorem isDigit_of_mem_toDigits {n : Nat} {d : Char} (h : d ∈ Nat.toDigits 10 n) :
    d.isDigit = true :=
  Nat.isDigit_of_mem_toDigits (by omega) (by omega) h

theorem numeral_toDigits (n : Nat) : Numeral (Nat.toDigits 10 n) :=
  numeral_of_digits Nat.toDigits_ne_nil fun _ => isDigit_of_mem_toDigits

theorem numeral_positional (d : Decimal) : Numeral d.positional.toList := by
  have zero {count : Nat} : ∀ c ∈ List.replicate count '0', c.isDigit = true := by
    intro c hc
    rw [List.eq_of_mem_replicate hc]
    rfl
  unfold Decimal.positional
  split
  · next zeros _ =>
    rw [String.toList_ofList]
    exact (numeral_toDigits _).append fun c hc => by simp [zero c hc]
  · next n _ =>
    simp only [String.toList_append, String.toList_ofList]
    have long : n + 2 ≤ (List.replicate (n + 1 + 1 - d.digits.length) '0' ++ d.digits).length := by
      rw [List.length_append, List.length_replicate]
      omega
    have digits : ∀ c ∈ List.replicate (n + 1 + 1 - d.digits.length) '0' ++ d.digits,
        c.isDigit = true := by
      intro c hc
      rcases List.mem_append.mp hc with hc | hc
      · exact zero c hc
      · exact isDigit_of_mem_toDigits hc
    generalize List.replicate (n + 1 + 1 - d.digits.length) '0' ++ d.digits = padded at *
    have whole : Numeral (padded.take (padded.length - (n + 1))) := by
      refine numeral_of_digits ?_ fun c hc => digits c (List.mem_of_mem_take hc)
      intro empty
      have := congrArg List.length empty
      rw [List.length_take, List.length_nil] at this
      omega
    have point : ∀ c ∈ ".".toList, (c.isDigit || c == '.') = true := by simp
    refine (whole.append point).append fun c hc => ?_
    simp [digits c (List.mem_of_mem_drop hc)]

/-! ## Literals -/

variable {x : Float}

theorem plainText_of_finite {mantissa : Nat} {exponent : Int}
    (h : magnitude x = .finite mantissa exponent) :
    plainText x =
      (if signBit x then "-" else "") ++ (shortestDigits mantissa exponent).positional := by
  unfold plainText renderWith
  rw [h]

theorem numeral_literalText (finite : Finite x) (plain : signBit x = false) :
    Numeral (literalText x).toList := by
  obtain ⟨mantissa, exponent, h⟩ := finite
  have digits : Numeral (plainText x).toList := by
    rw [plainText_of_finite h, plain, String.toList_append]
    exact numeral_positional _
  unfold literalText
  split
  · rw [String.toList_append]
    exact digits.append (by simp)
  · exact digits

/-- The sign of a literal stands in front of the text of what it negates. -/
theorem literalText_of_signBit (finite : Finite x) (sign : signBit x = true) :
    (literalText x).toList = '-' :: (literalText (-x)).toList := by
  have same : wholeMagnitude? (-x) = wholeMagnitude? x := by
    unfold wholeMagnitude?
    rw [magnitude_neg finite]
  have plain : signBit (-x) = false := by
    rw [signBit_neg finite, sign]
    rfl
  have texts : (plainText x).toList = '-' :: (plainText (-x)).toList := by
    obtain ⟨mantissa, exponent, h⟩ := finite
    rw [plainText_of_finite h, plainText_of_finite ((magnitude_neg ⟨_, _, h⟩).trans h), sign, plain]
    simp
  unfold literalText
  rw [same]
  split
  · rw [String.toList_append, String.toList_append, texts]
    rfl
  · exact texts

/-! ## Counts -/

theorem readUnsigned?_toDigits (n : Nat) :
    readUnsigned? (Nat.toDigits 10 n) = some (nearestDouble n 0) := by
  have digits : ∀ d ∈ Nat.toDigits 10 n, d.isDigit = true := fun _ => isDigit_of_mem_toDigits
  have whole : (Nat.toDigits 10 n).takeWhile Char.isDigit = Nat.toDigits 10 n :=
    List.takeWhile_eq_self_iff.mpr digits
  have rest : (Nat.toDigits 10 n).dropWhile Char.isDigit = [] :=
    List.dropWhile_eq_nil_iff.mpr digits
  have value : digitsValue (Nat.toDigits 10 n) = n := Nat.ofDigitChars_ten_toDigits
  unfold readUnsigned?
  simp [whole, rest, value, readExponent?]

end Acausal
