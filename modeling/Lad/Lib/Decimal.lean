import Mathlib.Data.List.TakeWhile
import Lad.Lib.JsonValue

/-!
# Decimal numerals

The decimal text of an integer, as `strconv.AppendInt` writes it, is a JSON number that stands
for itself (`valueText_decimal`).
-/

namespace Json

/-- The decimal digits of `n`, most significant first. -/
def digits (n : Nat) : List UInt8 := (Nat.toDigits 10 n).map fun c => c.toNat.toUInt8

/-- The decimal text of `i`. -/
def decimal (i : Int) : List UInt8 :=
  if i < 0 then 0x2D :: digits i.natAbs else digits i.natAbs

example : decimal (-120) = [0x2D, 0x31, 0x32, 0x30] := by decide

theorem digits_of_lt {n : Nat} (h : n < 10) : digits n = [UInt8.ofNat (48 + n)] := by
  simp [digits, Nat.toDigits_of_lt_base h, Nat.toNat_digitChar_of_lt_ten h, Nat.toUInt8]

theorem digits_of_le {n : Nat} (h : 10 ≤ n) :
    digits n = digits (n / 10) ++ [UInt8.ofNat (48 + n % 10)] := by
  simp [digits, Nat.toDigits_of_base_le (by decide) h,
    Nat.toNat_digitChar_of_lt_ten (Nat.mod_lt n (by decide)), Nat.toUInt8]

theorem isDigit_of_mem_digits (n : Nat) : ∀ c ∈ digits n, isDigit c = true := by
  induction n using Nat.strong_induction_on with
  | _ n ih =>
    intro c hc
    by_cases hn : n < 10
    · rw [digits_of_lt hn, List.mem_singleton] at hc
      subst hc
      simp only [isDigit, UInt8.toNat_ofNat', Bool.and_eq_true, decide_eq_true_eq]
      omega
    · rw [digits_of_le (by omega), List.mem_append, List.mem_singleton] at hc
      rcases hc with hc | rfl
      · exact ih (n / 10) (by omega) c hc
      · have := Nat.mod_lt n (show 10 > 0 by decide)
        simp only [isDigit, UInt8.toNat_ofNat', Bool.and_eq_true, decide_eq_true_eq]
        omega

/-- The numeral starts with a digit, a nonzero one unless the value is zero. -/
theorem digits_cons (n : Nat) :
    ∃ c r, digits n = c :: r ∧ (n = 0 ∨ 0x31 ≤ c.toNat ∧ c.toNat ≤ 0x39) := by
  induction n using Nat.strong_induction_on with
  | _ n ih =>
    by_cases hn : n < 10
    · refine ⟨_, [], digits_of_lt hn, ?_⟩
      rw [UInt8.toNat_ofNat']
      omega
    · obtain ⟨c, r, hcr, hc⟩ := ih (n / 10) (by omega)
      refine ⟨c, r ++ [UInt8.ofNat (48 + n % 10)], by rw [digits_of_le (by omega), hcr]; rfl, ?_⟩
      omega

theorem digits_zero : digits 0 = [0x30] := by decide

theorem isUnsignedNumber_digits (n : Nat) : isUnsignedNumber (digits n) = true := by
  obtain ⟨c, r, hcr, hc⟩ := digits_cons n
  rcases hc with rfl | hc
  · simp [digits_zero, isUnsignedNumber, isFracExp]
  · have hall := isDigit_of_mem_digits n
    rw [hcr] at hall
    have hdrop : r.dropWhile isDigit = [] :=
      List.dropWhile_eq_nil_iff.mpr fun d hd => hall d (List.mem_cons_of_mem c hd)
    have h0 : c ≠ 0x30 := by
      rintro rfl
      simp at hc
    rw [hcr, isUnsignedNumber, if_neg h0, hdrop]
    simp only [isFracExp, Bool.and_true, Bool.and_eq_true, decide_eq_true_eq]
    omega

theorem isNumber_decimal (i : Int) : isNumber (decimal i) = true := by
  obtain ⟨c, r, hcr, -⟩ := digits_cons i.natAbs
  have hc : c ≠ 0x2D := by
    intro h
    have := isDigit_of_mem_digits i.natAbs c (by rw [hcr]; exact List.mem_cons_self)
    rw [h] at this
    exact absurd this (by decide)
  unfold decimal
  split_ifs
  · simp [isNumber, isUnsignedNumber_digits]
  · rw [hcr, isNumber, if_neg hc, ← hcr, isUnsignedNumber_digits]

theorem isNumByte_of_mem_decimal {i : Int} {c : UInt8} (h : c ∈ decimal i) : isNumByte c = true := by
  unfold decimal at h
  split_ifs at h
  · rcases List.mem_cons.mp h with rfl | h
    · decide
    · simp [isNumByte, isDigit_of_mem_digits _ _ h]
  · simp [isNumByte, isDigit_of_mem_digits _ _ h]

/-- A decimal numeral, before what may follow a value, is read as that number. -/
theorem valueText_decimal (i : Int) {rest : List UInt8} (hrest : Delimited rest) :
    ValueText (decimal i ++ rest) (.num (decimal i), rest) := by
  exact valueText_num (isNumber_decimal i) (fun c hc => isNumByte_of_mem_decimal hc)
    hrest.isNumByte

end Json
