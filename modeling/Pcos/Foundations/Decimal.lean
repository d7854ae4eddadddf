import Mathlib.Algebra.Group.Nat.Defs
import Mathlib.Data.List.Basic

/-!
# Foundations/Decimal — numbers in decimal, filled up with zeros

`zeroPadded w n` writes `n` with at least `w` digits.  What is written is read back, so that numbers
written alike are the same.
-/

namespace Foundations

/-- The number, with zeros before it up to the width. -/
def zeroPadded (w n : ℕ) : String :=
  String.ofList (List.replicate (w - (toString n).length) '0' ++ (toString n).toList)

theorem toList_zeroPadded (w n : ℕ) : (zeroPadded w n).toList =
    List.replicate (w - (Nat.toDigits 10 n).length) '0' ++ Nat.toDigits 10 n := by
  rw [zeroPadded, String.toList_ofList, Nat.toString_eq_ofList_toDigits, String.toList_ofList,
    String.length_ofList]

/-- **The number is read back.** -/
theorem ofDigitChars_zeroPadded (w n : ℕ) : Nat.ofDigitChars 10 (zeroPadded w n).toList 0 = n := by
  rw [toList_zeroPadded, Nat.ofDigitChars_append, Nat.ofDigitChars_replicate_zero, Nat.mul_zero,
    Nat.ofDigitChars_ten_toDigits]

theorem zeroPadded_injective (w : ℕ) : (zeroPadded w).Injective := by
  intro m n h
  rw [← ofDigitChars_zeroPadded w m, h, ofDigitChars_zeroPadded]

theorem isDigit_of_mem_zeroPadded {w n : ℕ} {c : Char} (hc : c ∈ (zeroPadded w n).toList) :
    c.isDigit = true := by
  rw [toList_zeroPadded] at hc
  rcases List.mem_append.mp hc with hc | hc
  · rw [List.eq_of_mem_replicate hc]
    rfl
  · exact Nat.isDigit_of_mem_toDigits (by decide) (by decide) hc

/-- A number that needs no more digits has as many as the width says. -/
theorem length_zeroPadded {w n : ℕ} (hw : 0 < w) (hn : n < 10 ^ w) :
    (zeroPadded w n).toList.length = w := by
  have hlength := (Nat.length_toDigits_le_iff (by decide) hw).mpr hn
  rw [toList_zeroPadded, List.length_append, List.length_replicate]
  omega

end Foundations
