import Pcos.Foundations.Digest
import Pcos.Foundations.PercentCoding

/-!
# Foundations/FormCoding — bytes in the percent-encoding of forms

`%` and two hexadecimal digits stand for a byte, `+` stands for a space, and everything else for
itself.  One byte is read at a time (`formDecode_cons`), so what an encoder writes for the bytes of a
text is read back whichever bytes it leaves as they are (`formDecode_of_encodes`).
-/

namespace Foundations

/-! ## Decoding -/

/-- The character of a byte, as in Latin-1. -/
def latin1 (b : UInt8) : Char := Char.ofNat b.toNat

/-- The byte that `%`, `h`, `l` stand for. -/
def hexByteOf (h l : UInt8) : Option UInt8 := escapedByte '%' (latin1 h) (latin1 l)

/-- `%` -/
abbrev percent : UInt8 := 0x25

/-- `+` -/
abbrev plus : UInt8 := 0x2B

/-- What a byte outside of escapes stands for. -/
def unplus (b : UInt8) : UInt8 := if b = plus then 0x20 else b

def formDecode : Bytes → Bytes
  | b :: h :: l :: rest =>
    match if b = percent then hexByteOf h l else none with
    | some byte => byte :: formDecode rest
    | none => unplus b :: formDecode (h :: l :: rest)
  | bs => bs.map unplus

/-! ## Digits -/

/-- The digits, by their numbers. -/
theorem hexDigit_eq_some {c : Char} {n : ℕ} : hexDigit c = some n ↔
    (48 ≤ c.toNat ∧ c.toNat ≤ 57 ∧ c.toNat = n + 48)
    ∨ (97 ≤ c.toNat ∧ c.toNat ≤ 102 ∧ c.toNat = n + 87)
    ∨ (65 ≤ c.toNat ∧ c.toNat ≤ 70 ∧ c.toNat = n + 55) := by
  have hdigit : '0' ≤ c ∧ c ≤ '9' ↔ 48 ≤ c.toNat ∧ c.toNat ≤ 57 := Iff.rfl
  have hlower : 'a' ≤ c ∧ c ≤ 'f' ↔ 97 ≤ c.toNat ∧ c.toNat ≤ 102 := Iff.rfl
  have hupper : 'A' ≤ c ∧ c ≤ 'F' ↔ 65 ≤ c.toNat ∧ c.toNat ≤ 70 := Iff.rfl
  unfold hexDigit
  simp only [hdigit, hlower, hupper]
  split_ifs with h1 h2 h3
  · rw [Option.some.injEq]
    omega
  · rw [Option.some.injEq]
    omega
  · rw [Option.some.injEq]
    omega
  · refine iff_of_false (by simp) ?_
    omega

@[simp] theorem toNat_latin1 (b : UInt8) : (latin1 b).toNat = b.toNat := by
  have hvalid : b.toNat.isValidChar := Or.inl (Nat.lt_trans b.toNat_lt (by decide))
  rw [latin1, Char.ofNat, dif_pos hvalid]
  exact UInt32.toNat_ofNatLT

theorem hexByteOf_eq_some {h l byte : UInt8} : hexByteOf h l = some byte ↔
    ∃ hi lo, hexDigit (latin1 h) = some hi ∧ hexDigit (latin1 l) = some lo
      ∧ byte = UInt8.ofNat (16 * hi + lo) := by
  simp only [hexByteOf, escapedByte, if_true, Option.bind_eq_some_iff, Option.map_eq_some_iff,
    eq_comm (a := byte)]
  constructor
  · rintro ⟨hi, hhi, lo, hlo, hbyte⟩
    exact ⟨hi, lo, hhi, hlo, hbyte⟩
  · rintro ⟨hi, lo, hhi, hlo, hbyte⟩
    exact ⟨hi, hhi, lo, hlo, hbyte⟩

/-- A digit is neither `%` nor `+`. -/
theorem ne_of_hexDigit {b : UInt8} (h : (hexDigit (latin1 b)).isSome) : b ≠ percent ∧ b ≠ plus := by
  obtain ⟨n, hn⟩ := Option.isSome_iff_exists.mp h
  rw [hexDigit_eq_some, toNat_latin1] at hn
  have hpercent : percent.toNat = 37 := rfl
  have hplus : plus.toNat = 43 := rfl
  constructor
  · rintro rfl
    omega
  · rintro rfl
    omega

/-! ## One byte at a time -/

theorem formDecode_escape {h l byte : UInt8} (hbyte : hexByteOf h l = some byte) (rest : Bytes) :
    formDecode (percent :: h :: l :: rest) = byte :: formDecode rest := by
  rw [formDecode, if_pos rfl, hbyte]

theorem formDecode_malformed {h l : UInt8} (hnone : hexByteOf h l = none) (rest : Bytes) :
    formDecode (percent :: h :: l :: rest) = percent :: formDecode (h :: l :: rest) := by
  rw [formDecode, if_pos rfl, hnone]
  rfl

/-- **One byte is read at a time**, if no escape is. -/
theorem formDecode_cons (b : UInt8) (bs : Bytes) :
    (∃ h l byte rest, b = percent ∧ bs = h :: l :: rest ∧ hexByteOf h l = some byte)
    ∨ formDecode (b :: bs) = unplus b :: formDecode bs := by
  match bs with
  | [] => exact Or.inr rfl
  | [h] => exact Or.inr rfl
  | h :: l :: rest =>
    by_cases hb : b = percent
    · cases hbyte : hexByteOf h l with
      | some byte => exact Or.inl ⟨h, l, byte, rest, hb, rfl, hbyte⟩
      | none =>
        rw [formDecode, if_pos hb, hbyte]
        exact Or.inr rfl
    · rw [formDecode, if_neg hb]
      exact Or.inr rfl

theorem formDecode_of_ne {b : UInt8} (hb : b ≠ percent) (bs : Bytes) :
    formDecode (b :: bs) = unplus b :: formDecode bs := by
  rcases formDecode_cons b bs with ⟨_, _, _, _, heq, -⟩ | h
  · exact absurd heq hb
  · exact h

/-- A digit is read as it is. -/
theorem formDecode_digit {b : UInt8} (hb : (hexDigit (latin1 b)).isSome) (bs : Bytes) :
    formDecode (b :: bs) = b :: formDecode bs := by
  obtain ⟨hpercent, hplus⟩ := ne_of_hexDigit hb
  rw [formDecode_of_ne hpercent, unplus, if_neg hplus]

/-- Two bytes more are read as no fewer. -/
theorem length_formDecode_le (a b : UInt8) (bs : Bytes) :
    (formDecode bs).length ≤ (formDecode (a :: b :: bs)).length := by
  rcases formDecode_cons a (b :: bs) with ⟨h, l, byte, rest, rfl, hbs, hbyte⟩ | ha
  · obtain ⟨rfl, rfl⟩ := List.cons.inj hbs
    obtain ⟨_, lo, -, hlo, -⟩ := hexByteOf_eq_some.mp hbyte
    rw [formDecode_escape hbyte, formDecode_digit (Option.isSome_of_eq_some hlo)]
    exact Nat.le_refl _
  rw [ha, List.length_cons]
  rcases formDecode_cons b bs with ⟨h, l, byte, rest, rfl, rfl, hbyte⟩ | hb
  · obtain ⟨hi, lo, hhi, hlo, -⟩ := hexByteOf_eq_some.mp hbyte
    rw [formDecode_escape hbyte, formDecode_digit (Option.isSome_of_eq_some hhi),
      formDecode_digit (Option.isSome_of_eq_some hlo)]
    exact Nat.le_refl _
  · rw [hb, List.length_cons]
    omega

/-! ## Encoding -/

/-- The first bytes are a percent-encoding of the second ones. -/
inductive Encodes : Bytes → Bytes → Prop
  | nil : Encodes [] []
  | keep {b : UInt8} {encoded bytes : Bytes} (hpercent : b ≠ percent) (hplus : b ≠ plus)
      (h : Encodes encoded bytes) : Encodes (b :: encoded) (b :: bytes)
  | escape {high low b : UInt8} {encoded bytes : Bytes} (hbyte : hexByteOf high low = some b)
      (h : Encodes encoded bytes) : Encodes (percent :: high :: low :: encoded) (b :: bytes)

/-- **What is encoded is read back.** -/
theorem formDecode_of_encodes {encoded bytes : Bytes} (h : Encodes encoded bytes) :
    formDecode encoded = bytes := by
  induction h with
  | nil => rfl
  | keep hpercent hplus _ ih => rw [formDecode_of_ne hpercent, unplus, if_neg hplus, ih]
  | escape hbyte _ ih => rw [formDecode_escape hbyte, ih]

def upperHexDigit (n : ℕ) : UInt8 := UInt8.ofNat (if n < 10 then 48 + n else 55 + n)

/-- Percent-encoding that leaves the bytes to keep as they are, `%` and `+` apart. -/
def percentEncode (keep : UInt8 → Bool) : Bytes → Bytes
  | [] => []
  | b :: bs =>
    if keep b = true ∧ b ≠ percent ∧ b ≠ plus then b :: percentEncode keep bs
    else
      percent :: upperHexDigit (b.toNat / 16) :: upperHexDigit (b.toNat % 16)
        :: percentEncode keep bs

theorem hexDigit_upperHexDigit {n : ℕ} (hn : n < 16) :
    hexDigit (latin1 (upperHexDigit n)) = some n := by
  rw [hexDigit_eq_some, toNat_latin1, upperHexDigit, UInt8.toNat_ofNat']
  split
  · omega
  · omega

theorem encodes_percentEncode (keep : UInt8 → Bool) (bytes : Bytes) :
    Encodes (percentEncode keep bytes) bytes := by
  induction bytes with
  | nil => exact .nil
  | cons b bytes ih =>
    have hb := b.toNat_lt
    rw [percentEncode]
    split
    · rename_i hkeep
      exact .keep hkeep.2.1 hkeep.2.2 ih
    · refine .escape (hexByteOf_eq_some.mpr ⟨_, _, hexDigit_upperHexDigit (by omega),
        hexDigit_upperHexDigit (by omega), ?_⟩) ih
      rw [Nat.div_add_mod, UInt8.ofNat_toNat]

end Foundations
