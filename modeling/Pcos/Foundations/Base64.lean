import Mathlib.Data.List.Basic
import Pcos.Foundations.Digest

/-!
# Foundations/Base64 — the standard alphabet, padded and canonical

Three bytes are four digits of six bits; one or two bytes at the end are padded with `=`, and their
spare bits have to be zero.  `decode_encode` is the round trip.
-/

namespace Foundations.Base64

/-- The standard alphabet. -/
def alphabet : List Char :=
  "ABCDEFGHIJKLMNOPQRSTUVWXYZabcdefghijklmnopqrstuvwxyz0123456789+/".toList

def digit (n : ℕ) : Char := alphabet.getD n 'A'

def value (c : Char) : Option ℕ := alphabet.findIdx? fun d => d = c

theorem value_digit : ∀ n < 64, value (digit n) = some n := by decide

theorem digit_ne_pad : ∀ n < 64, digit n ≠ '=' := by decide +kernel

def encodeChars : Bytes → List Char
  | a :: b :: c :: rest =>
    digit (a.toNat / 4) :: digit (a.toNat % 4 * 16 + b.toNat / 16)
      :: digit (b.toNat % 16 * 4 + c.toNat / 64) :: digit (c.toNat % 64) :: encodeChars rest
  | [a, b] =>
    [digit (a.toNat / 4), digit (a.toNat % 4 * 16 + b.toNat / 16), digit (b.toNat % 16 * 4), '=']
  | [a] => [digit (a.toNat / 4), digit (a.toNat % 4 * 16), '=', '=']
  | [] => []

def decodeChars : List Char → Option Bytes
  | [] => some []
  | w :: x :: y :: z :: rest => do
    let a ← value w
    let b ← value x
    if y = '=' then
      if z = '=' ∧ rest = [] ∧ b % 16 = 0 then some [UInt8.ofNat (a * 4 + b / 16)] else none
    else
      let c ← value y
      if z = '=' then
        if rest = [] ∧ c % 4 = 0 then
          some [UInt8.ofNat (a * 4 + b / 16), UInt8.ofNat (b % 16 * 16 + c / 4)]
        else none
      else
        let d ← value z
        let bytes ← decodeChars rest
        some (UInt8.ofNat (a * 4 + b / 16) :: UInt8.ofNat (b % 16 * 16 + c / 4)
          :: UInt8.ofNat (c % 4 * 64 + d) :: bytes)
  | _ => none

/-- A byte is put together from what it was cut into. -/
theorem ofNat_eq {a : UInt8} {n : ℕ} (h : n = a.toNat) : UInt8.ofNat n = a := by
  rw [h, UInt8.ofNat_toNat]

/-- **What is encoded decodes to itself.** -/
theorem decodeChars_encodeChars (data : Bytes) : decodeChars (encodeChars data) = some data := by
  fun_induction encodeChars data with
  | case1 a b c rest ih =>
    have ha := a.toNat_lt
    have hb := b.toNat_lt
    have hc := c.toNat_lt
    rw [decodeChars, value_digit _ (by omega), value_digit _ (by omega)]
    simp only [Option.bind_eq_bind, Option.bind_some]
    rw [if_neg (digit_ne_pad _ (by omega)), value_digit _ (by omega)]
    simp only [Option.bind_some]
    rw [if_neg (digit_ne_pad _ (by omega)), value_digit _ (by omega), ih]
    simp only [Option.bind_some]
    rw [ofNat_eq (a := a) (by omega), ofNat_eq (a := b) (by omega), ofNat_eq (a := c) (by omega)]
  | case2 a b =>
    have ha := a.toNat_lt
    have hb := b.toNat_lt
    rw [decodeChars, value_digit _ (by omega), value_digit _ (by omega)]
    simp only [Option.bind_eq_bind, Option.bind_some]
    rw [if_neg (digit_ne_pad _ (by omega)), value_digit _ (by omega)]
    simp only [Option.bind_some, if_true]
    rw [if_pos ⟨trivial, by omega⟩, ofNat_eq (a := a) (by omega), ofNat_eq (a := b) (by omega)]
  | case3 a =>
    have ha := a.toNat_lt
    rw [decodeChars, value_digit _ (by omega), value_digit _ (by omega)]
    simp only [Option.bind_eq_bind, Option.bind_some, if_true]
    rw [if_pos ⟨trivial, trivial, by omega⟩, ofNat_eq (a := a) (by omega)]
  | case4 => rfl

def encode (data : Bytes) : String := String.ofList (encodeChars data)

def decode (text : String) : Option Bytes := decodeChars text.toList

theorem decode_encode (data : Bytes) : decode (encode data) = some data := by
  rw [decode, encode, String.toList_ofList, decodeChars_encodeChars]

/-- "YQ==" is the encoding of "a"; with a spare bit set it is none. -/
example : encode [0x61] = "YQ==" ∧ decode "YQ==" = some [0x61] ∧ decode "YR==" = none := by
  decide

end Foundations.Base64
