import Pcos.Backend.Resumable
import Pcos.Foundations.Base64
import Pcos.Foundations.Text
import Pcos.Foundations.Writes

/-!
# Agent/ChunkWrites — the bytes of a chunk, and the file they are written to (`fs_handler.rs`)

The agent decodes base64 on its own: characters are taken in six bits at a time, and a byte is given
out as soon as there are eight; what is padded or left over is dropped.
-/

namespace Pcos.Agent

open Foundations

/-! ## Decoding -/

/-- The six bits of a character. -/
def sextet (ch : Char) : Option ℕ :=
  if 'A' ≤ ch ∧ ch ≤ 'Z' then some (ch.toNat - 'A'.toNat)
  else if 'a' ≤ ch ∧ ch ≤ 'z' then some (ch.toNat - 'a'.toNat + 26)
  else if '0' ≤ ch ∧ ch ≤ '9' then some (ch.toNat - '0'.toNat + 52)
  else if ch = '+' then some 62
  else if ch = '/' then some 63
  else none

/-- The loop of `base64_decode`, with its buffer of 32 bits. -/
def decodeLoop (buffer bits : ℕ) : List Char → Option Bytes
  | [] => some []
  | ch :: chars =>
    if ch = '=' then some []
    else
      match sextet ch with
      | none => if isWhiteSpace ch then decodeLoop buffer bits chars else none
      | some val =>
        let buffer := (buffer * 64 + val) % 2 ^ 32
        if 8 ≤ bits + 6 then
          (decodeLoop buffer (bits + 6 - 8) chars).map
            (UInt8.ofNat (buffer / 2 ^ (bits + 6 - 8) % 256) :: ·)
        else decodeLoop buffer (bits + 6) chars

def base64Decode (encoded : String) : Option Bytes :=
  decodeLoop 0 0 (trim isWhiteSpace encoded).toList

section Decode

theorem sextet_digit : ∀ n < 64, sextet (Base64.digit n) = some n := by decide +kernel

theorem isWhiteSpace_digit : ∀ n < 64, isWhiteSpace (Base64.digit n) = false := by decide +kernel

/-- One digit of the standard alphabet. -/
theorem decodeLoop_digit {n : ℕ} (hn : n < 64) (buffer bits : ℕ) (chars : List Char) :
    decodeLoop buffer bits (Base64.digit n :: chars) =
      if 8 ≤ bits + 6 then
        (decodeLoop ((buffer * 64 + n) % 2 ^ 32) (bits + 6 - 8) chars).map
          (UInt8.ofNat ((buffer * 64 + n) % 2 ^ 32 / 2 ^ (bits + 6 - 8) % 256) :: ·)
      else decodeLoop ((buffer * 64 + n) % 2 ^ 32) (bits + 6) chars := by
  rw [decodeLoop, if_neg (Base64.digit_ne_pad n hn), sextet_digit n hn]

theorem decodeLoop_pad (buffer bits : ℕ) (chars : List Char) :
    decodeLoop buffer bits ('=' :: chars) = some [] := by
  rw [decodeLoop, if_pos rfl]

/-- Whatever is left in the buffer, what was encoded is decoded. -/
theorem decodeLoop_encodeChars (data : Bytes) (buffer : ℕ) :
    decodeLoop buffer 0 (Base64.encodeChars data) = some data := by
  fun_induction Base64.encodeChars data generalizing buffer with
  | case1 a b c rest ih =>
    have ha := a.toNat_lt
    have hb := b.toNat_lt
    have hc := c.toNat_lt
    rw [decodeLoop_digit (by omega), if_neg (by omega), decodeLoop_digit (by omega),
      if_pos (by omega), decodeLoop_digit (by omega), if_pos (by omega), decodeLoop_digit (by omega),
      if_pos (by omega), ih]
    simp only [Option.map_some]
    rw [Base64.ofNat_eq (a := a) (by omega), Base64.ofNat_eq (a := b) (by omega),
      Base64.ofNat_eq (a := c) (by omega)]
  | case2 a b =>
    have ha := a.toNat_lt
    have hb := b.toNat_lt
    rw [decodeLoop_digit (by omega), if_neg (by omega), decodeLoop_digit (by omega),
      if_pos (by omega), decodeLoop_digit (by omega), if_pos (by omega), decodeLoop_pad]
    simp only [Option.map_some]
    rw [Base64.ofNat_eq (a := a) (by omega), Base64.ofNat_eq (a := b) (by omega)]
  | case3 a =>
    have ha := a.toNat_lt
    rw [decodeLoop_digit (by omega), if_neg (by omega), decodeLoop_digit (by omega),
      if_pos (by omega), decodeLoop_pad, Option.map_some, Base64.ofNat_eq (a := a) (by omega)]
  | case4 => rfl

theorem isWhiteSpace_encodeChars (data : Bytes) :
    ∀ c ∈ Base64.encodeChars data, isWhiteSpace c = false := by
  have hpad : isWhiteSpace '=' = false := by decide
  fun_induction Base64.encodeChars data with
  | case1 a b c rest ih =>
    have ha := a.toNat_lt
    have hb := b.toNat_lt
    have hc := c.toNat_lt
    simp only [List.forall_mem_cons]
    exact ⟨isWhiteSpace_digit _ (by omega), isWhiteSpace_digit _ (by omega),
      isWhiteSpace_digit _ (by omega), isWhiteSpace_digit _ (by omega), ih⟩
  | case2 a b =>
    have ha := a.toNat_lt
    have hb := b.toNat_lt
    simp only [List.forall_mem_cons]
    exact ⟨isWhiteSpace_digit _ (by omega), isWhiteSpace_digit _ (by omega),
      isWhiteSpace_digit _ (by omega), hpad, List.forall_mem_nil _⟩
  | case3 a =>
    have ha := a.toNat_lt
    simp only [List.forall_mem_cons]
    exact ⟨isWhiteSpace_digit _ (by omega), isWhiteSpace_digit _ (by omega), hpad, hpad,
      List.forall_mem_nil _⟩
  | case4 => exact List.forall_mem_nil _

/-- **What is sent in base64 is what is written.** -/
theorem base64Decode_encode (data : Bytes) : base64Decode (Base64.encode data) = some data := by
  have hchars : ∀ c ∈ (Base64.encode data).toList, isWhiteSpace c = false := by
    rw [Base64.encode, String.toList_ofList]
    exact isWhiteSpace_encodeChars data
  rw [base64Decode, trim_eq_self hchars, Base64.encode, String.toList_ofList,
    decodeLoop_encodeChars]

end Decode

/-! ## Writing -/

/-- How a write ends: as it should, with an error after so many bytes, or before the file is opened. -/
inductive Fate
  | done
  | fails (after : ℕ)
  | unopened
  deriving DecidableEq

/-- The bytes that were written. -/
def Fate.bytes (data : Bytes) : Fate → Bytes
  | .done => data
  | .fails after => data.take after
  | .unopened => []

/-- `write_chunk`, at the path it resolved: a file that is not there is created, and none is
truncated. -/
def writeChunk (file : Option Bytes) (offset : ℕ) (data : Bytes) (fate : Fate) : Option Bytes :=
  match fate with
  | .unopened => file
  | fate => some (writeAt 0 (file.getD []) offset (fate.bytes data))

theorem getD_writeChunk (file : Option Bytes) (offset : ℕ) (data : Bytes) (fate : Fate) :
    (writeChunk file offset data fate).getD [] = writeAt 0 (file.getD []) offset (fate.bytes data) := by
  cases fate with
  | done => rfl
  | fails after => rfl
  | unopened => exact writeAt_nil.symm

/-- What was written of a piece is one. -/
theorem Fate.piece {content data : Bytes} {offset : ℕ} (h : Piece content (offset, data))
    (fate : Fate) : Piece content (offset, fate.bytes data) := by
  cases fate with
  | done => exact h
  | fails after => exact h.take after
  | unopened => exact fun i hi => absurd hi (Nat.not_lt_zero i)

end Pcos.Agent
