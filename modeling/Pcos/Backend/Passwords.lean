import Pcos.Foundations.Hmac
import Pcos.Foundations.Text

/-!
# Backend/Passwords — what the backend verifies passwords with (`common/src/auth/password.rs`)

Hashes that start with `pbkdf2$` come from the edge, and the backend derives them with loops of its
own.  They compute HMAC and PBKDF2 as they are specified (`pbkdf2HmacSha256_eq`), to the length of
the hash that is stored.
-/

namespace Pcos.Passwords

open Foundations Hmac

/-- SHA-256. -/
structure Sha256 where
  digest : Bytes → Bytes
  length_digest : ∀ data, (digest data).length = 32

/-! ## Parsing -/

def hexAlphabet : List Char := "0123456789abcdef".toList

/-- The value of a digit, in either case. -/
def hexValue (c : Char) : Option ℕ := hexAlphabet.idxOf? c.toLower

/-- `hex::decode` -/
def hexDecode : List Char → Option Bytes
  | [] => some []
  | [_] => none
  | a :: b :: rest => do
    let x ← hexValue a
    let y ← hexValue b
    let bytes ← hexDecode rest
    some (UInt8.ofNat (16 * x + y) :: bytes)

/-- A number may have a sign. -/
def stripPlus : List Char → List Char
  | '+' :: rest => rest
  | s => s

/-- `parse::<u32>` -/
def parseU32 (s : List Char) : Option ℕ :=
  let digits := stripPlus s
  if digits ≠ [] ∧ digits.all Char.isDigit ∧ Nat.ofDigitChars 10 digits 0 < 2 ^ 32 then
    some (Nat.ofDigitChars 10 digits 0)
  else none

/-! ## The functions -/

section Functions

variable (sha : Sha256)

def hmacSha256 (key data : Bytes) : Bytes :=
  let k := if 64 < key.length then sha.digest key else key
  let k := k ++ List.replicate (64 - k.length) 0
  let innerHash := sha.digest (k.map (0x36 ^^^ ·) ++ data)
  sha.digest (k.map (0x5c ^^^ ·) ++ innerHash)

/-- `for _ in 1..iterations`, on `u` and `t`. -/
def iterationLoop (password : Bytes) : ℕ → Bytes × Bytes → Bytes × Bytes
  | 0, ut => ut
  | k + 1, (u, t) =>
    let u := hmacSha256 sha password u
    iterationLoop password k (u, List.zipWith (· ^^^ ·) t u)

def deriveBlock (password salt : Bytes) (iterations blockIndex : ℕ) : Bytes :=
  let u := hmacSha256 sha password (salt ++ bigEndian 4 blockIndex)
  (iterationLoop sha password (iterations - 1) (u, u)).2

theorem length_hmacSha256 (key data : Bytes) : (hmacSha256 sha key data).length = 32 :=
  sha.length_digest _

theorem length_iterationLoop (password : Bytes) (k : ℕ) {u t : Bytes} (ht : t.length = 32) :
    (iterationLoop sha password k (u, t)).2.length = 32 := by
  induction k generalizing u t with
  | zero => exact ht
  | succ k ih =>
    refine ih ?_
    rw [List.length_zipWith, ht, length_hmacSha256]
    rfl

theorem length_deriveBlock (password salt : Bytes) (iterations blockIndex : ℕ) :
    (deriveBlock sha password salt iterations blockIndex).length = 32 :=
  length_iterationLoop sha password _ (length_hmacSha256 ..)

/-- `while out.len() < key_len` -/
def blockLoop (password salt : Bytes) (iterations keyLen : ℕ) (out : Bytes) (blockIndex : ℕ) :
    Bytes :=
  if out.length < keyLen then
    let t := deriveBlock sha password salt iterations blockIndex
    let needed := min (keyLen - out.length) 32
    blockLoop password salt iterations keyLen (out ++ t.take needed) ((blockIndex + 1) % 2 ^ 32)
  else out
termination_by keyLen - out.length
decreasing_by
  rw [List.length_append, List.length_take, length_deriveBlock]
  omega

def pbkdf2HmacSha256 (password salt : Bytes) (iterations keyLen : ℕ) : Bytes :=
  blockLoop sha password salt iterations keyLen [] 1

/-- Verify standard PBKDF2-HMAC-SHA256 password hash. -/
def verifyPbkdf2 (password storedHash : String) : Bool :=
  match storedHash.toList.splitOnP (· = '$') with
  | [scheme, iterations, salt, expectedHash] =>
    if scheme ≠ "pbkdf2".toList then false
    else
      match parseU32 iterations, hexDecode salt, hexDecode expectedHash with
      | some iterations, some salt, some expectedHash =>
        let derived :=
          pbkdf2HmacSha256 sha password.toUTF8.toList salt iterations expectedHash.length
        derived.length = expectedHash.length && difference derived expectedHash = 0
      | _, _, _ => false
  | _ => false

/-- Verify a plaintext password against a stored hash (supports both Argon2id and PBKDF2). -/
def verifyPassword (argon2 : String → String → Except String Bool) (password hash : String) :
    Except String Bool :=
  if "pbkdf2$".toList.isPrefixOf hash.toList then .ok (verifyPbkdf2 sha password hash)
  else argon2 password hash

end Functions

/-! ## The loops derive what they should -/

variable {sha : Sha256} {password salt : Bytes}

/-- The key that a password is for. -/
abbrev prf (sha : Sha256) (password : Bytes) : Bytes → Bytes := hmac sha.digest 64 password

theorem hmacSha256_eq (key data : Bytes) : hmacSha256 sha key data = prf sha key data := by
  have hxor (n : UInt8) : (fun b => n ^^^ b) = (· ^^^ n) := funext fun b => UInt8.xor_comm n b
  rw [hmacSha256, hxor, hxor]
  rfl

theorem length_prf (sha : Sha256) (password data : Bytes) : (prf sha password data).length = 32 :=
  sha.length_digest _

/-- **The inner loop** goes through the iterates. -/
theorem iterationLoop_eq (u : Bytes) (j k : ℕ) :
    iterationLoop sha password k ((prf sha password)^[j] u, xorred (prf sha password) u j)
      = ((prf sha password)^[j + k] u, xorred (prf sha password) u (j + k)) := by
  induction k generalizing j with
  | zero => rfl
  | succ k ih =>
    rw [iterationLoop, hmacSha256_eq, ← Function.iterate_succ_apply' (prf sha password), ← xorred, ih]
    rw [show j + 1 + k = j + (k + 1) by omega]

theorem deriveBlock_eq (iterations blockIndex : ℕ) :
    deriveBlock sha password salt iterations blockIndex
      = block (prf sha password) salt iterations blockIndex := by
  rw [deriveBlock, hmacSha256_eq]
  have hloop := @iterationLoop_eq sha password
    (prf sha password (salt ++ bigEndian 4 blockIndex)) 0 (iterations - 1)
  rw [Nat.zero_add] at hloop
  exact congrArg Prod.snd hloop

/-- An index counts modulo 2³². -/
theorem block_mod (iterations n : ℕ) :
    block (prf sha password) salt iterations (n % 2 ^ 32)
      = block (prf sha password) salt iterations n := by
  rw [block, block, show (2 : ℕ) ^ 32 = 2 ^ (8 * 4) from rfl, bigEndian_mod]

/-- **The outer loop** appends the blocks that are missing. -/
theorem blockLoop_eq {iterations keyLen : ℕ} (m : ℕ) {out : Bytes} {index : ℕ}
    (hm : keyLen - out.length ≤ 32 * m) :
    blockLoop sha password salt iterations keyLen out index = out ++ ((List.range m).flatMap fun i =>
      block (prf sha password) salt iterations (index + i)).take (keyLen - out.length) := by
  induction m generalizing out index with
  | zero =>
    rw [blockLoop, if_neg (by omega), Nat.le_zero.mp hm, List.take_zero, List.append_nil]
  | succ m ih =>
    rw [blockLoop]
    split
    · rename_i hroom
      have ht := length_deriveBlock sha password salt iterations index
      have hindex (i : ℕ) : block (prf sha password) salt iterations ((index + 1) % 2 ^ 32 + i)
          = block (prf sha password) salt iterations (index + (i + 1)) := by
        rw [← block_mod, Nat.mod_add_mod, block_mod, Nat.add_right_comm, Nat.add_assoc]
      dsimp only
      rw [ih (by rw [List.length_append, List.length_take, ht]; omega), List.range_succ_eq_map,
        List.flatMap_cons, List.flatMap_map, Nat.add_zero index, ← deriveBlock_eq, List.take_append, ht,
        List.append_assoc, List.length_append, List.length_take, ht]
      simp only [hindex]
      have htake : (deriveBlock sha password salt iterations index).take
            (min (keyLen - out.length) 32)
          = (deriveBlock sha password salt iterations index).take (keyLen - out.length) := by
        conv_lhs => rw [← ht]
        exact List.take_eq_take_min.symm
      rw [htake, show keyLen - (out.length + min (min (keyLen - out.length) 32) 32)
        = keyLen - out.length - 32 by omega]
    · rename_i hfull
      rw [Nat.sub_eq_zero_of_le (not_lt.mp hfull), List.take_zero, List.append_nil]

theorem pbkdf2HmacSha256_eq (iterations keyLen : ℕ) :
    pbkdf2HmacSha256 sha password salt iterations keyLen
      = pbkdf2 (prf sha password) 32 salt iterations keyLen := by
  rw [pbkdf2HmacSha256, blockLoop_eq (keyLen / 32 + 1) (by rw [List.length_nil]; omega),
    List.nil_append, List.length_nil, Nat.sub_zero, pbkdf2]
  simp only [Nat.add_comm 1]

end Pcos.Passwords
