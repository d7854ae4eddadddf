import Pcos.Edge.PasswordAgreement

/-!
# Edge/PasswordHashes — what the edge stores, the backend accepts (`services/auth.ts`)

`hashPassword` derives 32 bytes with WebCrypto and writes salt and hash in hexadecimal.  The
backend reads them back and derives the same bytes with its own HMAC and PBKDF2.  These are the
specified ones for every key, salt, number of iterations and length (`pbkdf2_standard`), so **a user
of the edge can log in at the backend**.
-/

namespace Pcos.Edge.Accounts

open Foundations Hmac Passwords

/-! ## What is stored -/

/-- `toString(16).padStart(2, '0')` -/
def hexByte (b : UInt8) : List Char := (Nat.toDigits 16 b.toNat).leftpad 2 '0'

def hexText (bytes : Bytes) : List Char := bytes.flatMap hexByte

/-- Hash a password with a salt; `none` if it throws. -/
def hashPassword (sha : Sha256) (salt : Bytes) (password : String) : Option String :=
  (deriveBits sha password.toUTF8.toList salt (some 100000)).map fun derivedKey =>
    "pbkdf2$100000$" ++ String.ofList (hexText salt) ++ "$" ++ String.ofList (hexText derivedKey)

/-! ## What is read back -/

theorem hexByte_spec : ∀ n < 256, (hexByte (UInt8.ofNat n)).map hexValue =
    [some (n / 16), some (n % 16)] := by
  decide +kernel

/-- A byte is two digits. -/
theorem hexByte_eq (b : UInt8) : ∃ x y, hexByte b = [x, y] ∧
    hexValue x = some (b.toNat / 16) ∧ hexValue y = some (b.toNat % 16) := by
  have hspec := hexByte_spec b.toNat b.toNat_lt
  rw [UInt8.ofNat_toNat] at hspec
  obtain ⟨x, l, heq, hx, hrest⟩ := List.map_eq_cons_iff.mp hspec
  obtain ⟨y, l, rfl, hy, hnil⟩ := List.map_eq_cons_iff.mp hrest
  exact ⟨x, y, by rw [heq, List.map_eq_nil_iff.mp hnil], hx, hy⟩

theorem hexText_digits (bytes : Bytes) : ∀ c ∈ hexText bytes, (hexValue c).isSome = true := by
  intro c hc
  obtain ⟨b, -, hmem⟩ := List.mem_flatMap.mp hc
  obtain ⟨x, y, heq, hx, hy⟩ := hexByte_eq b
  rw [heq] at hmem
  rcases List.mem_pair.mp hmem with rfl | rfl
  · rw [hx, Option.isSome_some]
  · rw [hy, Option.isSome_some]

theorem length_hexText : ∀ bytes : Bytes, (hexText bytes).length = 2 * bytes.length
  | [] => rfl
  | b :: bytes => by
      obtain ⟨x, y, heq, -, -⟩ := hexByte_eq b
      rw [hexText, List.flatMap_cons, heq, List.length_append, ← hexText, length_hexText bytes]
      simp only [List.length_cons, List.length_nil]
      omega

/-- **Bytes are read back.** -/
theorem hexBytes_hexText : ∀ bytes : Bytes, hexBytes (hexText bytes) = bytes
  | [] => rfl
  | b :: bytes => by
      obtain ⟨x, y, heq, hx, hy⟩ := hexByte_eq b
      rw [hexText, List.flatMap_cons, heq, List.cons_append, List.cons_append, List.nil_append,
        hexBytes_pair hx hy, ← hexText, hexBytes_hexText bytes,
        show 16 * (b.toNat / 16) + b.toNat % 16 = b.toNat by omega, UInt8.ofNat_toNat]

/-- The stored hash of a salt and a derived key. -/
def StoredHash.ofBytes (salt hash : Bytes) : StoredHash where
  iterations := "100000".toList
  salt := hexText salt
  hash := hexText hash
  iterations_ne := by decide
  iterations_digits := forall_mem_of_all (by decide)
  salt_digits := hexText_digits salt
  hash_digits := hexText_digits hash

theorem StoredHash.count_ofBytes (salt hash : Bytes) : (ofBytes salt hash).count = 100000 := by
  rw [count, show (ofBytes salt hash).iterations = "100000".toList from rfl]
  decide

theorem StoredHash.salt_ofBytes (salt hash : Bytes) : hexBytes (ofBytes salt hash).salt = salt :=
  hexBytes_hexText salt

theorem StoredHash.hash_ofBytes (salt hash : Bytes) : hexBytes (ofBytes salt hash).hash = hash :=
  hexBytes_hexText hash

theorem StoredHash.isPaired_ofBytes (salt hash : Bytes) : (ofBytes salt hash).IsPaired :=
  ⟨⟨salt.length, (length_hexText salt).trans (two_mul _)⟩,
    ⟨hash.length, (length_hexText hash).trans (two_mul _)⟩⟩

section Stored

variable (sha : Sha256) (salt : Bytes) (password : String)

/-- The key that a password is hashed to. -/
def derivedKey : Bytes := pbkdf2 (prf sha password.toUTF8.toList) 32 salt 100000 32

theorem length_derivedKey : (derivedKey sha salt password).length = 32 :=
  length_pbkdf2 (length_prf sha _) (by decide) _ _ _

theorem hashPassword_eq : hashPassword sha salt password =
    some (StoredHash.ofBytes salt (derivedKey sha salt password)).text := by
  have hrange : (1 : ℤ) ≤ 100000 ∧ (100000 : ℤ) < 2 ^ 32 := by decide
  rw [hashPassword, deriveBits, if_pos hrange, Option.map_some, Option.some.injEq]
  ext1
  simp [StoredHash.text, StoredHash.ofBytes, derivedKey, List.intercalate_cons_cons,
    List.intercalate_singleton]

/-- What is read of the stored hash is derived again. -/
theorem derived_hashPassword :
    pbkdf2 (prf sha password.toUTF8.toList) 32
        (hexBytes (StoredHash.ofBytes salt (derivedKey sha salt password)).salt)
        (StoredHash.ofBytes salt (derivedKey sha salt password)).count 32 =
      hexBytes (StoredHash.ofBytes salt (derivedKey sha salt password)).hash := by
  rw [StoredHash.count_ofBytes, StoredHash.salt_ofBytes, StoredHash.hash_ofBytes, derivedKey]

/-- The edge takes its own hash. -/
theorem verifyPassword_hashPassword : ∃ stored, hashPassword sha salt password = some stored ∧
    verifyPassword sha password stored = some true := by
  refine ⟨_, hashPassword_eq sha salt password, ?_⟩
  rw [StoredHash.edge_answer, if_pos (by rw [StoredHash.count_ofBytes]; decide),
    decide_eq_true (derived_hashPassword sha salt password)]

/-- The backend takes it too. -/
theorem backend_hashPassword (argon2 : String → String → Except String Bool) :
    ∃ stored, hashPassword sha salt password = some stored ∧
      Passwords.verifyPassword sha argon2 password stored = .ok true := by
  have hlength :=
    congrArg List.length (StoredHash.hash_ofBytes salt (derivedKey sha salt password))
  rw [length_derivedKey] at hlength
  refine ⟨_, hashPassword_eq sha salt password, ?_⟩
  rw [StoredHash.backend_answer, hlength, decide_eq_true ⟨by rw [StoredHash.count_ofBytes]; decide,
    StoredHash.isPaired_ofBytes _ _, derived_hashPassword sha salt password⟩]

end Stored

/-- **The backend derives with HMAC and PBKDF2**, and takes what the edge stores of a password. -/
theorem pbkdf2_standard (sha : Sha256) :
    (∀ key data, hmacSha256 sha key data = hmac sha.digest 64 key data) ∧
    (∀ password salt iterations keyLen, pbkdf2HmacSha256 sha password salt iterations keyLen =
      pbkdf2 (hmac sha.digest 64 password) 32 salt iterations keyLen) ∧
    ∀ argon2 salt password, ∃ stored, hashPassword sha salt password = some stored ∧
      Passwords.verifyPassword sha argon2 password stored = .ok true :=
  ⟨hmacSha256_eq, fun _ _ => pbkdf2HmacSha256_eq,
    fun argon2 salt password => backend_hashPassword sha salt password argon2⟩

end Pcos.Edge.Accounts
