import Pcos.Backend.Auth
import Pcos.Backend.Mnemonic

/-!
# Backend/Recovery — recovery phrases and changes of the password (`recovery.rs`, `user/service.rs`)

A phrase of twelve words resets the password of an account, once.  The table has its hash, and whether
it is used.  A reset and a change of the password both end by revoking the account's refresh tokens.
-/

namespace Pcos.Auth

open Foundations Mnemonic

deriving instance DecidableEq for Call

/-! ## Tables -/

/-- A row of `recovery_keys`. -/
structure RecoveryKey where
  id : String
  userId : Uuid
  recoveryHash : String
  hint : Option String
  isUsed : Bool
  createdAt : ℤ
  deriving DecidableEq

/-- The tables with the recovery keys. -/
structure Accounts where
  db : AuthDb
  keys : List RecoveryKey

/-- `UPDATE users SET password_hash = $1, updated_at = NOW() WHERE id = $2`. -/
def AuthDb.setPassword (db : AuthDb) (user : Uuid) (passwordHash : String) (now : ℤ) : AuthDb :=
  { db with
    users := db.users.map fun u =>
      if u.id = user then { u with passwordHash := passwordHash, updatedAt := now } else u
    pk := by
      have hid : (db.users.map fun u =>
          if u.id = user then { u with passwordHash := passwordHash, updatedAt := now } else u).map
            User.id = db.users.map User.id := by
        rw [List.map_map]
        refine List.map_congr_left fun u _ => ?_
        rw [Function.comp_apply, apply_ite User.id]
        exact ite_self u.id
      exact hid ▸ db.pk }

/-- `UPDATE refresh_tokens SET revoked = true WHERE user_id = $1`. -/
def AuthDb.revokeAll (db : AuthDb) (user : Uuid) : AuthDb := db.revoke fun r => r.userId = user

def Accounts.setPassword (a : Accounts) (user : Uuid) (passwordHash : String) (now : ℤ) : Accounts :=
  { a with db := a.db.setPassword user passwordHash now }

def Accounts.revokeAll (a : Accounts) (user : Uuid) : Accounts := { a with db := a.db.revokeAll user }

/-- `SELECT id FROM recovery_keys WHERE user_id = $1 AND recovery_hash = $2 AND is_used = false`. -/
def Accounts.unusedKey (a : Accounts) (user : Uuid) (hash : String) : Option RecoveryKey :=
  a.keys.find? fun k => k.userId = user && k.recoveryHash = hash && !k.isUsed

/-- `UPDATE recovery_keys SET is_used = true WHERE id = $1`. -/
def Accounts.useKey (a : Accounts) (id : String) : Accounts :=
  { a with keys := a.keys.map fun k => if k.id = id then { k with isUsed := true } else k }

abbrev AccountHandler := EStateM AppError Accounts

def ofExcept {α : Type} (y : Except AppError α) : AccountHandler α :=
  match y with
  | .ok a => pure a
  | .error e => throw e

@[simp] theorem wp_ofExcept {α : Type} {y : Except AppError α} {Q : α → Accounts → Prop}
    {E : AppError → Accounts → Prop} {a : Accounts} :
    wp (ofExcept y) Q E a ↔ (∀ r, y = .ok r → Q r a) ∧ ∀ e, y = .error e → E e a := by
  cases y <;> simp [ofExcept]

/-! ## Phrases -/

/-- `split_whitespace`. -/
def splitWhitespace (s : String) : List String :=
  ((s.toList.splitOnP isWhiteSpace).filter (· ≠ [])).map String.ofList

section Phrases

variable (L : WordList) (x : Crates)

/-- The SHA-256 of a phrase in lower case, without the space around it. -/
def hashPhrase (phrase : String) : String :=
  x.sha256 (x.toLowercase (trim isWhiteSpace phrase)).toUTF8.toList

/-- Generate a phrase of 128 random bits. -/
def generateBip39Phrase (entropy : Bytes) : String := phrase L x.sha256 entropy

def bip39Message : MnemonicError → String
  | .count => "Mnemonic phrase must consist of exactly 12 words"
  | .unknown _ => "Unknown word in BIP-39 mnemonic phrase"
  | .checksum => "BIP-39 checksum verification failed: invalid or mistyped recovery phrase"

def validateBip39Phrase (phrase : String) : Except String Unit :=
  (checkWords L x.sha256 ((splitWhitespace phrase).map x.toLowercase)).mapError bip39Message

end Phrases

/-! ## Passwords -/

/-- `char::is_uppercase` and `char::is_lowercase`. -/
structure Cases where
  isUppercase : Char → Bool
  isLowercase : Char → Bool

/-- Validate that a password is strong enough (`common/src/auth/validation.rs`). -/
def validatePassword (u : Cases) (password : String) : Except AppError Unit :=
  if password.utf8ByteSize < 8 then
    .error (.validation "Password must be at least 8 characters")
  else if 128 < password.utf8ByteSize then
    .error (.validation "Password must be at most 128 characters")
  else if ¬ password.toList.any u.isUppercase then
    .error (.validation "Password must contain at least one uppercase letter")
  else if ¬ password.toList.any u.isLowercase then
    .error (.validation "Password must contain at least one lowercase letter")
  else if ¬ password.toList.any Char.isDigit then
    .error (.validation "Password must contain at least one digit")
  else .ok ()

/-- The hash of a new password. -/
def hashNewPassword (x : Crates) (salt password : String) : Except AppError String :=
  (x.hashPassword salt password).mapError fun e => .internal ("Password hashing failed: " ++ e)

structure ChangePasswordRequest where
  currentPassword : Option String
  oldPassword : Option String
  newPassword : String

/-- What is checked before the password is changed, and the new password's hash. -/
def checkChange (x : Crates) (salt : String) (user : Uuid) (req : ChangePasswordRequest) (db : AuthDb) :
    Except AppError String := do
  if req.newPassword.length < 8 ∨ 128 < req.newPassword.length then
    throw (.validation "new_password: New password must be 8-128 characters")
  match req.currentPassword <|> req.oldPassword with
  | none => throw (.validation "Current password is required")
  | some current =>
    match db.users.find? fun u => u.id = user with
    | none => throw (.notFound "User not found")
    | some row =>
      match x.verifyPassword current row.passwordHash with
      | .error e => throw (.internal ("Password verification failed: " ++ e))
      | .ok false => throw (.unauthorized "Invalid current password")
      | .ok true => hashNewPassword x salt req.newPassword

/-- Change the password of an account (`user/src/service.rs`). -/
def changePassword (x : Crates) (now : ℤ) (salt : String) (user : Uuid) (req : ChangePasswordRequest) :
    AccountHandler Unit := do
  let a ← get
  let newHash ← ofExcept (checkChange x salt user req a.db)
  modify fun a => a.setPassword user newHash now
  modify fun a => a.revokeAll user

/-! ## Recovery -/

/-- The row of a new phrase. -/
def newKey (L : WordList) (x : Crates) (now : ℤ) (id : Uuid) (user : Uuid) (entropy : Bytes) :
    RecoveryKey where
  id := "rec_" ++ id.text
  userId := user
  recoveryHash := hashPhrase x (generateBip39Phrase L x entropy)
  hint := some "Official standard BIP-39 12-word mnemonic phrase"
  isUsed := false
  createdAt := now

/-- Generate a phrase; what is answered is the phrase and the id of its row. -/
def generateRecoveryPhrase (L : WordList) (x : Crates) (now : ℤ) (id : Uuid) (user : Uuid)
    (entropy : Bytes) : AccountHandler (String × String) := do
  let key := newKey L x now id user entropy
  let a ← get
  ensure (a.keys.all fun k => k.id ≠ key.id) .database
  set { a with keys := a.keys ++ [key] }
  pure (generateBip39Phrase L x entropy, key.id)

structure VerifyRecoveryRequest where
  email : String
  recoveryPhrase : Option String
  recoveryKey : Option String
  newPassword : String

/-- What is checked of the request itself: the password, the phrase if it has twelve words, and what
it hashes to. -/
def checkRecovery (L : WordList) (x : Crates) (u : Cases) (req : VerifyRecoveryRequest) :
    Except AppError String := do
  validatePassword u req.newPassword
  match req.recoveryPhrase <|> req.recoveryKey with
  | none => throw (.validation "recovery_phrase or recovery_key required")
  | some inputPhrase =>
    if (splitWhitespace inputPhrase).length = 12 then
      (validateBip39Phrase L x inputPhrase).mapError .validation
    pure (hashPhrase x inputPhrase)

/-- `SELECT id FROM users WHERE email = $1`. -/
def findRecovered (x : Crates) (req : VerifyRecoveryRequest) (a : Accounts) : Except AppError Uuid :=
  match a.db.users.find? fun u => u.email = x.toLowercase (trim isWhiteSpace req.email) with
  | some user => .ok user.id
  | none => .error (.notFound "User not found")

/-- The unused key, and the hash of the new password. -/
def findKey (x : Crates) (salt : String) (user : Uuid) (hash newPassword : String) (a : Accounts) :
    Except AppError (String × String) :=
  match a.unusedKey user hash with
  | none => .error (.unauthorized "Invalid or already consumed recovery phrase")
  | some key => (hashNewPassword x salt newPassword).map fun newHash => (key.id, newHash)

/-- Reset a password with a phrase. -/
def verifyRecoveryPhrase (L : WordList) (x : Crates) (u : Cases) (now : ℤ) (salt : String)
    (req : VerifyRecoveryRequest) : AccountHandler Unit := do
  let hash ← ofExcept (checkRecovery L x u req)
  let a ← get
  let user ← ofExcept (findRecovered x req a)
  let (key, newHash) ← ofExcept (findKey x salt user hash req.newPassword a)
  modify fun a => a.setPassword user newHash now
  modify fun a => a.useKey key
  modify fun a => a.revokeAll user

end Pcos.Auth
