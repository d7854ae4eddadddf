import Pcos.Backend.Mnemonic
import Pcos.Edge.Accounts

/-!
# Edge/Recovery — recovery phrases and changes of the password (`index.ts`)

As in the backend, but a recovery reads the first unused key of the user, whatever its hash, and
compares afterwards.  Five failures from one address are followed by a pause.
-/

namespace Pcos.Edge.Accounts

open Foundations Mnemonic

/-! ## Tables -/

structure RecoveryKey where
  id : String
  userId : String
  recoveryHash : String
  hint : Option String
  isUsed : Bool
  createdAt : ℤ
  deriving DecidableEq

/-- The tables with the recovery keys. -/
structure Tables where
  worker : Worker
  keys : List RecoveryKey

/-- `UPDATE users SET password_hash = ?1 … WHERE id = ?3` -/
def Worker.setPassword (w : Worker) (user passwordHash : String) : Worker :=
  { w with
    users := w.users.map fun u => if u.id = user then { u with passwordHash := passwordHash } else u
    pk := by
      have hid : (w.users.map fun u =>
          if u.id = user then { u with passwordHash := passwordHash } else u).map User.id =
            w.users.map User.id := by
        rw [List.map_map]
        refine List.map_congr_left fun u _ => ?_
        rw [Function.comp_apply, apply_ite User.id]
        exact ite_self u.id
      exact hid ▸ w.pk }

/-- `UPDATE refresh_tokens SET revoked = 1 WHERE user_id = ?1` -/
def Worker.revokeAll (w : Worker) (user : String) : Worker := w.revoke fun r => r.userId = user

def Tables.setPassword (a : Tables) (user passwordHash : String) : Tables :=
  { a with worker := a.worker.setPassword user passwordHash }

def Tables.revokeAll (a : Tables) (user : String) : Tables :=
  { a with worker := a.worker.revokeAll user }

/-- `SELECT * FROM recovery_keys WHERE user_id = ?1 AND is_used = 0` -/
def Tables.unusedKey (a : Tables) (user : String) : Option RecoveryKey :=
  a.keys.find? fun k => k.userId = user && !k.isUsed

/-- `UPDATE recovery_keys SET is_used = 1 WHERE id = ?1` -/
def Tables.useKey (a : Tables) (id : String) : Tables :=
  { a with keys := a.keys.map fun k => if k.id = id then { k with isUsed := true } else k }

abbrev TablesHandler := EStateM Refusal Tables

/-- A handler of the worker, run here. -/
def inWorker {α : Type} (h : Handler α) : TablesHandler α := fun a =>
  match h a.worker with
  | .ok r w => .ok r { a with worker := w }
  | .error e w => .error e { a with worker := w }

def ofExcept {α σ : Type} (y : Except Refusal α) : EStateM Refusal σ α :=
  match y with
  | .ok a => pure a
  | .error e => throw e

/-! ## Phrases -/

/-- `split(/\s+/)`: of the empty pieces only those at the ends are there. -/
def splitSpaces (s : String) : List String :=
  match s.toList.splitOnP isSpace with
  | [] => []
  | [piece] => [String.ofList piece]
  | first :: rest =>
    ((first :: rest.dropLast.filter (· ≠ [])) ++ rest.getLast?.toList).map String.ofList

section Phrases

variable (L : WordList) (p : Platform)

/-- In lower case, without the space around it. -/
def normalize (text : String) : String := p.toLowerCase (trim isSpace text)

def generateBip39Mnemonic (entropy : Bytes) : String := phrase L p.sha256 entropy

def bip39Message : MnemonicError → String
  | .count => "Mnemonic phrase must consist of exactly 12 words"
  | .unknown word => "Word '" ++ word ++ "' is not in the official BIP-39 dictionary"
  | .checksum => "BIP-39 checksum verification failed: invalid or mistyped phrase"

def validateBip39Mnemonic (phrase : String) : Except String Unit :=
  (checkWords L p.sha256 (splitSpaces (normalize p phrase))).mapError bip39Message

def recoveryHash (normalized : String) : String := p.sha256 normalized.toUTF8.toList

end Phrases

/-! ## Passwords -/

/-- `text.length`, in UTF-16. -/
def jsLength (text : String) : ℕ :=
  (text.toList.map fun c => if 0x10000 ≤ c.toNat then 2 else 1).sum

structure ChangePasswordBody where
  currentPassword : Option String
  oldPassword : Option String
  newPassword : Option String

/-- What is checked before the password is changed, and the new password's hash. -/
def checkChange (p : Platform) (salt user : String) (body : ChangePasswordBody) (w : Worker) :
    Except Refusal String := do
  match truthy body.currentPassword <|> truthy body.oldPassword with
  | none => throw ⟨400, "Current password is required"⟩
  | some currentPass =>
    match (truthy body.newPassword).filter fun pass => 8 ≤ jsLength pass with
    | none => throw ⟨400, "New password must be at least 8 characters"⟩
    | some newPass =>
      match w.users.find? fun u => u.id = user with
      | none => throw ⟨404, "User not found"⟩
      | some row =>
        if p.verifyPassword currentPass row.passwordHash then pure (p.hashPassword salt newPass)
        else throw ⟨401, "Invalid current password"⟩

/-- `PUT /api/v1/users/me/password` -/
def changePassword (p : Platform) (salt user : String) (body : ChangePasswordBody) :
    TablesHandler Unit := do
  let a ← get
  let newHash ← ofExcept (checkChange p salt user body a.worker)
  modify fun a => a.setPassword user newHash
  modify fun a => a.revokeAll user

/-! ## Recovery -/

/-- The row of a new phrase. -/
def newKey (L : WordList) (p : Platform) (now : ℤ) (id : Uuid) (user : String) (entropy : Bytes) :
    RecoveryKey where
  id := "rec_" ++ id.text
  userId := user
  recoveryHash := recoveryHash p (normalize p (generateBip39Mnemonic L p entropy))
  hint := some "Official standard BIP-39 12-word mnemonic phrase"
  isUsed := false
  createdAt := now

/-- `POST /api/v1/auth/recovery/generate` -/
def generateRecoveryPhrase (L : WordList) (p : Platform) (now : ℤ) (id : Uuid) (user : String)
    (entropy : Bytes) : TablesHandler (String × String) := do
  let key := newKey L p now id user entropy
  let a ← get
  ensure (a.keys.all fun k => k.id ≠ key.id) thrown
  set { a with keys := a.keys ++ [key] }
  pure (generateBip39Mnemonic L p entropy, key.id)

structure VerifyRecoveryBody where
  email : Option String
  recoveryPhrase : Option String
  recoveryKey : Option String
  newPassword : Option String

/-- What is checked of the body itself: that nothing is missing, and the phrase if it has twelve
words; with its hash. -/
def checkRecovery (L : WordList) (p : Platform) (body : VerifyRecoveryBody) :
    Except Refusal (String × String × String) := do
  match truthy body.email, truthy body.recoveryPhrase <|> truthy body.recoveryKey,
      truthy body.newPassword with
  | some email, some input, some newPassword =>
    let inputPhrase := normalize p input
    if (splitSpaces inputPhrase).length = 12 then
      (validateBip39Mnemonic L p inputPhrase).mapError fun error => ⟨400, error⟩
    pure (email, recoveryHash p inputPhrase, newPassword)
  | _, _, _ => throw ⟨400, "email, recovery phrase/key, and new_password are required"⟩

/-- The key of the rate limit. -/
def recoveryLimit (clientIp : String) : String := "rec_" ++ clientIp

/-- The user to recover, with the phrase's hash and the new password. -/
def findRecovered (L : WordList) (p : Platform) (now : ℤ) (clientIp : String)
    (body : VerifyRecoveryBody) : Handler (String × String × String) := do
  checkRateLimit now (recoveryLimit clientIp)
  let (email, recHash, newPassword) ← ofExcept (checkRecovery L p body)
  let w ← get
  match w.users.find? fun u => u.email = normalize p email with
  | none =>
    recordFailedAttempt now (recoveryLimit clientIp) 5 300000
    throw ⟨404, "User not found"⟩
  | some user => pure (user.id, recHash, newPassword)

/-- The first unused key, if it has the hash, and the hash of the new password. -/
def findKey (p : Platform) (now : ℤ) (clientIp salt user recHash newPassword : String) :
    TablesHandler (String × String) := do
  let a ← get
  match (a.unusedKey user).filter fun k => k.recoveryHash = recHash with
  | none =>
    inWorker (recordFailedAttempt now (recoveryLimit clientIp) 5 300000)
    throw ⟨400, "Invalid or already consumed recovery phrase"⟩
  | some key => pure (key.id, p.hashPassword salt newPassword)

/-- `POST /api/v1/auth/recovery/verify` -/
def verifyRecoveryPhrase (L : WordList) (p : Platform) (now : ℤ) (clientIp salt : String)
    (body : VerifyRecoveryBody) : TablesHandler Unit := do
  let (user, recHash, newPassword) ← inWorker (findRecovered L p now clientIp body)
  let (key, newHash) ← findKey p now clientIp salt user recHash newPassword
  modify fun a => a.setPassword user newHash
  modify fun a => a.useKey key
  modify fun a => a.revokeAll user
  inWorker (recordSuccess (recoveryLimit clientIp))

end Pcos.Edge.Accounts
