import Pcos.Backend.System
import Pcos.Foundations.Json
import Pcos.Foundations.Text

/-!
# Backend/Auth — accounts, tokens and the second factor (`auth`, `common/src/auth`, `streaming`)

Three kinds of tokens are signed with one secret.  Access and refresh tokens have the same claims; a
refresh token is told apart by its hash, which `refresh_tokens` has.  A playback token has claims of
its own and says so.

`login` asks for the second factor if a query of its own finds one.  Its queries can fail one by one
(`Faults`).
-/

namespace Pcos.Auth

open Foundations

/-! ## Time-based codes (`mfa.rs`) -/

/-- The alphabet of RFC 4648. -/
def base32Alphabet : List Char := "ABCDEFGHIJKLMNOPQRSTUVWXYZ234567".toList

/-- `position(|&b| b == c.to_ascii_uppercase() as u8)`. -/
def base32Index (c : Char) : Option ℕ :=
  base32Alphabet.findIdx? fun b => b.toNat = c.toUpper.toNat % 256

/-- The loop of `base32_decode`, on a buffer of 64 bits. -/
def base32DecodeLoop : List Char → ℕ → ℕ → Bytes → Option Bytes
  | [], _, _, result => some result
  | c :: cs, buffer, bits, result =>
    match base32Index c with
    | none => none
    | some val =>
      let buffer := (buffer * 32 + val) % 2 ^ 64
      if 8 ≤ bits + 5 then
        base32DecodeLoop cs buffer (bits + 5 - 8)
          (result ++ [UInt8.ofNat (buffer / 2 ^ (bits + 5 - 8))])
      else base32DecodeLoop cs buffer (bits + 5) result

def base32Decode (s : String) : Option Bytes := base32DecodeLoop s.toList 0 0 []

/-- The key, filled up to a block. -/
def hmacKey (sha1 : Bytes → Bytes) (key : Bytes) : Bytes :=
  let k := if 64 < key.length then sha1 key else key
  k ++ List.replicate (64 - k.length) 0

def hmacSha1 (sha1 : Bytes → Bytes) (key msg : Bytes) : Bytes :=
  sha1 ((hmacKey sha1 key).map (· ^^^ 0x5c) ++ sha1 ((hmacKey sha1 key).map (· ^^^ 0x36) ++ msg))

/-- `to_be_bytes` of 64 bits. -/
def beBytes (n : ℕ) : Bytes := (List.range 8).map fun i => UInt8.ofNat (n / 256 ^ (7 - i))

/-- `{:06}`. -/
def sixDigits (n : ℕ) : String :=
  String.ofList (List.replicate (6 - (toString n).length) '0' ++ (toString n).toList)

/-- Compute the TOTP value for a secret at a time step. -/
def computeTotp (sha1 : Bytes → Bytes) (secret : String) (timeStep : ℕ) : Option String :=
  (base32Decode secret).map fun key =>
    let hash := hmacSha1 sha1 key (beBytes timeStep)
    let offset := (hash.getD 19 0).toNat % 16
    let byte := fun i => (hash.getD (offset + i) 0).toNat
    sixDigits ((byte 0 % 128 * 2 ^ 24 + byte 1 * 2 ^ 16 + byte 2 * 2 ^ 8 + byte 3) % 1000000)

/-- The code is that of this step or of a neighbour. -/
def verifyTotp (sha1 : Bytes → Bytes) (step : ℕ) (secret code : String) : Bool :=
  [0, -1, 1].any fun offset : ℤ =>
    computeTotp sha1 secret (((step + offset) % 2 ^ 64).toNat) = some code

/-! ## Errors and configuration -/

/-- The errors of these handlers (`common/src/error.rs`), and a panic. -/
inductive AppError
  | notFound (message : String)
  | unauthorized (message : String)
  | validation (message : String)
  | conflict (message : String)
  | internal (message : String)
  | database
  | jwt
  | panicked
  deriving DecidableEq, Repr

structure AuthConfig where
  jwtSecret : String
  accessTokenExpirySecs : ℤ
  refreshTokenExpirySecs : ℤ

/-- What these handlers take from other crates: `Uuid::parse_str`, Unicode's lower case, SHA-1 and
SHA-256, the passwords' hashes by their salts, and the signatures of JSON Web Tokens.  A password
verifies with its hash; what is signed with a secret is read back with it. -/
structure Crates where
  parseUuid : String → Option Uuid
  parseUuid_text : ∀ id : Uuid, parseUuid id.text = some id
  toLowercase : String → String
  sha1 : Bytes → Bytes
  sha256 : Bytes → String
  hashPassword : String → String → Except String String
  verifyPassword : String → String → Except String Bool
  verify_hash : ∀ salt password hash, hashPassword salt password = .ok hash →
    verifyPassword password hash = .ok true
  sign : JsonObject → String → Option String
  verified : String → String → Option JsonObject
  verified_sign : ∀ claims secret token, sign claims secret = some token →
    verified token secret = some claims

/-! ## Tokens (`jwt.rs`, `streaming/src/service.rs`) -/

/-- The claims of access tokens, and of refresh tokens. -/
structure Claims where
  sub : Uuid
  email : String
  iat : ℤ
  exp : ℤ
  jti : Uuid
  deriving DecidableEq

def Claims.toJson (c : Claims) : JsonObject :=
  [("sub", .string c.sub.text), ("email", .string c.email), ("iat", .number c.iat),
    ("exp", .number c.exp), ("jti", .string c.jti.text)]

structure PlaybackClaims where
  sub : Uuid
  fileId : Uuid
  deviceId : Option Uuid
  exp : ℤ
  typ : String
  deriving DecidableEq

def PlaybackClaims.toJson (c : PlaybackClaims) : JsonObject :=
  [("sub", .string c.sub.text), ("file_id", .string c.fileId.text),
    ("device_id", c.deviceId.elim .null fun id => .string id.text), ("exp", .number c.exp),
    ("typ", .string c.typ)]

structure TokenPair where
  accessToken : String
  refreshToken : String
  tokenType : String
  expiresIn : ℤ
  deriving DecidableEq

section Tokens

variable (x : Crates)

def asUuid (v : JsonValue) : Option Uuid := v.asString.bind x.parseUuid

/-- `Claims`, read from JSON. -/
def readClaims (o : JsonObject) : Except DecodeError Claims := do
  let sub ← requiredField o "sub" (asUuid x)
  let email ← requiredField o "email" JsonValue.asString
  let iat ← requiredField o "iat" (JsonValue.asInt 64)
  let exp ← requiredField o "exp" (JsonValue.asInt 64)
  let jti ← requiredField o "jti" (asUuid x)
  pure ⟨sub, email, iat, exp, jti⟩

/-- `PlaybackClaims`, read from JSON. -/
def readPlaybackClaims (o : JsonObject) : Except DecodeError PlaybackClaims := do
  let sub ← requiredField o "sub" (asUuid x)
  let fileId ← requiredField o "file_id" (asUuid x)
  let deviceId ← optionalField o "device_id" (asUuid x)
  let exp ← requiredField o "exp" (JsonValue.asInt 64)
  let typ ← requiredField o "typ" JsonValue.asString
  pure ⟨sub, fileId, deviceId, exp, typ⟩

/-- The claims are not past their `exp`, give or take the 60 seconds of `Validation::default`. -/
def unexpired (now : ℤ) (o : JsonObject) : Bool :=
  match o.lookup "exp" with
  | some (.number exp) => 0 ≤ exp && now - 60 ≤ exp
  | _ => false

/-- `jsonwebtoken::decode`: signature and `exp`, then the claims. -/
def decodeToken {α : Type} (read : JsonObject → Except DecodeError α) (now : ℤ)
    (token secret : String) : Option α :=
  ((x.verified token secret).filter (unexpired now)).bind fun o => (read o).toOption

/-- Validate and decode a token. -/
def validateToken (now : ℤ) (token secret : String) : Option Claims :=
  decodeToken x (readClaims x) now token secret

/-- The claims of a new access token… -/
def accessClaims (cfg : AuthConfig) (now : ℤ) (user : Uuid) (email : String) (jti : Uuid) : Claims :=
  ⟨user, email, now, now + cfg.accessTokenExpirySecs, jti⟩

/-- …and of a new refresh token. -/
def refreshClaims (cfg : AuthConfig) (now : ℤ) (user : Uuid) (email : String) (jti : Uuid) :
    Claims :=
  ⟨user, email, now, now + cfg.refreshTokenExpirySecs, jti⟩

/-- The bearer of an `Authorization` header. -/
def bearer (header : String) : Option String :=
  if "Bearer ".toList.isPrefixOf header.toList then some (String.ofList (header.toList.drop 7))
  else none

/-- The `AuthUser` extractor. -/
def authUser (cfg : AuthConfig) (now : ℤ) (authorization : Option String) :
    Except AppError Claims :=
  match authorization with
  | none => .error (.unauthorized "Missing Authorization header")
  | some header =>
    match bearer header with
    | none => .error (.unauthorized "Invalid Authorization header format")
    | some token =>
      (validateToken x now token cfg.jwtSecret).elim (.error .jwt) .ok

/-- The claims of a playback token of two hours. -/
def playbackClaims (now : ℤ) (user file : Uuid) (device : Option Uuid) : PlaybackClaims :=
  ⟨user, file, device, now + 7200, "playback"⟩

/-- Create a playback token. -/
def createPlaybackToken (cfg : AuthConfig) (now : ℤ) (user file : Uuid) (device : Option Uuid) :
    Except AppError (String × ℤ) :=
  let claims := playbackClaims now user file device
  (x.sign claims.toJson cfg.jwtSecret).elim (.error (.internal "Failed to sign playback token"))
    fun token => .ok (token, claims.exp)

/-- Verify a playback token. -/
def verifyPlaybackToken (cfg : AuthConfig) (now : ℤ) (token : String) :
    Except AppError PlaybackClaims :=
  match decodeToken x (readPlaybackClaims x) now token cfg.jwtSecret with
  | none => .error (.unauthorized "Invalid or expired media playback token")
  | some claims =>
    if claims.typ = "playback" then .ok claims else .error (.unauthorized "Invalid token type")

/-- The SHA-256 of a token, for storage. -/
def hashToken (token : String) : String := x.sha256 token.toUTF8.toList

end Tokens

/-! ## The database -/

/-- A row of `users`. -/
structure User where
  id : Uuid
  email : String
  displayName : String
  passwordHash : String
  isActive : Bool
  totpSecret : Option String
  totpEnabled : Bool
  createdAt : ℤ
  updatedAt : ℤ
  deriving DecidableEq

/-- A row of `refresh_tokens`. -/
structure RefreshToken where
  id : Uuid
  userId : Uuid
  tokenHash : String
  expiresAt : ℤ
  revoked : Bool
  createdAt : ℤ
  deriving DecidableEq

/-- A row of `audit_log`. -/
structure AuditEntry where
  id : Uuid
  userId : Uuid
  action : String
  details : String
  createdAt : ℤ
  deriving DecidableEq

/-- The tables, with the primary key of `users`. -/
structure AuthDb where
  users : List User
  pk : (users.map User.id).Nodup
  refreshTokens : List RefreshToken
  auditLog : List AuditEntry

abbrev Handler := EStateM AppError AuthDb

/-- The seconds that `DateTime<Utc>` can tell; adding beyond them panics. -/
def isDateTime (t : ℤ) : Bool := -8334601228800 ≤ t && t ≤ 8210266876799

/-- What a request comes with: the time, and the UUIDs that `Uuid::new_v4` will return. -/
structure Call where
  now : ℤ
  isDateTime_now : isDateTime now = true
  accessJti : Uuid
  refreshJti : Uuid
  rowId : Uuid
  auditId : Uuid

/-- The queries of a login. -/
inductive LoginQuery
  | user
  | mfa
  | storeToken
  | audit
  deriving DecidableEq, Repr

/-- The queries that fail. -/
abbrev Faults := LoginQuery → Bool

/-! ## The service (`service.rs`) -/

/-- Generate a new access and refresh token. -/
def generateTokenPair (x : Crates) (cfg : AuthConfig) (c : Call) (user : Uuid) (email : String) :
    Handler TokenPair := do
  ensure (isDateTime (c.now + cfg.accessTokenExpirySecs)) .panicked
  let access ← okOr (x.sign (accessClaims cfg c.now user email c.accessJti).toJson cfg.jwtSecret) .jwt
  ensure (isDateTime (c.now + cfg.refreshTokenExpirySecs)) .panicked
  let refresh ← okOr (x.sign (refreshClaims cfg c.now user email c.refreshJti).toJson cfg.jwtSecret)
    .jwt
  pure ⟨access, refresh, "Bearer", cfg.accessTokenExpirySecs⟩

/-- `INSERT INTO refresh_tokens`. -/
def AuthDb.insertToken (db : AuthDb) (row : RefreshToken) : AuthDb :=
  { db with refreshTokens := db.refreshTokens ++ [row] }

/-- Store a hashed refresh token; it expires in 7 days, whatever its `exp`. -/
def storeRefreshToken (x : Crates) (c : Call) (fails : Bool) (user : Uuid) (token : String) :
    Handler Unit := do
  ensure (!fails) .database
  modify fun db =>
    db.insertToken ⟨c.rowId, user, hashToken x token, c.now + 7 * 24 * 3600, false, c.now⟩

/-- Write an entry to the audit log; an error is only traced. -/
def logAudit (c : Call) (fails : Bool) (user : Uuid) (action details : String) : Handler Unit :=
  if fails then pure ()
  else modify fun db => { db with
    auditLog := db.auditLog ++ [⟨c.auditId, user, action, details, c.now⟩] }

structure LoginRequest where
  email : String
  password : String
  mfaCode : Option String
  deriving DecidableEq

structure UserResponse where
  id : Uuid
  email : String
  displayName : String
  createdAt : ℤ
  deriving DecidableEq

def User.toResponse (u : User) : UserResponse := ⟨u.id, u.email, u.displayName, u.createdAt⟩

structure AuthResponse where
  user : UserResponse
  tokens : TokenPair
  deriving DecidableEq

/-- `SELECT * FROM users WHERE email = $1 AND is_active = true`. -/
def AuthDb.activeUser (db : AuthDb) (email : String) : Option User :=
  db.users.find? fun u => u.email = email && u.isActive

/-- `SELECT totp_enabled, totp_secret FROM users WHERE id = $1`. -/
def AuthDb.mfaRow (db : AuthDb) (user : Uuid) : Option (Bool × Option String) :=
  (db.users.find? fun u => u.id = user).map fun u => (u.totpEnabled, u.totpSecret)

/-- The second factor, if the query finds one. -/
def checkSecondFactor (x : Crates) (c : Call) (fails : Faults) (user : Uuid)
    (mfaRow : Option (Bool × Option String)) (mfaCode : Option String) : Handler Unit :=
  match mfaRow with
  | some (true, some secret) => do
    let code := trim isWhiteSpace (mfaCode.getD "")
    ensure (code ≠ "") (.unauthorized "Two-Factor Authentication code required")
    if verifyTotp x.sha1 (c.now / 30).toNat secret code then pure ()
    else
      logAudit c (fails .audit) user "auth.mfa_failed" "Invalid 6-digit TOTP code during login"
      throw (.unauthorized "Invalid 6-digit MFA verification code")
  | _ => pure ()

/-- Authenticate a user and return tokens. -/
def login (x : Crates) (cfg : AuthConfig) (c : Call) (fails : Faults) (req : LoginRequest) :
    Handler AuthResponse := do
  ensure (!fails .user) .database
  let db ← get
  let user ← okOr (db.activeUser (x.toLowercase (trim isWhiteSpace req.email)))
    (.unauthorized "Invalid email or password")
  match x.verifyPassword req.password user.passwordHash with
  | .error e => throw (.internal ("Password verification failed: " ++ e))
  | .ok false =>
    logAudit c (fails .audit) user.id "auth.login_failed" "Invalid password attempt"
    throw (.unauthorized "Invalid email or password")
  | .ok true =>
    -- the error of this query is taken for a user without a second factor
    let mfaRow := if fails .mfa then none else db.mfaRow user.id
    checkSecondFactor x c fails user.id mfaRow req.mfaCode
    let tokens ← generateTokenPair x cfg c user.id user.email
    storeRefreshToken x c (fails .storeToken) user.id tokens.refreshToken
    logAudit c (fails .audit) user.id "auth.login" "User logged in"
    pure ⟨user.toResponse, tokens⟩

/-- `SELECT * FROM refresh_tokens WHERE token_hash = $1 AND revoked = false AND expires_at > NOW()`. -/
def AuthDb.liveToken (db : AuthDb) (now : ℤ) (hash : String) : Option RefreshToken :=
  db.refreshTokens.find? fun r => r.tokenHash = hash && !r.revoked && now < r.expiresAt

/-- `UPDATE refresh_tokens SET revoked = true WHERE …`. -/
def AuthDb.revoke (db : AuthDb) (p : RefreshToken → Bool) : AuthDb :=
  { db with
    refreshTokens := db.refreshTokens.map fun r => if p r then { r with revoked := true } else r }

/-- The queries of a refresh. -/
inductive RefreshQuery
  | select
  | revoke
  | storeToken
  deriving DecidableEq, Repr

/-- Refresh an access token using a valid refresh token. -/
def refresh (x : Crates) (cfg : AuthConfig) (c : Call) (fails : RefreshQuery → Bool)
    (refreshToken : String) : Handler TokenPair := do
  let claims ← okOr (validateToken x c.now refreshToken cfg.jwtSecret) .jwt
  ensure (!fails .select) .database
  let db ← get
  let stored ← okOr (db.liveToken c.now (hashToken x refreshToken))
    (.unauthorized "Invalid or expired refresh token")
  ensure (!fails .revoke) .database
  modify fun db => db.revoke fun r => r.id = stored.id
  let tokens ← generateTokenPair x cfg c claims.sub claims.email
  storeRefreshToken x c (fails .storeToken) claims.sub tokens.refreshToken
  pure tokens

/-- What registration ends with, and both ways of enrolling a device. -/
def grantTokens (x : Crates) (cfg : AuthConfig) (c : Call) (fails : Bool) (user : Uuid)
    (email : String) (expiresAt : ℤ) : Handler TokenPair := do
  let tokens ← generateTokenPair x cfg c user email
  ensure (!fails) .database
  modify fun db =>
    db.insertToken ⟨c.rowId, user, hashToken x tokens.refreshToken, expiresAt, false, c.now⟩
  pure tokens

/-- `DELETE FROM refresh_tokens WHERE expires_at < NOW() OR revoked = true`, every hour. -/
def AuthDb.purgeTokens (db : AuthDb) (now : ℤ) : AuthDb :=
  { db with refreshTokens := db.refreshTokens.filter fun r => !(r.expiresAt < now || r.revoked) }

/-- Logout by revoking the refresh token. -/
def logout (x : Crates) (fails : Bool) (refreshToken : String) : Handler Unit := do
  ensure (!fails) .database
  modify fun db => db.revoke fun r => r.tokenHash = hashToken x refreshToken

/-! ## Names for concrete requests -/

namespace Noon

open Pcos.Sample

def noon : ℤ := 1700000000

def config : AuthConfig where
  jwtSecret := "test-secret-key-that-is-long-enough-for-hmac-sha256-algorithm!!"
  accessTokenExpirySecs := 900
  refreshTokenExpirySecs := 604800

/-- Alice's access token of noon, as it is signed… -/
def accessToken : String :=
  "eyJ0eXAiOiJKV1QiLCJhbGciOiJIUzI1NiJ9.eyJzdWIiOiJhMTFjZTAwMC0wMDAwLTQwMDAtODAwMC0wMDAwMDAwMDAwMDAi"
  ++ "LCJlbWFpbCI6ImFsaWNlQGV4YW1wbGUuY29tIiwiaWF0IjoxNzAwMDAwMDAwLCJleHAiOjE3MDAwMDA5MDAsImp0aSI6IjAw"
  ++ "MDAwMDAwLTAwMDAtNDAwMC04MDAwLTAwMDAwMDAwMDAwMSJ9.vTaadP6gO0dhzz_zzuJz4xH2ZuosyKkLCkkpKzp5rFk"

/-- …and her refresh token. -/
def refreshToken : String :=
  "eyJ0eXAiOiJKV1QiLCJhbGciOiJIUzI1NiJ9.eyJzdWIiOiJhMTFjZTAwMC0wMDAwLTQwMDAtODAwMC0wMDAwMDAwMDAwMDAi"
  ++ "LCJlbWFpbCI6ImFsaWNlQGV4YW1wbGUuY29tIiwiaWF0IjoxNzAwMDAwMDAwLCJleHAiOjE3MDA2MDQ4MDAsImp0aSI6IjAw"
  ++ "MDAwMDAwLTAwMDAtNDAwMC04MDAwLTAwMDAwMDAwMDAwMiJ9.7t3PaDP_hpVDgDe0IUYXSkf_udZI95vZHTD8QYHz7oM"

/-- The claims the two were signed for. -/
def tokens : List (JsonObject × String) :=
  [((accessClaims config noon alice "alice@example.com" id1).toJson, accessToken),
    ((refreshClaims config noon alice "alice@example.com" id2).toJson, refreshToken)]

/-- Claims are read back from the token they were signed as. -/
theorem find_of_lookup {κ : Type} [BEq κ] [LawfulBEq κ] {t : List (κ × String)}
    (ht : (t.map Prod.snd).Nodup) {claims : κ} {token : String}
    (h : t.lookup claims = some token) :
    (t.find? fun e => e.2 = token).map Prod.fst = some claims := by
  obtain ⟨l₁, l₂, rfl, hclaims⟩ := List.lookup_eq_some_iff.mp h
  rw [List.map_append, List.nodup_append] at ht
  have hnone : l₁.find? (fun e => e.2 = token) = none := by
    rw [List.find?_eq_none]
    intro e he heq
    exact ht.2.2 _ (List.mem_map_of_mem he) token (by simp) (by simpa using heq)
  rw [List.find?_append, hnone]
  simp

/-- A hash that shows the password verifies it. -/
theorem verify_shown (_ password hash : String)
    (h : Except.ok ("$argon2id$" ++ password) = (.ok hash : Except String String)) :
    Except.ok (decide (hash = "$argon2id$" ++ password)) = (.ok true : Except String Bool) := by
  rw [← Except.ok.inj h, decide_eq_true rfl]

/-- The hash of Alice's password, which is "password". -/
def passwordHash : String :=
  "$argon2id$v=19$m=65536,t=2,p=1$c29tZXNhbHQ$CTFhFdXPJO1aFaMaO6Mm5c8y7cJHAph8ArZWb2GRPPc"

/-- The two tokens, the password, and names in ASCII. -/
def crates : Crates where
  parseUuid := env.parseUuid
  parseUuid_text id := dif_pos id.canonical
  toLowercase s := String.ofList (s.toList.map Char.toLower)
  sha1 _ := List.replicate 20 0
  sha256 bytes :=
    -- the access token ends in a k, the refresh token in an M
    if bytes.getLast? = some 0x6b then
      "b1abba0d9aa06906b41fd7949be8464cc7d7cdda15d0b7eec6c1b8f4aac939dc"
    else "689b45aa977aa62a4e88489b44c6781980c48fc06715be4d2a3a30f56498bb36"
  hashPassword _ password := if password = "password" then .ok passwordHash else .error "not hers"
  verifyPassword password hash := .ok (password = "password" && hash = passwordHash)
  verify_hash salt password hash h := by
    split at h
    · rename_i hpassword
      cases h
      rw [hpassword]
      rfl
    · cases h
  sign claims secret := if secret = config.jwtSecret then tokens.lookup claims else none
  verified token secret :=
    if secret = config.jwtSecret then (tokens.find? fun e => e.2 = token).map Prod.fst else none
  verified_sign claims secret token h := by
    split at h
    · rename_i hsecret
      rw [if_pos hsecret]
      exact find_of_lookup (by decide +kernel) h
    · cases h

/-- A request at noon. -/
def atNoon : Call := ⟨noon, by decide, id1, id2, id3, tmp⟩

end Noon

end Pcos.Auth
