import Pcos.Backend.Auth
import Pcos.Edge.PairingHub
import Pcos.Foundations.Hmac

/-!
# Edge/Accounts — tokens, codes and logins of the edge worker (`index.ts`, `services/auth.ts`)

An access token is a JSON Web Token, a refresh token two UUIDs without their hyphens, of which D1
keeps the hash.  A login with the second factor enabled and no code answers with a third kind: a
JSON Web Token with the claim `mfa_pending`, to be sent back with a code.
-/

namespace Pcos.Edge.Accounts

open Foundations

/-! ## What the platform provides -/

/-- Web Crypto, Unicode's cases, dates, and HMAC over JSON.  A password verifies with its hash; what is
signed with a secret has three parts and verifies with it. -/
structure Platform where
  sha1 : Bytes → Bytes
  sha256 : Bytes → String
  toLowerCase : String → String
  toUpperCase : String → String
  parseDate : String → Option ℤ
  hashPassword : String → String → String
  verifyPassword : String → String → Bool
  hash_ne : ∀ salt password, hashPassword salt password ≠ ""
  verify_hash : ∀ salt password, verifyPassword password (hashPassword salt password) = true
  sign : JsonObject → String → Option String
  payload : String → String → Option JsonObject
  dots_sign : ∀ o secret t, sign o secret = some t → t.toList.count '.' = 2
  payload_sign : ∀ o secret t, sign o secret = some t → payload t secret = some o

/-- `\s` -/
def isSpace (c : Char) : Bool :=
  (isWhiteSpace c && c ≠ '\u0085') || c = '\uFEFF'

/-- A request's time, and the UUIDs that `crypto.randomUUID` will return. -/
structure Call where
  now : ℤ
  uuid1 : Uuid
  uuid2 : Uuid
  rowId : Uuid

/-- `Math.floor(Date.now() / 1000)` -/
def Call.seconds (c : Call) : ℤ := c.now / 1000

/-! ## Tokens and codes (`services/auth.ts`) -/

section Tokens

variable (p : Platform)

def generateJwt (now : ℤ) (payload : JsonObject) (secret : String) (expiresInSeconds : ℤ) :
    Option String :=
  p.sign (payload ++ [("iat", .number now), ("exp", .number (now + expiresInSeconds))]) secret

/-- Three parts, a good signature, and an `exp` that is not past. -/
def verifyJwt (now : ℤ) (token secret : String) : Option JsonObject :=
  if token.toList.count '.' ≠ 2 then none
  else (p.payload token secret).filter fun o =>
    match o.lookup "exp" with
    | some (.number exp) => !(exp < now)
    | _ => true

/-- The five bits of a character of the alphabet. -/
def base32Bits (c : Char) : List Bool :=
  match Auth.base32Alphabet.idxOf? c with
  | some v => [v.testBit 4, v.testBit 3, v.testBit 2, v.testBit 1, v.testBit 0]
  | none => []

/-- A byte of each eight bits; what is left over is dropped. -/
def bitsToBytes : List Bool → Bytes
  | b₇ :: b₆ :: b₅ :: b₄ :: b₃ :: b₂ :: b₁ :: b₀ :: bits =>
    UInt8.ofNat ([b₇, b₆, b₅, b₄, b₃, b₂, b₁, b₀].foldl (fun n b => 2 * n + b.toNat) 0)
      :: bitsToBytes bits
  | _ => []

def base32ToBytes (base32 : String) : Bytes :=
  bitsToBytes ((p.toUpperCase base32).toList.flatMap base32Bits)

/-- `DataView.setUint32`, the high byte first. -/
def uint32 (n : ℤ) : Bytes :=
  [24, 16, 8, 0].map fun shift => UInt8.ofNat ((n % 2 ^ 32).toNat >>> shift)

/-- The code of a time step; an empty key cannot be imported. -/
def computeTotp (secretBase32 : String) (timeStep : ℤ) : Option String :=
  let key := base32ToBytes p secretBase32
  if key = [] then none
  else
    let counterBuf := uint32 (timeStep / 2 ^ 32) ++ uint32 timeStep
    let hash := Hmac.hmac p.sha1 64 key counterBuf
    let offset := (hash.getLast?.getD 0).toNat % 16
    let byte := fun i => (hash.getD (offset + i) 0).toNat
    some (Auth.sixDigits
      ((byte 0 % 128 * 2 ^ 24 + byte 1 * 2 ^ 16 + byte 2 * 2 ^ 8 + byte 3) % 1000000))

/-- Whether the code is that of this step or of a neighbour; `none` if it throws. -/
def verifyTotpCode (now : ℤ) (secretBase32 code : String) : Option Bool :=
  let cleanCode := String.ofList (code.toList.filter fun c => !isSpace c)
  if secretBase32 = "" ∨ code = "" then some false
  else if cleanCode.length ≠ 6 ∨ ¬ cleanCode.toList.all Char.isDigit then some false
  else
    [-1, 0, 1].foldl
      (fun found offset => found.bind fun yes =>
        if yes then some true
        else (computeTotp p secretBase32 (now / 30 + offset)).map fun expected => expected = cleanCode)
      (some false)

/-- What a request may authenticate with. -/
structure Credentials where
  authorization : Option String
  pathname : String
  tokenParam : Option String

/-- The paths that take the token from the query. -/
def isAllowedQueryAuth (pathname : String) : Bool :=
  ["/download", "/fs/read"].any (fun part => pathname.toList.tails.any part.toList.isPrefixOf) ||
    ["/api/v1/streaming/", "/ws/"].any fun start => start.toList.isPrefixOf pathname.toList

/-- The token of a request. -/
def requestToken (r : Credentials) : Option String :=
  match r.authorization.bind Auth.bearer with
  | some token => some (trim isSpace token)
  | none => if isAllowedQueryAuth r.pathname then r.tokenParam else none

/-- `String(value)`, of a value that is truthy. -/
def truthyString : JsonValue → Option String
  | .null => none
  | .string text => truthy (some text)
  | .number n => if n = 0 then none else some (toString n)
  | .bool b => if b then some "true" else none

def subject (payload : JsonObject) : Option String := (payload.lookup "sub").bind truthyString

def mfaPending (payload : JsonObject) : Bool := payload.lookup "mfa_pending" = some (.bool true)

/-- Whose request it is: the `sub` of a token that is not of a pending challenge. -/
def extractAuthUser (now : ℤ) (secret : String) (r : Credentials) : Option String := do
  let token ← truthy (requestToken r)
  let payload ← verifyJwt p now token secret
  let sub ← subject payload
  if mfaPending payload then none else some sub

def hashToken (token : String) : String := p.sha256 token.toUTF8.toList

end Tokens

/-! ## D1 -/

structure User where
  id : String
  email : String
  passwordHash : String
  displayName : String
  role : String
  mfaEnabled : ℤ
  mfaSecret : Option String
  deriving DecidableEq

structure RefreshToken where
  id : Uuid
  userId : String
  tokenHash : String
  expiresAt : ℤ
  revoked : Bool
  createdAt : ℤ
  deriving DecidableEq

structure AttemptRecord where
  attempts : ℕ
  blockedUntil : ℤ
  deriving DecidableEq

/-- The tables, and the worker's record of failed attempts. -/
structure Worker where
  users : List User
  pk : (users.map User.id).Nodup
  cloudIds : List (String × String)
  refreshTokens : List RefreshToken
  authRateLimiter : Dict String AttemptRecord

/-- A refusal. -/
structure Refusal where
  status : ℕ
  error : String
  deriving DecidableEq, Repr

abbrev Handler := EStateM Refusal Worker

/-- What the worker answers when a handler throws. -/
def thrown : Refusal := ⟨500, "Internal server error"⟩

def checkRateLimit (now : ℤ) (key : String) : Handler Unit := do
  let w ← get
  ensure (!(w.authRateLimiter.get key).any fun record => now < record.blockedUntil)
    ⟨429, "Too many requests"⟩

def recordFailedAttempt (now : ℤ) (key : String) (maxAttempts : ℕ) (blockDurationMs : ℤ) :
    Handler Unit :=
  modify fun w =>
    let attempts := match w.authRateLimiter.get key with
      | some record => if record.blockedUntil ≤ now then record.attempts else 0
      | none => 0
    let count := attempts + 1
    let blockedUntil := if maxAttempts ≤ count then now + blockDurationMs else 0
    { w with authRateLimiter := w.authRateLimiter.set key ⟨count, blockedUntil⟩ }

def recordSuccess (key : String) : Handler Unit :=
  modify fun w => { w with authRateLimiter := w.authRateLimiter.delete key }

/-! ## The handlers (`handleApiRequest`) -/

structure TokenPair where
  accessToken : String
  refreshToken : String
  deriving DecidableEq

structure UserInfo where
  id : String
  email : String
  displayName : String
  role : String
  cloudId : Option String
  mfaEnabled : Bool
  deriving DecidableEq

/-- What the three handlers answer with. -/
inductive Reply
  | mfaRequired (mfaToken : String)
  | session (user : UserInfo) (tokens : TokenPair)
  | tokens (tokens : TokenPair)
  deriving DecidableEq

/-- The tokens of a reply. -/
def Reply.allTokens : Reply → List String
  | .mfaRequired mfaToken => [mfaToken]
  | .session _ t | .tokens t => [t.accessToken, t.refreshToken]

structure LoginBody where
  email : Option String
  password : Option String
  mfaCode : Option String

structure ChallengeBody where
  mfaToken : Option String
  mfaCode : Option String

section Handlers

variable (p : Platform) (secret : String) (c : Call)

/-- `crypto.randomUUID()` without its hyphens, twice. -/
def Call.refreshToken (c : Call) : String :=
  String.ofList ((c.uuid1.text.toList ++ c.uuid2.text.toList).filter (· ≠ '-'))

/-- The payload of an access token. -/
def accessPayload (userId email : String) : JsonObject :=
  [("sub", .string userId), ("email", .string email), ("role", .string "user")]

/-- An access token of 15 minutes, and a refresh token of 30 days. -/
def issueTokenPair (userId email : String) : Handler TokenPair := do
  let access ← okOr (generateJwt p c.seconds (accessPayload userId email) secret 900) thrown
  let row : RefreshToken := ⟨c.rowId, userId, hashToken p c.refreshToken,
    c.now + 30 * 24 * 3600 * 1000, false, c.now⟩
  modify fun w => { w with refreshTokens := w.refreshTokens ++ [row] }
  pure ⟨access, c.refreshToken⟩

/-- The end of a login, with or without a challenge. -/
def startSession (clientIp : String) (user : User) : Handler Reply := do
  recordSuccess ("login_" ++ clientIp)
  let w ← get
  let tokens ← issueTokenPair p secret c user.id user.email
  pure (.session ⟨user.id, user.email, user.displayName, user.role, w.cloudIds.lookup user.id,
    user.mfaEnabled = 1⟩ tokens)

/-- The code is checked, and a wrong one counted. -/
def checkMfaCode (clientIp mfaSecret mfaCode : String) : Handler Unit := do
  let isMfaValid ← okOr (verifyTotpCode p c.seconds mfaSecret mfaCode) thrown
  if isMfaValid then pure ()
  else
    recordFailedAttempt c.now ("login_" ++ clientIp) 5 300000
    throw ⟨401, "Invalid 6-digit MFA verification code"⟩

def login (clientIp : String) (body : LoginBody) : Handler Reply := do
  checkRateLimit c.now ("login_" ++ clientIp)
  let email ← okOr (truthy body.email) ⟨400, "Email and password required"⟩
  let password ← okOr (truthy body.password) ⟨400, "Email and password required"⟩
  let w ← get
  let found := w.users.find? fun u => u.email = trim isSpace (p.toLowerCase email)
  match found.filter fun u => p.verifyPassword password u.passwordHash with
  | none =>
    recordFailedAttempt c.now ("login_" ++ clientIp) 5 300000
    throw ⟨401, "Invalid email or password"⟩
  | some user =>
    match if user.mfaEnabled = 1 then truthy user.mfaSecret else none with
    | none => startSession p secret c clientIp user
    | some mfaSecret =>
      match truthy body.mfaCode with
      | none =>
        let mfaToken ← okOr (generateJwt p c.seconds
          [("sub", .string user.id), ("mfa_pending", .bool true)] secret 300) thrown
        pure (.mfaRequired mfaToken)
      | some mfaCode =>
        checkMfaCode p c clientIp mfaSecret mfaCode
        startSession p secret c clientIp user

/-- Completing a challenge. -/
def challenge (clientIp : String) (body : ChallengeBody) : Handler Reply := do
  checkRateLimit c.now ("login_" ++ clientIp)
  let mfaToken ← okOr (truthy body.mfaToken) ⟨400, "mfa_token and mfa_code required"⟩
  let mfaCode ← okOr (truthy body.mfaCode) ⟨400, "mfa_token and mfa_code required"⟩
  let claims ← okOr ((verifyJwt p c.seconds mfaToken secret).filter mfaPending)
    ⟨401, "Invalid or expired MFA challenge session"⟩
  let sub ← okOr (subject claims) ⟨401, "Invalid or expired MFA challenge session"⟩
  let w ← get
  let user ← okOr (w.users.find? fun u => u.id = sub) ⟨400, "MFA not configured for user"⟩
  let mfaSecret ← okOr (if user.mfaEnabled = 1 then truthy user.mfaSecret else none)
    ⟨400, "MFA not configured for user"⟩
  checkMfaCode p c clientIp mfaSecret mfaCode
  startSession p secret c clientIp user

/-- `SELECT * FROM refresh_tokens WHERE token_hash = ?1 AND revoked = 0` -/
def Worker.liveToken (w : Worker) (hash : String) : Option RefreshToken :=
  w.refreshTokens.find? fun r => r.tokenHash = hash && !r.revoked

/-- `UPDATE refresh_tokens SET revoked = 1 WHERE …` -/
def Worker.revoke (w : Worker) (which : RefreshToken → Bool) : Worker :=
  { w with
    refreshTokens :=
      w.refreshTokens.map fun r => if which r then { r with revoked := true } else r }

def refresh (refreshToken : Option String) : Handler Reply := do
  let token ← okOr (truthy refreshToken) ⟨400, "Refresh token required"⟩
  let w ← get
  let row ← okOr ((w.liveToken (hashToken p token)).filter fun r => c.now < r.expiresAt)
    ⟨401, "Invalid or expired refresh token"⟩
  let user ← okOr (w.users.find? fun u => u.id = row.userId) ⟨404, "User not found"⟩
  modify fun w => w.revoke fun r => r.id = row.id
  let tokens ← issueTokenPair p secret c row.userId user.email
  pure (.tokens tokens)

end Handlers

end Pcos.Edge.Accounts
