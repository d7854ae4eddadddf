import Pcos.Edge.Accounts
import Pcos.Foundations.Runs

/-!
# Edge/Challenge — the second factor at the edge (`auth/login`, `auth/mfa/challenge`, `auth/refresh`)

What a client gets that knows a user's password and nothing else: challenges, which authenticate no
request and refresh nothing, and the tokens of other users.
-/

namespace Pcos.Edge.Accounts

open Foundations

/-- The worker, and the tokens that its replies have given the client. -/
structure Client where
  worker : Worker
  given : List String

inductive ClientEvent
  | login (c : Call) (clientIp : String) (body : LoginBody)
  | challenge (c : Call) (clientIp : String) (body : ChallengeBody)
  | refresh (c : Call) (refreshToken : Option String)

def ClientEvent.handler (p : Platform) (secret : String) : ClientEvent → Handler Reply
  | .login c clientIp body => Accounts.login p secret c clientIp body
  | .challenge c clientIp body => Accounts.challenge p secret c clientIp body
  | .refresh c refreshToken => Accounts.refresh p secret c refreshToken

def Client.step (p : Platform) (secret : String) (s : Client) (e : ClientEvent) : Client :=
  match e.handler p secret s.worker with
  | .ok reply w => ⟨w, s.given ++ reply.allTokens⟩
  | .error _ w => { s with worker := w }

namespace ClientEvent

def call : ClientEvent → Call
  | .login c _ _ | .challenge c _ _ | .refresh c _ => c

/-- The code that is submitted. -/
def code : ClientEvent → Option String
  | .login _ _ body => body.mfaCode
  | .challenge _ _ body => body.mfaCode
  | .refresh _ _ => none

/-- The refresh token that is submitted. -/
def submitted : ClientEvent → Option String
  | .refresh _ refreshToken => refreshToken
  | _ => none

end ClientEvent

section Challenge

variable {p : Platform} {secret : String} {user : User} {held : List String}

/-- The user has the second factor enabled; `held` are their refresh tokens so far, whose hashes D1
has, and which have no others' hash. -/
structure Protected (p : Platform) (user : User) (held : List String) (w : Worker) : Prop where
  mem : user ∈ w.users
  enabled : user.mfaEnabled = 1
  configured : (truthy user.mfaSecret).isSome
  rows : ∀ r ∈ w.refreshTokens, r.userId = user.id → ∃ t ∈ held, r.tokenHash = hashToken p t
  issued : ∀ t ∈ held, ∃ c : Call, t = c.refreshToken
  collision : ∀ t ∈ held, ∀ t', hashToken p t' = hashToken p t → t' = t

/-- What the client can do: it submits no code that is valid, no token of the user's that it was not
given, and no random token comes up twice. -/
structure WithoutCode (p : Platform) (user : User) (held : List String) (s : Client)
    (e : ClientEvent) : Prop where
  code : ∀ code ∈ e.code, ∀ mfaSecret ∈ user.mfaSecret,
    verifyTotpCode p e.call.seconds mfaSecret code ≠ some true
  known : ∀ t ∈ e.submitted, t ∈ held → t ∈ s.given
  fresh : e.call.refreshToken ∉ held

/-- The token neither authenticates a request of the user nor is a refresh token of theirs. -/
structure Harmless (p : Platform) (secret : String) (user : User) (w : Worker) (t : String) :
    Prop where
  bearer : ∀ now r, requestToken r = some t → extractAuthUser p now secret r ≠ some user.id
  refresh : ∀ r ∈ w.refreshTokens, r.userId = user.id → r.tokenHash ≠ hashToken p t

/-- The token authenticates no request of the user, and is none of theirs so far. -/
structure Foreign (p : Platform) (secret : String) (user : User) (held : List String) (t : String) :
    Prop where
  bearer : ∀ now r, requestToken r = some t → extractAuthUser p now secret r ≠ some user.id
  notHeld : t ∉ held

/-! ## What the tokens are -/

/-- A refresh token has no dot… -/
theorem dot_notMem_refreshToken (c : Call) : '.' ∉ c.refreshToken.toList := by
  have huuid : ∀ u : Uuid, '.' ∉ u.text.toList := by
    intro u hdot
    have hall := (Bool.and_eq_true _ _ ▸ u.canonical).2
    exact absurd (List.all_eq_true.mp hall '.' hdot) (by decide)
  rw [Call.refreshToken, String.toList_ofList]
  intro hdot
  rcases List.mem_append.mp (List.mem_of_mem_filter hdot) with hdot | hdot
  · exact huuid _ hdot
  · exact huuid _ hdot

/-- …so it is no JSON Web Token. -/
theorem verifyJwt_refreshToken (c : Call) (now : ℤ) :
    verifyJwt p now c.refreshToken secret = none := by
  rw [verifyJwt, if_pos]
  rw [List.count_eq_zero.mpr (dot_notMem_refreshToken c)]
  decide

theorem eq_some_of_truthy {o : Option String} {s : String} (h : truthy o = some s) : o = some s :=
  (Option.filter_eq_some_iff.mp h).1

theorem payload_of_verifyJwt {now now' e : ℤ} {payload o : JsonObject} {t : String}
    (ht : generateJwt p now' payload secret e = some t) (h : verifyJwt p now t secret = some o) :
    o = payload ++ [("iat", .number now'), ("exp", .number (now' + e))] := by
  rw [verifyJwt, if_neg (not_not.mpr (p.dots_sign _ _ _ ht)), p.payload_sign _ _ _ ht] at h
  exact (Option.some.inj (Option.filter_eq_some_iff.mp h).1).symm

/-- A request with this token is that of the subject of its payload, if it is one. -/
theorem extractAuthUser_eq_some {now : ℤ} {r : Credentials} {t u : String}
    (hr : requestToken r = some t) (h : extractAuthUser p now secret r = some u) :
    ∃ o, verifyJwt p now t secret = some o ∧ subject o = some u ∧ mfaPending o = false := by
  simp only [extractAuthUser, hr, Option.bind_eq_bind, Option.bind_eq_some_iff] at h
  obtain ⟨token, htoken, o, ho, sub, hsub, h⟩ := h
  obtain rfl : t = token := Option.some.inj (eq_some_of_truthy htoken)
  split at h
  · cases h
  · rename_i hpending
    cases h
    exact ⟨o, ho, hsub, by simpa using hpending⟩

namespace Protected

variable {w : Worker} {c : Call}

/-- A token that is none of the user's has none of their hashes. -/
theorem hash_ne (h : Protected p user held w) {t : String} (ht : t ∉ held) {r : RefreshToken}
    (hr : r ∈ w.refreshTokens) (huser : r.userId = user.id) : r.tokenHash ≠ hashToken p t := by
  intro hhash
  obtain ⟨t', ht', heq⟩ := h.rows r hr huser
  exact ht (h.collision t' ht' t (hhash.symm.trans heq) ▸ ht')

theorem harmless (h : Protected p user held w) {t : String} (ht : Foreign p secret user held t) :
    Harmless p secret user w t :=
  ⟨ht.bearer, fun _ hr huser => h.hash_ne ht.notHeld hr huser⟩

/-- No JSON Web Token is a refresh token. -/
theorem signed_notMem (h : Protected p user held w) {o : JsonObject} {t : String}
    (ht : p.sign o secret = some t) : t ∉ held := by
  intro hmem
  obtain ⟨c, hc⟩ := h.issued _ hmem
  have hdots := p.dots_sign o secret t ht
  rw [hc, List.count_eq_zero.mpr (dot_notMem_refreshToken c)] at hdots
  cases hdots

/-- **A challenge is foreign to its own user**: it is pending. -/
theorem foreign_challenge (h : Protected p user held w) {id t : String} {now : ℤ}
    (ht : generateJwt p now [("sub", .string id), ("mfa_pending", .bool true)] secret 300 = some t) :
    Foreign p secret user held t where
  bearer now' r hr hextract := by
    obtain ⟨o, ho, -, hpending⟩ := extractAuthUser_eq_some hr hextract
    rw [payload_of_verifyJwt ht ho] at hpending
    simp [mfaPending, List.lookup_cons] at hpending
  notHeld := h.signed_notMem ht

/-- An access token is foreign to all but the user whose id it has. -/
theorem foreign_access (h : Protected p user held w) {id email t : String} (hid : id ≠ user.id)
    {now : ℤ} (ht : generateJwt p now (accessPayload id email) secret 900 = some t) :
    Foreign p secret user held t where
  bearer now' r hr hextract := by
    obtain ⟨o, ho, hsub, -⟩ := extractAuthUser_eq_some hr hextract
    rw [payload_of_verifyJwt ht ho] at hsub
    exact hid (Option.some.inj (eq_some_of_truthy hsub))
  notHeld := h.signed_notMem ht

end Protected

/-- A new refresh token is no bearer. -/
theorem foreign_refresh {c : Call} (hfresh : c.refreshToken ∉ held) :
    Foreign p secret user held c.refreshToken where
  bearer now' r hr hextract := by
    obtain ⟨o, ho, -⟩ := extractAuthUser_eq_some hr hextract
    rw [verifyJwt_refreshToken] at ho
    cases ho
  notHeld := hfresh

/-! ## What a request keeps -/

/-- The same users, and no new row of this one. -/
structure Frame (user : User) (w w' : Worker) : Prop where
  users : w'.users = w.users
  rows : ∀ r' ∈ w'.refreshTokens, r'.userId = user.id →
    ∃ r ∈ w.refreshTokens, r.userId = user.id ∧ r.tokenHash = r'.tokenHash

namespace Frame

variable {w w' w'' : Worker}

theorem refl (w : Worker) : Frame user w w := ⟨rfl, fun r hr huser => ⟨r, hr, huser, rfl⟩⟩

theorem trans (h : Frame user w w') (h' : Frame user w' w'') : Frame user w w'' := by
  refine ⟨h'.users.trans h.users, fun r'' hr'' huser => ?_⟩
  obtain ⟨r', hr', huser', heq'⟩ := h'.rows r'' hr'' huser
  obtain ⟨r, hr, huser, heq⟩ := h.rows r' hr' huser'
  exact ⟨r, hr, huser, heq.trans heq'⟩

/-- What does not touch these tables. -/
theorem of_eq (husers : w'.users = w.users) (hrows : w'.refreshTokens = w.refreshTokens) :
    Frame user w w' :=
  ⟨husers, fun r hr huser => ⟨r, hrows ▸ hr, huser, rfl⟩⟩

theorem revoke (w : Worker) (which : RefreshToken → Bool) : Frame user w (w.revoke which) := by
  refine ⟨rfl, fun r' hr' huser => ?_⟩
  obtain ⟨r, hr, rfl⟩ := List.mem_map.mp hr'
  refine ⟨r, hr, ?_⟩
  split at huser
  · rename_i hwhich
    rw [if_pos hwhich]
    exact ⟨huser, rfl⟩
  · rename_i hwhich
    rw [if_neg hwhich]
    exact ⟨huser, rfl⟩

/-- A row of another user. -/
theorem insert (w : Worker) {row : RefreshToken} (hrow : row.userId ≠ user.id) :
    Frame user w { w with refreshTokens := w.refreshTokens ++ [row] } := by
  refine ⟨rfl, fun r hr huser => ?_⟩
  rcases List.mem_append.mp hr with hr | hr
  · exact ⟨r, hr, huser, rfl⟩
  · rw [List.mem_singleton.mp hr] at huser
    exact absurd huser hrow

end Frame

theorem Protected.frame {w w' : Worker} (h : Protected p user held w) (hw : Frame user w w') :
    Protected p user held w' where
  mem := hw.users ▸ h.mem
  enabled := h.enabled
  configured := h.configured
  rows r' hr' huser := by
    obtain ⟨r, hr, huser, heq⟩ := hw.rows r' hr' huser
    exact heq ▸ h.rows r hr huser
  issued := h.issued
  collision := h.collision

/-- A reply with foreign tokens, and no row for the user. -/
def Guards (p : Platform) (secret : String) (user : User) (held : List String) (w : Worker)
    (handler : Handler Reply) (w₀ : Worker) : Prop :=
  wp handler
    (fun reply w' => Frame user w w' ∧ ∀ t ∈ reply.allTokens, Foreign p secret user held t)
    (fun _ w' => Frame user w w') w₀

section Requests

variable {w w₀ : Worker} {c : Call} {clientIp : String}

/-- The rate limit and its counters do not matter. -/
theorem wp_checkRateLimit {now : ℤ} {key : String} {Q : Unit → Worker → Prop} {P : Worker → Prop}
    (hQ : Q () w₀) (hP : P w₀) : wp (checkRateLimit now key) Q (fun _ => P) w₀ := by
  simp only [checkRateLimit, wp_bind, wp_get, wp_ensure]
  exact ⟨fun _ => hQ, fun _ => hP⟩

theorem wp_checkMfaCode {mfaSecret mfaCode : String} {Q : Unit → Worker → Prop}
    {P : Worker → Prop} (hQ : verifyTotpCode p c.seconds mfaSecret mfaCode = some true → Q () w₀)
    (hP : ∀ w', Frame user w₀ w' → P w') :
    wp (checkMfaCode p c clientIp mfaSecret mfaCode) Q (fun _ => P) w₀ := by
  simp only [checkMfaCode, wp_bind, wp_okOr]
  refine ⟨fun valid hvalid => ?_, fun _ => hP w₀ (Frame.refl w₀)⟩
  split
  · rename_i htrue
    exact hQ (htrue ▸ hvalid)
  · simp only [recordFailedAttempt, wp_bind, wp_modify, wp_throw]
    exact hP _ (Frame.of_eq rfl rfl)

/-- Tokens for another user. -/
theorem guards_issueTokenPair (h : Protected p user held w) (hw : Frame user w w₀) {id email : String}
    (hid : id ≠ user.id) (hfresh : c.refreshToken ∉ held) {reply : TokenPair → Reply}
    (hreply : ∀ t, (reply t).allTokens = [t.accessToken, t.refreshToken]) :
    Guards p secret user held w (do
      let tokens ← issueTokenPair p secret c id email
      pure (reply tokens)) w₀ := by
  simp only [Guards, issueTokenPair, wp_bind, wp_okOr, wp_modify, wp_pure, hreply]
  refine ⟨fun access haccess => ⟨hw.trans (Frame.insert w₀ hid), fun t ht => ?_⟩, fun _ => hw⟩
  rcases List.mem_pair.mp ht with rfl | rfl
  · exact h.foreign_access hid haccess
  · exact foreign_refresh hfresh

/-- A session of another user. -/
theorem guards_startSession (h : Protected p user held w) (hw : Frame user w w₀) {v : User}
    (hv : v.id ≠ user.id) (hfresh : c.refreshToken ∉ held) :
    Guards p secret user held w (startSession p secret c clientIp v) w₀ := by
  have hw' : Frame user w { w₀ with authRateLimiter := w₀.authRateLimiter.delete ("login_" ++ clientIp) } :=
    hw.trans (Frame.of_eq rfl rfl)
  have hguards : Guards p secret user held w (do
      let tokens ← issueTokenPair p secret c v.id v.email
      pure (.session ⟨v.id, v.email, v.displayName, v.role, w₀.cloudIds.lookup v.id,
        v.mfaEnabled = 1⟩ tokens))
      { w₀ with authRateLimiter := w₀.authRateLimiter.delete ("login_" ++ clientIp) } :=
    guards_issueTokenPair h hw' hv hfresh fun _ => rfl
  simp only [Guards, startSession, recordSuccess, wp_bind, wp_modify, wp_get] at hguards ⊢
  exact hguards

/-- A code for the user is not valid, so no session of theirs comes of it. -/
theorem guards_checkMfaCode (h : Protected p user held w) (hw : Frame user w w₀)
    (hfresh : c.refreshToken ∉ held) {v : User} (hv : v ∈ w.users) {mfaSecret mfaCode : String}
    (hsecret : v.mfaSecret = some mfaSecret)
    (hcode : ∀ mfaSecret ∈ user.mfaSecret, verifyTotpCode p c.seconds mfaSecret mfaCode ≠ some true) :
    Guards p secret user held w (do
      checkMfaCode p c clientIp mfaSecret mfaCode
      startSession p secret c clientIp v) w₀ := by
  simp only [Guards, wp_bind]
  refine wp_checkMfaCode (fun hvalid => ?_) fun w' hw' => hw.trans hw'
  refine guards_startSession h hw (fun hid => ?_) hfresh
  obtain rfl : v = user := List.inj_on_of_nodup_map w.pk hv h.mem hid
  exact hcode mfaSecret hsecret hvalid

theorem guards_login (h : Protected p user held w) (hfresh : c.refreshToken ∉ held) {body : LoginBody}
    (hcode : ∀ code ∈ body.mfaCode, ∀ mfaSecret ∈ user.mfaSecret,
      verifyTotpCode p c.seconds mfaSecret code ≠ some true) :
    Guards p secret user held w (login p secret c clientIp body) w := by
  have hrefl : Frame user w w := Frame.refl w
  simp only [Guards, login, wp_bind, wp_okOr, wp_get]
  refine wp_checkRateLimit ⟨fun email _ => ⟨fun password _ => ?_, fun _ => hrefl⟩, fun _ => hrefl⟩ hrefl
  split
  · simp only [recordFailedAttempt, wp_bind, wp_modify, wp_throw]
    exact Frame.of_eq rfl rfl
  · rename_i v hfound
    have hv : v ∈ w.users := List.mem_of_find?_eq_some (Option.filter_eq_some_iff.mp hfound).1
    split
    · -- a login without a second factor is not the user's
      rename_i hnone
      refine guards_startSession h hrefl (fun hid => ?_) hfresh
      obtain rfl : v = user := List.inj_on_of_nodup_map w.pk hv h.mem hid
      have hconfigured := h.configured
      rw [if_pos h.enabled] at hnone
      rw [hnone] at hconfigured
      cases hconfigured
    · rename_i mfaSecret hsome
      have hsecret : v.mfaSecret = some mfaSecret := by
        split at hsome
        · exact eq_some_of_truthy hsome
        · cases hsome
      split
      · simp only [wp_bind, wp_okOr, wp_pure]
        refine ⟨fun mfaToken hmfaToken => ⟨hrefl, fun t ht => ?_⟩, fun _ => hrefl⟩
        obtain rfl := List.mem_singleton.mp ht
        exact h.foreign_challenge hmfaToken
      · rename_i mfaCode hmfaCode
        exact guards_checkMfaCode h hrefl hfresh hv hsecret (hcode mfaCode (eq_some_of_truthy hmfaCode))

theorem guards_challenge (h : Protected p user held w) (hfresh : c.refreshToken ∉ held)
    {body : ChallengeBody}
    (hcode : ∀ code ∈ body.mfaCode, ∀ mfaSecret ∈ user.mfaSecret,
      verifyTotpCode p c.seconds mfaSecret code ≠ some true) :
    Guards p secret user held w (challenge p secret c clientIp body) w := by
  have hrefl : Frame user w w := Frame.refl w
  simp only [Guards, challenge, wp_bind, wp_okOr, wp_get]
  refine wp_checkRateLimit ⟨fun mfaToken _ => ⟨fun mfaCode hmfaCode => ⟨fun claims _ =>
    ⟨fun sub _ => ⟨fun v hv => ⟨fun mfaSecret hsome => ?_, fun _ => hrefl⟩, fun _ => hrefl⟩,
      fun _ => hrefl⟩, fun _ => hrefl⟩, fun _ => hrefl⟩, fun _ => hrefl⟩ hrefl
  have hsecret : v.mfaSecret = some mfaSecret := by
    split at hsome
    · exact eq_some_of_truthy hsome
    · cases hsome
  have hguards : Guards p secret user held w (do
      checkMfaCode p c clientIp mfaSecret mfaCode
      startSession p secret c clientIp v) w :=
    guards_checkMfaCode h hrefl hfresh (List.mem_of_find?_eq_some hv) hsecret
      (hcode mfaCode (eq_some_of_truthy hmfaCode))
  simpa only [Guards, wp_bind] using hguards

theorem guards_refresh (h : Protected p user held w) (hfresh : c.refreshToken ∉ held)
    {refreshToken : Option String} (hheld : ∀ t ∈ refreshToken, t ∉ held) :
    Guards p secret user held w (refresh p secret c refreshToken) w := by
  have hrefl : Frame user w w := Frame.refl w
  simp only [Guards, refresh, wp_bind, wp_okOr, wp_get, wp_modify]
  refine ⟨fun token htoken => ⟨fun row hrow => ⟨fun v _ => ?_, fun _ => hrefl⟩, fun _ => hrefl⟩,
    fun _ => hrefl⟩
  have hfound := (Option.filter_eq_some_iff.mp hrow).1
  have hhash : row.tokenHash = hashToken p token := by
    have hlive := List.find?_some hfound
    simp only [Bool.and_eq_true, decide_eq_true_eq] at hlive
    exact hlive.1
  have huser : row.userId ≠ user.id := fun huser =>
    h.hash_ne (hheld token (eq_some_of_truthy htoken)) (List.mem_of_find?_eq_some hfound) huser hhash
  have hguards : Guards p secret user held w (do
      let tokens ← issueTokenPair p secret c row.userId v.email
      pure (.tokens tokens)) (w.revoke fun r => r.id = row.id) :=
    guards_issueTokenPair h (Frame.revoke w fun r => r.id = row.id) huser hfresh fun _ => rfl
  simpa only [Guards, wp_bind] using hguards

end Requests

/-! ## Runs -/

/-- The user is protected, and the tokens given so far are foreign to them. -/
structure Guarded (p : Platform) (secret : String) (user : User) (held : List String) (s : Client) :
    Prop where
  isProtected : Protected p user held s.worker
  foreign : ∀ t ∈ s.given, Foreign p secret user held t

/-- **What a request keeps.** -/
theorem Guarded.step {s : Client} (h : Guarded p secret user held s) {e : ClientEvent}
    (he : WithoutCode p user held s e) : Guarded p secret user held (s.step p secret e) := by
  have hguards : Guards p secret user held s.worker (e.handler p secret) s.worker := by
    cases e with
    | login c clientIp body => exact guards_login h.isProtected he.fresh he.code
    | challenge c clientIp body => exact guards_challenge h.isProtected he.fresh he.code
    | refresh c refreshToken =>
      exact guards_refresh h.isProtected he.fresh fun t ht hheld =>
        (h.foreign t (he.known t ht hheld)).notHeld hheld
  unfold Guards wp at hguards
  unfold Client.step
  split at hguards
  case h_1 reply w hrun =>
    rw [hrun]
    exact ⟨h.isProtected.frame hguards.1, fun t ht =>
      (List.mem_append.mp ht).elim (h.foreign t) (hguards.2 t)⟩
  case h_2 e w hrun =>
    rw [hrun]
    exact ⟨h.isProtected.frame hguards, h.foreign⟩

/-- **Without a valid code there are no tokens of the user's.**  Whatever the client asks, no token
it gets authenticates a request of the user, or is a refresh token of theirs. -/
theorem harmless_of_withoutCode {w : Worker} (hw : Protected p user held w) {es : List ClientEvent}
    (hes : Along (WithoutCode p user held) (Client.step p secret) ⟨w, []⟩ es) :
    ∀ t ∈ (run (Client.step p secret) ⟨w, []⟩ es).given,
      Harmless p secret user (run (Client.step p secret) ⟨w, []⟩ es).worker t := by
  have hstart : Guarded p secret user held ⟨w, []⟩ := ⟨hw, fun t ht => by cases ht⟩
  have hend := Along.invariant (P := Guarded p secret user held) (fun _ _ h he => Guarded.step h he) hstart hes
  exact fun t ht => hend.isProtected.harmless (hend.foreign t ht)

end Challenge

/-! ## Names for concrete requests -/

namespace Noon

open Pcos.Sample

/-- The secret the tokens below were signed with. -/
def jwtSecret : String := "test-secret-key-that-is-long-enough-for-hmac-sha256-algorithm!!"

/-- Alice's challenge of noon, as it is signed. -/
def challengeToken : String :=
  "eyJhbGciOiJIUzI1NiIsInR5cCI6IkpXVCJ9.eyJzdWIiOiJhMTFjZTAwMC0wMDAwLTQwMDAtODAwMC0wMDAwMDAwMDAwMDAi"
  ++ "LCJtZmFfcGVuZGluZyI6dHJ1ZSwiaWF0IjoxNzAwMDAwMDAwLCJleHAiOjE3MDAwMDAzMDB9.idK2s9ZDod58gsUiZQ_LjOD4"
  ++ "VPqb_rnwknX1XGUmEfY"

def challengePayload : JsonObject :=
  [("sub", .string alice.text), ("mfa_pending", .bool true), ("iat", .number 1700000000),
    ("exp", .number 1700000300)]

/-- The one token that gets signed, hashes that show the password, and names in ASCII. -/
def platform : Platform where
  sha1 _ := List.replicate 20 0
  sha256 _ := ""
  toLowerCase s := String.ofList (s.toList.map Char.toLower)
  toUpperCase s := String.ofList (s.toList.map Char.toUpper)
  parseDate _ := none
  hashPassword _ password := "pbkdf2$" ++ password
  verifyPassword password hash := hash = "pbkdf2$" ++ password
  hash_ne _ password := by simp
  verify_hash _ _ := decide_eq_true rfl
  sign o secret :=
    if o = challengePayload ∧ secret = jwtSecret then some challengeToken else none
  payload token secret :=
    if token = challengeToken ∧ secret = jwtSecret then some challengePayload else none
  dots_sign o secret t h := by
    split at h
    · rw [← Option.some.inj h]
      decide +kernel
    · cases h
  payload_sign o secret t h := by
    split at h
    · rename_i hsigned
      rw [if_pos ⟨(Option.some.inj h).symm, hsigned.2⟩, hsigned.1]
    · cases h

/-- Alice, with the second factor. -/
def aliceRow : User :=
  ⟨alice.text, "alice@example.com", "pbkdf2$password", "Alice", "user", 1, some "JBSWY3DPEHPK3PXP"⟩

theorem nodup_aliceRow : ([aliceRow].map User.id).Nodup := List.nodup_singleton _

def worker : Worker := ⟨[aliceRow], nodup_aliceRow, [], [], .empty⟩

def atNoon : Call := ⟨1700000000000, id1, id2, id3⟩

/-- With her password for a challenge, with the challenge and too short a code, and with the
challenge for a refresh token. -/
def attempts : List ClientEvent :=
  [.login atNoon "198.51.100.7" ⟨some "alice@example.com", some "password", none⟩,
    .challenge atNoon "198.51.100.7" ⟨some challengeToken, some "12345"⟩,
    .refresh atNoon (some challengeToken)]

end Noon

section Attempts

open Noon

theorem protected_worker : Protected platform aliceRow [] worker where
  mem := List.mem_singleton.mpr rfl
  enabled := rfl
  configured := rfl
  rows _ h := by cases h
  issued _ h := by cases h
  collision _ h := by cases h

theorem withoutCode_attempts :
    Along (WithoutCode platform aliceRow []) (Client.step platform jwtSecret) ⟨worker, []⟩
      attempts := by
  have hnone : ∀ t ∈ (none : Option String), False := fun _ h => by cases h
  refine ⟨⟨fun _ h => (hnone _ h).elim, fun _ h => (hnone _ h).elim, List.not_mem_nil⟩,
    ⟨fun code hcode mfaSecret hsecret => ?_, fun _ h => (hnone _ h).elim, List.not_mem_nil⟩,
    ⟨fun _ h => (hnone _ h).elim, fun _ _ h => (List.not_mem_nil h).elim, List.not_mem_nil⟩, trivial⟩
  cases hcode
  cases hsecret
  decide

theorem given_attempts :
    challengeToken ∈ (run (Client.step platform jwtSecret) ⟨worker, []⟩ attempts).given := by
  decide +kernel

/-- What they give is harmless. -/
theorem harmless_attempts :
    Harmless platform jwtSecret aliceRow
      (run (Client.step platform jwtSecret) ⟨worker, []⟩ attempts).worker challengeToken :=
  harmless_of_withoutCode protected_worker withoutCode_attempts challengeToken given_attempts

end Attempts

end Pcos.Edge.Accounts
