import Pcos.Backend.Auth

/-!
# Backend/TokenKinds — which tokens are taken for which (`jwt.rs`, `middleware.rs`, `streaming`)

Whoever signs and whoever reads: access and refresh tokens have the same claims, so `AuthUser` takes
the one for the other; a playback token lacks fields that `Claims` requires, and has one that
`PlaybackClaims` requires.  A refresh needs a row that was stored for a refresh token.
-/

namespace Pcos.Auth

open Foundations

inductive TokenKind
  | access
  | refresh
  | playback
  deriving DecidableEq, Repr

/-- A token that was given out: as what, and until when it is good. -/
structure Issued where
  kind : TokenKind
  token : String
  exp : ℤ
  deriving DecidableEq, Repr

/-- The database, and the tokens given out so far. -/
structure Server where
  db : AuthDb
  issued : List Issued

namespace Server

/-- With no tokens. -/
def start (users : List User) (pk : (users.map User.id).Nodup) : Server := ⟨⟨users, pk, [], []⟩, []⟩

/-- The tokens of a response. -/
def issuedPair (cfg : AuthConfig) (c : Call) (t : TokenPair) : List Issued :=
  [⟨.access, t.accessToken, c.now + cfg.accessTokenExpirySecs⟩,
    ⟨.refresh, t.refreshToken, c.now + cfg.refreshTokenExpirySecs⟩]

/-- A request that answers with a pair of tokens. -/
def issue (cfg : AuthConfig) (c : Call) (request : Handler TokenPair) (s : Server) : Server :=
  match request s.db with
  | .ok t db => ⟨db, s.issued ++ issuedPair cfg c t⟩
  | .error _ db => { s with db := db }

end Server

/-- What gives out tokens, or touches their rows. -/
inductive TokenEvent
  | login (c : Call) (fails : Faults) (req : LoginRequest)
  | grant (c : Call) (fails : Bool) (user : Uuid) (email : String) (expiresAt : ℤ)
  | refresh (c : Call) (fails : RefreshQuery → Bool) (refreshToken : String)
  | playback (now : ℤ) (user file : Uuid) (device : Option Uuid)
  | logout (fails : Bool) (refreshToken : String)
  | revokeUser (user : Uuid)
  | purge (now : ℤ)

def Server.step (x : Crates) (cfg : AuthConfig) (s : Server) : TokenEvent → Server
  | .login c fails req => s.issue cfg c do
    let res ← login x cfg c fails req
    pure res.tokens
  | .grant c fails user email expiresAt =>
    s.issue cfg c (grantTokens x cfg c fails user email expiresAt)
  | .refresh c fails refreshToken => s.issue cfg c (refresh x cfg c fails refreshToken)
  | .playback now user file device =>
    match createPlaybackToken x cfg now user file device with
    | .ok (token, exp) => { s with issued := s.issued ++ [⟨.playback, token, exp⟩] }
    | .error _ => s
  | .logout fails refreshToken => { s with db := leaves (logout x fails refreshToken) s.db }
  | .revokeUser user => { s with db := s.db.revoke fun r => r.userId = user }
  | .purge now => { s with db := s.db.purgeTokens now }

/-! ## What is read of what was signed -/

section Claims

variable {x : Crates} {cfg : AuthConfig} {now : ℤ} {token : String}

theorem asUuid_text (id : Uuid) : asUuid x (.string id.text) = some id := x.parseUuid_text id

theorem asInt_of_isDateTime {t : ℤ} (h : isDateTime t = true) :
    JsonValue.asInt 64 (.number t) = some t := by
  rw [isDateTime, Bool.and_eq_true, decide_eq_true_eq, decide_eq_true_eq] at h
  rw [JsonValue.asInt, if_pos (by omega)]

theorem readClaims_toJson {c : Claims} (hiat : isDateTime c.iat = true)
    (hexp : isDateTime c.exp = true) : readClaims x c.toJson = .ok c := by
  simp [readClaims, Claims.toJson, requiredField, List.lookup_cons, asUuid_text,
    asInt_of_isDateTime hiat, asInt_of_isDateTime hexp, JsonValue.asString, bind, Except.bind, pure,
    Except.pure]

/-- A playback token has no `email`… -/
theorem readClaims_playback (c : PlaybackClaims) :
    readClaims x c.toJson = .error (.missingField "email") := by
  simp [readClaims, PlaybackClaims.toJson, requiredField, List.lookup_cons, asUuid_text, bind,
    Except.bind]

/-- …and the others have no `file_id`. -/
theorem readPlaybackClaims_toJson (c : Claims) :
    readPlaybackClaims x c.toJson = .error (.missingField "file_id") := by
  simp [readPlaybackClaims, Claims.toJson, requiredField, List.lookup_cons, asUuid_text, bind,
    Except.bind]

end Claims

/-! ## What a run keeps -/

section Sound

variable {x : Crates} {cfg : AuthConfig} {c : Call}

/-- Claims of a kind, good until the given time. -/
def ClaimsOf (o : JsonObject) (exp : ℤ) : TokenKind → Prop
  | .playback => ∃ claims : PlaybackClaims, o = claims.toJson
  | .access | .refresh => ∃ claims : Claims,
      o = claims.toJson ∧ claims.exp = exp ∧ isDateTime claims.iat = true ∧ isDateTime exp = true

/-- What was given out was signed as such, and the rows of `refresh_tokens` are of refresh tokens. -/
structure Server.Sound (x : Crates) (cfg : AuthConfig) (s : Server) : Prop where
  signed : ∀ i ∈ s.issued, ∃ o, x.sign o cfg.jwtSecret = some i.token ∧ ClaimsOf o i.exp i.kind
  stored : ∀ hash ∈ s.db.refreshTokens.map RefreshToken.tokenHash,
    ∃ i ∈ s.issued, i.kind = .refresh ∧ hashToken x i.token = hash

theorem Server.Sound.start (users : List User) (pk : (users.map User.id).Nodup) :
    (Server.start users pk).Sound x cfg where
  signed _ h := by cases h
  stored _ h := by cases h

/-- Both tokens were signed for one user. -/
def PairSigned (x : Crates) (cfg : AuthConfig) (c : Call) (t : TokenPair) : Prop :=
  ∃ user email,
    (x.sign (accessClaims cfg c.now user email c.accessJti).toJson cfg.jwtSecret = some t.accessToken ∧
      isDateTime (c.now + cfg.accessTokenExpirySecs) = true) ∧
    x.sign (refreshClaims cfg c.now user email c.refreshJti).toJson cfg.jwtSecret =
      some t.refreshToken ∧ isDateTime (c.now + cfg.refreshTokenExpirySecs) = true

/-- The hashes that `refresh_tokens` has. -/
def AuthDb.hashes (db : AuthDb) : List String := db.refreshTokens.map RefreshToken.tokenHash

@[simp] theorem AuthDb.hashes_revoke (db : AuthDb) (p : RefreshToken → Bool) :
    (db.revoke p).hashes = db.hashes := by
  rw [hashes, revoke, List.map_map]
  refine List.map_congr_left fun r _ => ?_
  rw [Function.comp_apply, apply_ite RefreshToken.tokenHash]
  exact ite_self r.tokenHash

@[simp] theorem AuthDb.hashes_insertToken (db : AuthDb) (row : RefreshToken) :
    (db.insertToken row).hashes = db.hashes ++ [row.tokenHash] :=
  List.map_append

theorem AuthDb.hashes_purgeTokens (db : AuthDb) (now : ℤ) :
    (db.purgeTokens now).hashes ⊆ db.hashes :=
  List.map_subset _ (List.filter_subset_self _)

/-- A handler that answers with a pair it signed, and stores no hash but that of its refresh token. -/
def Mints (x : Crates) (cfg : AuthConfig) (c : Call) (request : Handler TokenPair) : Prop :=
  ∀ db, wp request
    (fun t db' => PairSigned x cfg c t ∧ db'.hashes ⊆ db.hashes ++ [hashToken x t.refreshToken])
    (fun _ db' => db'.hashes ⊆ db.hashes) db

/-- **What a request keeps.** -/
theorem Server.Sound.issue {s : Server} {request : Handler TokenPair} (h : s.Sound x cfg)
    (hmints : Mints x cfg c request) : (s.issue cfg c request).Sound x cfg := by
  have hwp := hmints s.db
  unfold wp at hwp
  unfold Server.issue
  split at hwp
  case h_1 t db hrun =>
    obtain ⟨⟨user, email, ⟨haccess, haccessExp⟩, hrefresh, hrefreshExp⟩, hhashes⟩ := hwp
    rw [hrun]
    constructor
    · intro i hi
      rcases List.mem_append.mp hi with hi | hi
      · exact h.signed i hi
      · rcases List.mem_pair.mp hi with rfl | rfl
        · exact ⟨_, haccess, _, rfl, rfl, c.isDateTime_now, haccessExp⟩
        · exact ⟨_, hrefresh, _, rfl, rfl, c.isDateTime_now, hrefreshExp⟩
    · intro hash hhash
      rcases List.mem_append.mp (hhashes hhash) with hold | hnew
      · obtain ⟨i, hi, hkind⟩ := h.stored hash hold
        exact ⟨i, List.mem_append_left _ hi, hkind⟩
      · rw [List.mem_singleton] at hnew
        exact ⟨_, List.mem_append_right _ (List.mem_cons_of_mem _ List.mem_cons_self), rfl, hnew.symm⟩
  case h_2 e db hrun =>
    rw [hrun]
    exact ⟨h.signed, fun hash hhash => h.stored hash (hwp hhash)⟩

/-- So does one that only touches rows. -/
theorem Server.Sound.of_hashes_subset {s : Server} {db : AuthDb} (h : s.Sound x cfg)
    (hdb : db.hashes ⊆ s.db.hashes) : Server.Sound x cfg { s with db := db } :=
  ⟨h.signed, fun hash hhash => h.stored hash (hdb hhash)⟩

end Sound

/-! ## The handlers that answer with tokens -/

section Mints

variable {x : Crates} {cfg : AuthConfig} {c : Call} {db : AuthDb} {user : Uuid}
  {E : AppError → AuthDb → Prop}

theorem wp_generateTokenPair_of {email : String} {Q : TokenPair → AuthDb → Prop}
    (hQ : ∀ t, PairSigned x cfg c t → Q t db) (hE : ∀ e, E e db) :
    wp (generateTokenPair x cfg c user email) Q E db := by
  simp only [generateTokenPair, wp_bind, wp_ensure, wp_okOr, wp_pure]
  refine ⟨fun haccessExp => ⟨fun access haccess => ⟨fun hrefreshExp => ⟨fun refresh hrefresh => ?_,
    fun _ => hE _⟩, fun _ => hE _⟩, fun _ => hE _⟩, fun _ => hE _⟩
  exact hQ _ ⟨user, email, ⟨haccess, haccessExp⟩, hrefresh, hrefreshExp⟩

theorem wp_logAudit_of {fails : Bool} {action details : String} {Q : Unit → AuthDb → Prop}
    (hQ : ∀ db' : AuthDb, db'.hashes = db.hashes → Q () db') :
    wp (logAudit c fails user action details) Q E db := by
  rw [logAudit]
  split
  · exact hQ db rfl
  · exact hQ _ rfl

theorem wp_checkSecondFactor_of {fails : Faults} {mfaRow : Option (Bool × Option String)}
    {mfaCode : Option String} {Q : Unit → AuthDb → Prop} {P : AuthDb → Prop} (hQ : Q () db)
    (hP : ∀ db' : AuthDb, db'.hashes = db.hashes → P db') :
    wp (checkSecondFactor x c fails user mfaRow mfaCode) Q (fun _ => P) db := by
  unfold checkSecondFactor
  split
  · simp only [wp_bind, wp_ensure]
    refine ⟨fun _ => ?_, fun _ => hP db rfl⟩
    split
    · exact hQ
    · exact (wp_bind _ _).mpr (wp_logAudit_of hP)
  · exact hQ

theorem mints_login (fails : Faults) (req : LoginRequest) :
    Mints x cfg c (do
      let res ← login x cfg c fails req
      pure res.tokens) := by
  intro db
  have hsame : ∀ db' : AuthDb, db'.hashes = db.hashes → db'.hashes ⊆ db.hashes :=
    fun _ h => h ▸ List.Subset.refl _
  simp only [login, wp_bind, wp_ensure, wp_get, wp_okOr]
  refine ⟨fun _ => ⟨fun u _ => ?_, fun _ => hsame db rfl⟩, fun _ => hsame db rfl⟩
  split
  · exact hsame db rfl
  · exact (wp_bind _ _).mpr (wp_logAudit_of hsame)
  · simp only [wp_bind, wp_pure]
    refine wp_checkSecondFactor_of (wp_generateTokenPair_of (fun t ht => ?_) fun _ => hsame db rfl) hsame
    simp only [storeRefreshToken, wp_bind, wp_ensure, wp_modify]
    refine ⟨fun _ => wp_logAudit_of fun db' hdb' => ⟨ht, ?_⟩, fun _ => hsame db rfl⟩
    rw [hdb', AuthDb.hashes_insertToken]
    exact List.Subset.refl _

theorem mints_grantTokens (fails : Bool) (user : Uuid) (email : String) (expiresAt : ℤ) :
    Mints x cfg c (grantTokens x cfg c fails user email expiresAt) := by
  intro db
  simp only [grantTokens, wp_bind]
  refine wp_generateTokenPair_of (fun t ht => ?_) fun _ => List.Subset.refl _
  simp only [wp_ensure, wp_modify, wp_pure, AuthDb.hashes_insertToken]
  exact ⟨fun _ => ⟨ht, List.Subset.refl _⟩, fun _ => List.Subset.refl _⟩

theorem mints_refresh (fails : RefreshQuery → Bool) (refreshToken : String) :
    Mints x cfg c (refresh x cfg c fails refreshToken) := by
  intro db
  have hold : db.hashes ⊆ db.hashes := List.Subset.refl _
  simp only [refresh, wp_bind, wp_okOr, wp_ensure, wp_get, wp_modify]
  refine ⟨fun claims _ => ⟨fun _ => ⟨fun stored _ => ⟨fun _ => ?_, fun _ => hold⟩, fun _ => hold⟩,
    fun _ => hold⟩, fun _ => hold⟩
  refine wp_generateTokenPair_of (fun t ht => ?_) fun _ => by rw [AuthDb.hashes_revoke]; exact hold
  simp only [storeRefreshToken, wp_bind, wp_ensure, wp_modify, wp_pure, AuthDb.hashes_insertToken,
    AuthDb.hashes_revoke]
  exact ⟨fun _ => ⟨ht, List.Subset.refl _⟩, fun _ => hold⟩

/-- **What a step keeps.** -/
theorem Server.Sound.step {s : Server} (h : s.Sound x cfg) (e : TokenEvent) :
    (s.step x cfg e).Sound x cfg := by
  cases e with
  | login c fails req => exact h.issue (mints_login fails req)
  | grant c fails user email expiresAt => exact h.issue (mints_grantTokens fails user email expiresAt)
  | refresh c fails refreshToken => exact h.issue (mints_refresh fails refreshToken)
  | playback now user file device =>
    cases hsign : x.sign (playbackClaims now user file device).toJson cfg.jwtSecret with
    | none =>
      simp only [Server.step, createPlaybackToken, hsign, Option.elim]
      exact h
    | some token =>
      simp only [Server.step, createPlaybackToken, hsign, Option.elim]
      constructor
      · intro i hi
        rcases List.mem_append.mp hi with hi | hi
        · exact h.signed i hi
        · obtain rfl := List.mem_singleton.mp hi
          exact ⟨_, hsign, _, rfl⟩
      · intro hash hhash
        obtain ⟨i, hi, hkind⟩ := h.stored hash hhash
        exact ⟨i, List.mem_append_left _ hi, hkind⟩
  | logout fails refreshToken =>
    refine h.of_hashes_subset (wp.leaves (P := fun db : AuthDb => db.hashes ⊆ s.db.hashes) ?_)
    simp only [logout, wp_bind, wp_ensure, wp_modify, AuthDb.hashes_revoke]
    exact ⟨fun _ => List.Subset.refl _, fun _ => List.Subset.refl _⟩
  | revokeUser user => exact h.of_hashes_subset (by rw [AuthDb.hashes_revoke]; exact List.Subset.refl _)
  | purge now => exact h.of_hashes_subset (s.db.hashes_purgeTokens now)

/-- **What a run keeps.** -/
theorem Server.Sound.run {s : Server} (h : s.Sound x cfg) (es : List TokenEvent) :
    (run (Server.step x cfg) s es).Sound x cfg :=
  run_invariant (fun _ e hs => hs.step e) h es

end Mints

/-! ## Who takes what -/

section Kept

variable {x : Crates} {cfg : AuthConfig} {c : Call} {s : Server} {token : String}

/-- The token was given out as one of this kind. -/
def Server.Gave (s : Server) (kind : TokenKind) (token : String) : Prop :=
  ∃ i ∈ s.issued, i.kind = kind ∧ i.token = token

/-- What `AuthUser`, a refresh and a playback accept was given out as an access, refresh and playback
token. -/
structure KindsKept (x : Crates) (cfg : AuthConfig) (s : Server) (c : Call)
    (fails : RefreshQuery → Bool) (token : String) : Prop where
  authUser : ∀ claims, authUser x cfg c.now (some ("Bearer " ++ token)) = .ok claims →
    s.Gave .access token
  refresh : wp (refresh x cfg c fails token) (fun _ _ => s.Gave .refresh token) (fun _ _ => True) s.db
  playback : ∀ claims, verifyPlaybackToken x cfg c.now token = .ok claims → s.Gave .playback token

/-- Signatures cannot be forged: a token that verifies was given out. -/
def Unforged (x : Crates) (cfg : AuthConfig) (s : Server) (token : String) : Prop :=
  (x.verified token cfg.jwtSecret).isSome → ∃ i ∈ s.issued, i.token = token

/-- The token has the hash of no other that was given out. -/
def NoCollision (x : Crates) (s : Server) (token : String) : Prop :=
  ∀ i ∈ s.issued, hashToken x i.token = hashToken x token → i.token = token

/-- A refresh token that has not expired, give or take a minute, and is no access token as well. -/
def UnexpiredRefreshToken (s : Server) (now : ℤ) (token : String) : Prop :=
  ¬ s.Gave .access token ∧
    ∃ i ∈ s.issued, i.kind = .refresh ∧ i.token = token ∧ 0 ≤ i.exp ∧ now - 60 ≤ i.exp

@[simp] theorem bearer_append (token : String) : bearer ("Bearer " ++ token) = some token := by
  have hstarts : ("Bearer ".toList).isPrefixOf ("Bearer " ++ token).toList = true := by
    rw [List.isPrefixOf_iff_prefix, String.toList_append]
    exact List.prefix_append _ _
  rw [bearer, if_pos hstarts, String.toList_append]
  exact congrArg some (String.ofList_toList)

theorem authUser_eq_ok_iff {claims : Claims} {now : ℤ} :
    authUser x cfg now (some ("Bearer " ++ token)) = .ok claims ↔
      validateToken x now token cfg.jwtSecret = some claims := by
  rw [authUser, bearer_append]
  cases h : validateToken x now token cfg.jwtSecret with
  | none => simp [h]
  | some claims' => simp [h]

theorem decodeToken_eq_some {α : Type} {read : JsonObject → Except DecodeError α} {now : ℤ}
    {a : α} :
    decodeToken x read now token cfg.jwtSecret = some a ↔
      ∃ o, x.verified token cfg.jwtSecret = some o ∧ unexpired now o = true ∧ read o = .ok a := by
  rw [decodeToken, Option.bind_eq_some_iff]
  refine exists_congr fun o => ?_
  rw [Option.filter_eq_some_iff, and_assoc]
  refine and_congr_right fun _ => and_congr_right fun _ => ?_
  cases read o <;> simp [Except.toOption]

/-- A token that verifies has the claims it was given out for. -/
theorem Server.Sound.claims (h : s.Sound x cfg) (hunforged : Unforged x cfg s token) {o : JsonObject}
    (ho : x.verified token cfg.jwtSecret = some o) :
    ∃ i ∈ s.issued, i.token = token ∧ ClaimsOf o i.exp i.kind := by
  obtain ⟨i, hi, htoken⟩ := hunforged (ho ▸ rfl)
  obtain ⟨o', hsign, hclaims⟩ := h.signed i hi
  have ho' := x.verified_sign _ _ _ hsign
  rw [htoken, ho] at ho'
  cases ho'
  exact ⟨i, hi, htoken, hclaims⟩

/-- **A playback token is no bearer.** -/
theorem Server.Sound.validateToken (h : s.Sound x cfg) (hunforged : Unforged x cfg s token) {now : ℤ}
    {claims : Claims} (hvalid : validateToken x now token cfg.jwtSecret = some claims) :
    s.Gave .access token ∨
      ∃ i ∈ s.issued, i.kind = .refresh ∧ i.token = token ∧ 0 ≤ i.exp ∧ now - 60 ≤ i.exp := by
  obtain ⟨o, ho, hexp, hread⟩ := decodeToken_eq_some.mp hvalid
  obtain ⟨i, hi, htoken, hclaims⟩ := h.claims hunforged ho
  cases hkind : i.kind with
  | access => exact Or.inl ⟨i, hi, hkind, htoken⟩
  | refresh =>
    rw [hkind] at hclaims
    obtain ⟨claims', rfl, hexp', -, -⟩ := hclaims
    refine Or.inr ⟨i, hi, hkind, htoken, ?_⟩
    simpa [unexpired, Claims.toJson, List.lookup_cons, hexp'] using hexp
  | playback =>
    rw [hkind] at hclaims
    obtain ⟨claims', rfl⟩ := hclaims
    rw [readClaims_playback] at hread
    cases hread

/-- **Only a playback token plays.** -/
theorem Server.Sound.verifyPlaybackToken (h : s.Sound x cfg) (hunforged : Unforged x cfg s token)
    {now : ℤ} {claims : PlaybackClaims}
    (hvalid : verifyPlaybackToken x cfg now token = .ok claims) : s.Gave .playback token := by
  rw [Auth.verifyPlaybackToken] at hvalid
  cases hdecode : decodeToken x (readPlaybackClaims x) now token cfg.jwtSecret with
  | none =>
    rw [hdecode] at hvalid
    cases hvalid
  | some claims' =>
    obtain ⟨o, ho, -, hread⟩ := decodeToken_eq_some.mp hdecode
    obtain ⟨i, hi, htoken, hclaims⟩ := h.claims hunforged ho
    have hother : ∀ c : Claims, o ≠ c.toJson := by
      rintro c rfl
      rw [readPlaybackClaims_toJson] at hread
      cases hread
    cases hkind : i.kind with
    | playback => exact ⟨i, hi, hkind, htoken⟩
    | access | refresh =>
      rw [hkind] at hclaims
      obtain ⟨c, hc, -⟩ := hclaims
      exact absurd hc (hother c)

/-- **Only a refresh token refreshes.** -/
theorem Server.Sound.refresh (h : s.Sound x cfg) (hcollision : NoCollision x s token)
    (fails : RefreshQuery → Bool) :
    wp (refresh x cfg c fails token) (fun _ _ => s.Gave .refresh token) (fun _ _ => True) s.db := by
  simp only [Auth.refresh, wp_bind, wp_okOr, wp_ensure, wp_get, wp_modify, imp_true_iff, and_true]
  intro claims _ _ stored hstored _
  have hgave : s.Gave .refresh token := by
    have hmem := List.mem_of_find?_eq_some hstored
    have hhash : stored.tokenHash = hashToken x token := by
      have hlive := List.find?_some hstored
      simp only [Bool.and_eq_true, decide_eq_true_eq] at hlive
      exact hlive.1.1
    obtain ⟨i, hi, hkind, heq⟩ := h.stored stored.tokenHash (List.mem_map_of_mem hmem)
    exact ⟨i, hi, hkind, hcollision i hi (heq.trans hhash)⟩
  refine wp_generateTokenPair_of (fun t _ => ?_) fun _ => trivial
  simp only [storeRefreshToken, wp_bind, wp_ensure, wp_modify, wp_pure, imp_true_iff, and_true]
  exact fun _ => hgave

/-- An unexpired refresh token is a bearer. -/
theorem Server.Sound.validateToken_refresh (h : s.Sound x cfg) {now : ℤ} {i : Issued}
    (hi : i ∈ s.issued) (hkind : i.kind = .refresh) (hpos : 0 ≤ i.exp) (hexp : now - 60 ≤ i.exp) :
    ∃ claims, Auth.validateToken x now i.token cfg.jwtSecret = some claims := by
  obtain ⟨o, hsign, hclaims⟩ := h.signed i hi
  rw [hkind] at hclaims
  obtain ⟨claims, rfl, hexp', hiat, hrange⟩ := hclaims
  refine ⟨claims, decodeToken_eq_some.mpr ⟨_, x.verified_sign _ _ _ hsign, ?_,
    readClaims_toJson hiat (hexp' ▸ hrange)⟩⟩
  simpa [unexpired, Claims.toJson, List.lookup_cons, hexp'] using And.intro hpos hexp

/-- **Which tokens are taken for others.**  Whatever was asked before, every token is taken for what
it was given out as, except that `AuthUser` takes a refresh token until it expires. -/
theorem kindsKept_iff {users : List User} {pk : (users.map User.id).Nodup} (es : List TokenEvent)
    {fails : RefreshQuery → Bool}
    (hunforged : Unforged x cfg (run (Server.step x cfg) (.start users pk) es) token)
    (hcollision : NoCollision x (run (Server.step x cfg) (.start users pk) es) token) :
    KindsKept x cfg (run (Server.step x cfg) (.start users pk) es) c fails token ↔
      ¬ UnexpiredRefreshToken (run (Server.step x cfg) (.start users pk) es) c.now token := by
  have h : (run (Server.step x cfg) (.start users pk) es).Sound x cfg :=
    (Server.Sound.start users pk).run es
  constructor
  · rintro hkept ⟨hnot, i, hi, hkind, rfl, hpos, hexp⟩
    obtain ⟨claims, hclaims⟩ := h.validateToken_refresh hi hkind hpos hexp
    exact hnot (hkept.authUser claims (authUser_eq_ok_iff.mpr hclaims))
  · intro hnot
    refine ⟨fun claims hclaims => ?_, h.refresh hcollision fails,
      fun claims => h.verifyPlaybackToken hunforged⟩
    by_contra haccess
    exact hnot ⟨haccess, (h.validateToken hunforged (authUser_eq_ok_iff.mp hclaims)).resolve_left haccess⟩

end Kept

open Noon Pcos.Sample

/-- Alice, without a second factor. -/
def plainAlice : User :=
  ⟨alice, "alice@example.com", "Alice", passwordHash, true, none, false, 0, 0⟩

/-- She logs in at noon. -/
def loggedIn : Server :=
  run (Server.step crates config) (.start [plainAlice] (by decide))
    [.login atNoon (fun _ => false) ⟨"alice@example.com", "password", none⟩]

theorem issued_loggedIn : loggedIn.issued =
    [⟨.access, accessToken, 1700000900⟩, ⟨.refresh, refreshToken, 1700604800⟩] := by
  decide +kernel

theorem unforged_refreshToken : Unforged crates config loggedIn refreshToken := by
  intro _
  rw [issued_loggedIn]
  exact ⟨_, List.mem_cons_of_mem _ List.mem_cons_self, rfl⟩

theorem noCollision_refreshToken : NoCollision crates loggedIn refreshToken := by
  rw [NoCollision, issued_loggedIn]
  decide +kernel

/-- A week and a minute later her refresh token is good for nothing. -/
theorem kindsKept_weekLater :
    KindsKept crates config loggedIn ⟨1700604861, by decide, id1, id2, id3, tmp⟩ (fun _ => false)
      refreshToken :=
  (kindsKept_iff [.login atNoon (fun _ => false) ⟨"alice@example.com", "password", none⟩]
    unforged_refreshToken noCollision_refreshToken).mpr (by
      rintro ⟨-, i, hi, hkind, -, -, hexp⟩
      have hi' : i ∈ loggedIn.issued := hi
      rw [issued_loggedIn] at hi'
      rcases List.mem_pair.mp hi' with rfl | rfl
      · cases hkind
      · exact absurd hexp (by decide))

/-- **Until then it authenticates requests.** -/
theorem not_kindsKept_refreshToken :
    ¬ KindsKept crates config loggedIn atNoon (fun _ => false) refreshToken := by
  intro h
  have hsound : loggedIn.Sound crates config := (Server.Sound.start [plainAlice] (by decide)).run
    [.login atNoon (fun _ => false) ⟨"alice@example.com", "password", none⟩]
  have hi : (⟨.refresh, refreshToken, 1700604800⟩ : Issued) ∈ loggedIn.issued := by
    rw [issued_loggedIn]
    exact List.mem_cons_of_mem _ List.mem_cons_self
  have hvalid (now : ℤ) (hexp : now - 60 ≤ 1700604800) :=
    hsound.validateToken_refresh hi rfl (by decide) hexp
  obtain ⟨claims, hclaims⟩ := hvalid noon (by decide)
  obtain ⟨i, hi, hkind, htoken⟩ := h.authUser claims (authUser_eq_ok_iff.mpr hclaims)
  rw [issued_loggedIn] at hi
  rcases List.mem_pair.mp hi with rfl | rfl
  · exact absurd htoken (by decide +kernel)
  · cases hkind

end Pcos.Auth
