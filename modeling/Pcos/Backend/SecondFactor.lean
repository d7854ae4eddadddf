import Pcos.Backend.Auth
import Pcos.Backend.System

/-!
# Backend/SecondFactor — what a login asks of a user with a second factor (`service.rs`, `mfa.rs`)

`login` reads `totp_enabled` and `totp_secret` with a query of its own, and takes its failure for a
user without a second factor; so it takes an enabled factor without a secret.  `asksSecondFactor_iff`
says that these two are all there is.
-/

namespace Pcos.Auth

open Foundations

/-! ## Setting the factor up, and disabling it -/

/-- The queries of the three handlers. -/
inductive MfaQuery
  | select
  | update
  | email
  deriving DecidableEq, Repr

/-- The columns of the second factor; `totp_verified_at` is read nowhere. -/
def User.withTotp (u : User) (secret : Option String) (enabled : Bool) : User :=
  { u with totpSecret := secret, totpEnabled := enabled }

/-- `UPDATE users SET … WHERE id = $1`, on the columns of the second factor. -/
def AuthDb.updateTotp (db : AuthDb) (user : Uuid) (secret : User → Option String)
    (enabled : User → Bool) : AuthDb :=
  { db with
    users := db.users.map fun u => if u.id = user then u.withTotp (secret u) (enabled u) else u
    pk := by
      have hid : (db.users.map fun u => if u.id = user then u.withTotp (secret u) (enabled u) else u).map
          User.id = db.users.map User.id := by
        rw [List.map_map]
        refine List.map_congr_left fun u _ => ?_
        rw [Function.comp_apply, apply_ite User.id]
        exact ite_self u.id
      exact hid ▸ db.pk }

/-- `fetch_one` of a user by id; its errors are reported as internal. -/
def fetchUser (fails : Bool) (user : Uuid) : Handler User := do
  ensure (!fails) (.internal "database error")
  let db ← get
  okOr (db.users.find? fun u => u.id = user) (.internal "no rows returned")

def updateTotp (fails : Bool) (user : Uuid) (secret : User → Option String)
    (enabled : User → Bool) : Handler Unit := do
  ensure (!fails) (.internal "database error")
  modify fun db => db.updateTotp user secret enabled

/-- Generate a secret and a provisioning URI. -/
def setupTotp (fails : MfaQuery → Bool) (user : Uuid) (secret : String) :
    Handler (String × String) := do
  let row ← fetchUser (fails .select) user
  ensure (!row.totpEnabled) (.conflict "MFA is already enabled")
  updateTotp (fails .update) user (fun _ => some secret) User.totpEnabled
  let row ← fetchUser (fails .email) user
  pure (secret, "otpauth://totp/PCOS:" ++ row.email ++ "?secret=" ++ secret
    ++ "&issuer=PCOS&algorithm=SHA1&digits=6&period=30")

/-- Verify a code and enable the factor. -/
def verifyTotpSetup (x : Crates) (now : ℤ) (fails : MfaQuery → Bool) (user : Uuid) (code : String) :
    Handler Unit := do
  let row ← fetchUser (fails .select) user
  let secret ← okOr row.totpSecret (.validation "TOTP not set up. Call /mfa/setup first")
  ensure (verifyTotp x.sha1 (now / 30).toNat secret code) (.unauthorized "Invalid TOTP code")
  updateTotp (fails .update) user User.totpSecret fun _ => true

/-- Disable the factor, with a valid code. -/
def disableTotp (x : Crates) (now : ℤ) (fails : MfaQuery → Bool) (user : Uuid) (code : String) :
    Handler Unit := do
  let row ← fetchUser (fails .select) user
  ensure row.totpEnabled (.validation "MFA is not enabled")
  let secret ← okOr row.totpSecret (.internal "No TOTP secret")
  ensure (verifyTotp x.sha1 (now / 30).toNat secret code) (.unauthorized "Invalid TOTP code")
  updateTotp (fails .update) user (fun _ => none) fun _ => false

/-- Whoever has the factor enabled has a secret. -/
def Configured (db : AuthDb) : Prop :=
  ∀ u ∈ db.users, u.totpEnabled = true → u.totpSecret.isSome

section Configured

variable {x : Crates} {fails : MfaQuery → Bool} {user : Uuid} {db : AuthDb}

/-- An update keeps this if it does on the user's row. -/
theorem Configured.updateTotp (h : Configured db) {secret : User → Option String}
    {enabled : User → Bool}
    (hrow : ∀ u ∈ db.users, u.id = user → enabled u = true → (secret u).isSome) :
    Configured (db.updateTotp user secret enabled) := by
  intro v hv
  obtain ⟨u, hu, rfl⟩ := List.mem_map.mp hv
  split
  · rename_i hid
    exact hrow u hu hid
  · exact h u hu

/-- `fetch_one` finds the row with this id, which the primary key makes the only one. -/
theorem AuthDb.find_user {u v : User} (hu : db.users.find? (fun u => u.id = user) = some u)
    (hv : v ∈ db.users) (hid : v.id = user) : v = u := by
  have hmem := List.mem_of_find?_eq_some hu
  have huid : u.id = user := by simpa using List.find?_some hu
  exact List.inj_on_of_nodup_map db.pk hv hmem (hid.trans huid.symm)

theorem wp_fetchUser {f : Bool} {Q : User → AuthDb → Prop} {P : AuthDb → Prop}
    (hQ : ∀ u, db.users.find? (fun u => u.id = user) = some u → Q u db) (hP : P db) :
    wp (fetchUser f user) Q (fun _ => P) db := by
  simp only [fetchUser, wp_bind, wp_ensure, wp_get, wp_okOr]
  exact ⟨fun _ => ⟨hQ, fun _ => hP⟩, fun _ => hP⟩

theorem wp_updateTotp {f : Bool} {secret : User → Option String} {enabled : User → Bool}
    {Q : Unit → AuthDb → Prop} {P : AuthDb → Prop} (hQ : Q () (db.updateTotp user secret enabled))
    (hP : P db) : wp (updateTotp f user secret enabled) Q (fun _ => P) db := by
  simp only [Auth.updateTotp, wp_bind, wp_ensure, wp_modify]
  exact ⟨fun _ => hQ, fun _ => hP⟩

/-- **The handlers keep it**, whichever of their queries fail. -/
theorem Configured.setupTotp (h : Configured db) (secret : String) :
    Configured (leaves (setupTotp fails user secret) db) := by
  refine wp.leaves (P := Configured) ?_
  simp only [Auth.setupTotp, wp_bind, wp_ensure]
  refine wp_fetchUser (fun row _ => ⟨fun _ => ?_, fun _ => h⟩) h
  have hset : Configured (db.updateTotp user (fun _ => some secret) User.totpEnabled) :=
    h.updateTotp fun _ _ _ _ => rfl
  exact wp_updateTotp (wp_fetchUser (fun _ _ => hset) hset) h

theorem Configured.verifyTotpSetup (h : Configured db) (now : ℤ) (code : String) :
    Configured (leaves (verifyTotpSetup x now fails user code) db) := by
  refine wp.leaves (P := Configured) ?_
  simp only [Auth.verifyTotpSetup, wp_bind, wp_ensure, wp_okOr]
  refine wp_fetchUser (fun row hrow => ⟨fun secret hsecret => ⟨fun _ => ?_, fun _ => h⟩, fun _ => h⟩) h
  refine wp_updateTotp (h.updateTotp fun v hv hid _ => ?_) h
  rw [AuthDb.find_user hrow hv hid, hsecret]
  rfl

theorem Configured.disableTotp (h : Configured db) (now : ℤ) (code : String) :
    Configured (leaves (disableTotp x now fails user code) db) := by
  refine wp.leaves (P := Configured) ?_
  simp only [Auth.disableTotp, wp_bind, wp_ensure, wp_okOr]
  refine wp_fetchUser (fun row hrow => ⟨fun _ => ⟨fun secret hsecret => ⟨fun _ => ?_, fun _ => h⟩,
    fun _ => h⟩, fun _ => h⟩) h
  exact wp_updateTotp (h.updateTotp fun _ _ _ henabled => by cases henabled) h

end Configured

/-! ## Logging in -/

section Login

variable {x : Crates} {cfg : AuthConfig} {c : Call} {fails : Faults} {req : LoginRequest}
  {db : AuthDb} {u : User}

/-- The request carries a code that the user's secret accepts. -/
def CarriesCode (x : Crates) (c : Call) (req : LoginRequest) (u : User) : Prop :=
  ∃ secret ∈ u.totpSecret, ∃ code ∈ req.mfaCode,
    verifyTotp x.sha1 (c.now / 30).toNat secret (trim isWhiteSpace code) = true

/-- A login returns no tokens for a user with the factor enabled, unless the request carries such a
code. -/
def AsksSecondFactor (x : Crates) (cfg : AuthConfig) (c : Call) (fails : Faults)
    (req : LoginRequest) (db : AuthDb) : Prop :=
  wp (login x cfg c fails req)
    (fun res _ => ∀ u ∈ db.users, u.id = res.user.id → u.totpEnabled = true → CarriesCode x c req u)
    (fun _ _ => True) db

/-- The user is found, active, and the password is theirs. -/
structure KnowsPassword (x : Crates) (fails : Faults) (req : LoginRequest) (db : AuthDb) (u : User) :
    Prop where
  query : fails .user = false
  found : db.activeUser (x.toLowercase (trim isWhiteSpace req.email)) = some u
  password : x.verifyPassword req.password u.passwordHash = .ok true

/-- Both tokens get signed, and the refresh token stored. -/
structure CanIssue (x : Crates) (cfg : AuthConfig) (c : Call) (fails : Faults) (u : User) : Prop where
  accessExp : isDateTime (c.now + cfg.accessTokenExpirySecs) = true
  access : (x.sign (accessClaims cfg c.now u.id u.email c.accessJti).toJson cfg.jwtSecret).isSome
  refreshExp : isDateTime (c.now + cfg.refreshTokenExpirySecs) = true
  refresh : (x.sign (refreshClaims cfg c.now u.id u.email c.refreshJti).toJson cfg.jwtSecret).isSome
  stored : fails .storeToken = false

/-- The second query fails, or finds no secret. -/
def MissesSecret (fails : Faults) (u : User) : Prop := fails .mfa = true ∨ u.totpSecret = none

/-- What the second factor's check asks of the request. -/
def Passes (x : Crates) (c : Call) (mfaRow : Option (Bool × Option String))
    (mfaCode : Option String) : Prop :=
  ∀ secret, mfaRow = some (true, some secret) → trim isWhiteSpace (mfaCode.getD "") ≠ "" ∧
    verifyTotp x.sha1 (c.now / 30).toNat secret (trim isWhiteSpace (mfaCode.getD "")) = true

@[simp] theorem wp_logAudit {f : Bool} {user : Uuid} {action details : String} {P : Prop}
    {E : AppError → AuthDb → Prop} :
    wp (logAudit c f user action details) (fun _ _ => P) E db ↔ P := by
  rw [logAudit]
  split
  · exact wp_pure ()
  · exact wp_modify _

@[simp] theorem wp_checkSecondFactor {user : Uuid} {mfaRow : Option (Bool × Option String)}
    {mfaCode : Option String} {Q : Unit → AuthDb → Prop} :
    wp (checkSecondFactor x c fails user mfaRow mfaCode) Q (fun _ _ => True) db ↔
      (Passes x c mfaRow mfaCode → Q () db) := by
  unfold checkSecondFactor
  split
  case h_1 secret =>
    have hpasses : Passes x c (some (true, some secret)) mfaCode ↔
        trim isWhiteSpace (mfaCode.getD "") ≠ "" ∧
          verifyTotp x.sha1 (c.now / 30).toNat secret (trim isWhiteSpace (mfaCode.getD "")) = true := by
      simp [Passes]
    simp only [wp_bind, wp_ensure, decide_eq_true_eq, hpasses, and_imp, imp_true_iff, and_true]
    refine imp_congr_right fun _ => ?_
    split
    · rename_i hcode
      simp [hcode]
    · rename_i hcode
      simp [hcode]
  case h_2 hrow =>
    have hpasses : Passes x c mfaRow mfaCode := fun secret h => absurd h (hrow secret)
    simp [hpasses]

@[simp] theorem wp_generateTokenPair {user : Uuid} {email : String} {P : Prop} :
    wp (generateTokenPair x cfg c user email) (fun _ _ => P) (fun _ _ => True) db ↔
      (isDateTime (c.now + cfg.accessTokenExpirySecs) = true →
        (x.sign (accessClaims cfg c.now user email c.accessJti).toJson cfg.jwtSecret).isSome →
        isDateTime (c.now + cfg.refreshTokenExpirySecs) = true →
        (x.sign (refreshClaims cfg c.now user email c.refreshJti).toJson cfg.jwtSecret).isSome → P) := by
  simp only [generateTokenPair, wp_bind, wp_ensure, wp_okOr, wp_pure, imp_true_iff, and_true,
    Option.isSome_iff_exists, forall_exists_index]

@[simp] theorem wp_storeRefreshToken {f : Bool} {user : Uuid} {token : String} {P : Prop} :
    wp (storeRefreshToken x c f user token) (fun _ _ => P) (fun _ _ => True) db ↔ (f = false → P) := by
  simp only [storeRefreshToken, wp_bind, wp_ensure, wp_modify, imp_true_iff, and_true,
    Bool.not_eq_true']

/-- A login ends well for one user, who has passed all checks. -/
theorem wp_login {P : Uuid → Prop} :
    wp (login x cfg c fails req) (fun res _ => P res.user.id) (fun _ _ => True) db ↔
      ∀ u, KnowsPassword x fails req db u →
        Passes x c (if fails .mfa then none else db.mfaRow u.id) req.mfaCode →
        CanIssue x cfg c fails u → P u.id := by
  simp only [login, wp_bind, wp_ensure, wp_get, wp_okOr, imp_true_iff, and_true, Bool.not_eq_true']
  constructor
  · intro h u hu hpasses hcan
    have hwp := h hu.query u hu.found
    simp only [hu.password, wp_bind, wp_checkSecondFactor, wp_generateTokenPair,
      wp_storeRefreshToken, wp_logAudit, wp_pure] at hwp
    exact hwp hpasses hcan.accessExp hcan.access hcan.refreshExp hcan.refresh hcan.stored
  · intro h hquery u hfound
    cases hpassword : x.verifyPassword req.password u.passwordHash with
    | error e => trivial
    | ok valid =>
      cases valid with
      | false => simp
      | true =>
        simp only [wp_bind, wp_checkSecondFactor, wp_generateTokenPair, wp_storeRefreshToken,
          wp_logAudit, wp_pure]
        exact fun hpasses haccessExp haccess hrefreshExp hrefresh hstored =>
          h u ⟨hquery, hfound, hpassword⟩ hpasses ⟨haccessExp, haccess, hrefreshExp, hrefresh, hstored⟩

/-- The second query reads the row of the user that the first found. -/
theorem KnowsPassword.mfaRow (h : KnowsPassword x fails req db u) :
    db.mfaRow u.id = some (u.totpEnabled, u.totpSecret) := by
  have hmem : u ∈ db.users := List.mem_of_find?_eq_some h.found
  cases hrow : db.users.find? fun v => v.id = u.id with
  | none => simpa using List.find?_eq_none.mp hrow u hmem
  | some v =>
    rw [AuthDb.mfaRow, hrow, AuthDb.find_user hrow hmem rfl]
    rfl

/-- If the secret is found, who passes has sent a code it accepts. -/
theorem KnowsPassword.carriesCode (h : KnowsPassword x fails req db u)
    (henabled : u.totpEnabled = true) (hfound : ¬ MissesSecret fails u)
    (hpasses : Passes x c (if fails .mfa then none else db.mfaRow u.id) req.mfaCode) :
    CarriesCode x c req u := by
  obtain ⟨hquery, hsecret⟩ := not_or.mp hfound
  obtain ⟨secret, hsecret⟩ := Option.ne_none_iff_exists'.mp hsecret
  rw [if_neg hquery, h.mfaRow, henabled, hsecret] at hpasses
  obtain ⟨hcode, hverify⟩ := hpasses secret rfl
  cases hmfa : req.mfaCode with
  | none => exact absurd (by rw [hmfa]; rfl) hcode
  | some code =>
    rw [hmfa] at hverify
    exact ⟨secret, hsecret, code, hmfa, hverify⟩

/-- If not, everyone passes. -/
theorem KnowsPassword.passes (h : KnowsPassword x fails req db u) (hmissed : MissesSecret fails u) :
    Passes x c (if fails .mfa then none else db.mfaRow u.id) req.mfaCode := by
  intro secret hrow
  rw [h.mfaRow] at hrow
  rcases hmissed with hquery | hsecret
  · rw [if_pos hquery] at hrow
    cases hrow
  · simp [hsecret] at hrow

/-- **What a login asks.**  It asks users with the factor enabled for a code, unless it issues tokens
after its second query failed, or found no secret. -/
theorem asksSecondFactor_iff :
    AsksSecondFactor x cfg c fails req db ↔
      ∀ u, KnowsPassword x fails req db u → u.totpEnabled = true → CanIssue x cfg c fails u →
        MissesSecret fails u → CarriesCode x c req u := by
  rw [AsksSecondFactor,
    @wp_login _ _ _ _ _ _ fun id => ∀ u ∈ db.users, u.id = id → u.totpEnabled = true →
      CarriesCode x c req u]
  constructor
  · intro h u hu henabled hcan hmissed
    exact h u hu (hu.passes hmissed) hcan u (List.mem_of_find?_eq_some hu.found) rfl henabled
  · intro h u hu hpasses hcan v hv hid henabled
    obtain rfl : v = u :=
      List.inj_on_of_nodup_map db.pk hv (List.mem_of_find?_eq_some hu.found) hid
    by_cases hmissed : MissesSecret fails v
    · exact h v hu henabled hcan hmissed
    · exact hu.carriesCode henabled hmissed hpasses

/-- Where whoever has the factor enabled has a secret, only a failed query lets a login through. -/
theorem Configured.asksSecondFactor (h : Configured db) (hquery : fails .mfa = false) :
    AsksSecondFactor x cfg c fails req db := by
  rw [asksSecondFactor_iff]
  intro u hu henabled _ hmissed
  have hsecret := h u (List.mem_of_find?_eq_some hu.found) henabled
  rcases hmissed with hfails | hnone
  · rw [hquery] at hfails
    cases hfails
  · rw [hnone] at hsecret
    cases hsecret

end Login

open Noon Pcos.Sample

/-- Alice has enabled the factor. -/
def aliceRow : User :=
  ⟨alice, "alice@example.com", "Alice", passwordHash, true, some "JBSWY3DPEHPK3PXP", true, 0, 0⟩

/-- With the second query failing, her password is enough for her tokens. -/
theorem not_asksSecondFactor_failedQuery :
    ¬ AsksSecondFactor crates config atNoon (fun q => q = .mfa) ⟨"alice@example.com", "password", none⟩
      ⟨[aliceRow], by decide, [], []⟩ := by
  intro h
  have hknows : KnowsPassword crates (fun q => q = .mfa) ⟨"alice@example.com", "password", none⟩
      ⟨[aliceRow], by decide, [], []⟩ aliceRow := ⟨rfl, by decide, by decide⟩
  have hcan : CanIssue crates config atNoon (fun q => q = .mfa) aliceRow :=
    ⟨by decide, by decide, by decide, by decide, rfl⟩
  have hcarries := (@wp_login _ _ _ _ _ _ fun id => ∀ u ∈ [aliceRow], u.id = id →
    u.totpEnabled = true → CarriesCode crates atNoon ⟨"alice@example.com", "password", none⟩ u).mp h
      aliceRow hknows (hknows.passes (Or.inl rfl)) hcan aliceRow (by simp) rfl rfl
  obtain ⟨_, _, _, hcode, _⟩ := hcarries
  cases hcode

end Pcos.Auth
