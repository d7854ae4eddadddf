import Pcos.Backend.Recovery
import Pcos.Foundations.Rotation
import Pcos.Foundations.Runs

/-!
# Backend/Sessions — refreshes, logouts, changes of the password and recoveries, query by query

    refresh    SELECT row ──▸ UPDATE row ──▸ INSERT row, answer
    change     SELECT user ──▸ UPDATE user ──▸ UPDATE all rows of the user, answer
    recovery   SELECT user ──▸ SELECT key ──▸ UPDATE user ──▸ UPDATE key ──▸ UPDATE all rows, answer

Each arrow waits, so other requests come in.  For the refresh tokens this is a rotation
(`step_rotation`).
-/

namespace Pcos.Auth

open Foundations Mnemonic

/-! ## Requests -/

/-- A request under way, by what it has read and done so far. -/
inductive Ticket
  | read (c : Call) (claims : Claims) (row : RefreshToken)
  | rotated (c : Call) (claims : Claims) (row : RefreshToken)
  | changing (now : ℤ) (user : Uuid) (newHash : String)
  | located (now : ℤ) (salt : String) (user : Uuid) (hash newPassword : String)
  | found (now : ℤ) (user : Uuid) (key newHash : String)
  | reset (user : Uuid) (key : String)
  | leaving (user : Uuid)
  deriving DecidableEq

/-- A phrase that was generated. -/
structure Generated where
  user : Uuid
  phrase : String
  key : String
  deriving DecidableEq

/-- The tables, the requests under way, and what has happened: the hashes of the refresh tokens given
out, of those exchanged, and of those whose user's were all revoked, or that come of such; the
phrases generated, and the keys that have reset a password. -/
structure Sessions where
  accounts : Accounts
  flight : List Ticket
  issued : List (Uuid × String)
  exchanged : List String
  stale : List String
  generated : List Generated
  resets : List String

inductive SessionEvent
  /-- Registration, a login, or the enrolment of a device. -/
  | grant (c : Call) (user : Uuid) (email : String) (expiresAt : ℤ)
  | refresh (c : Call) (token : String)
  | logout (token : String)
  | changePassword (now : ℤ) (salt : String) (user : Uuid) (req : ChangePasswordRequest)
  | generate (now : ℤ) (id user : Uuid) (entropy : Entropy)
  | recover (now : ℤ) (salt : String) (req : VerifyRecoveryRequest)
  /-- A request goes on with its next query, which fails or not. -/
  | proceed (t : Ticket) (fails : Bool)
  /-- The hourly task. -/
  | purge (now : ℤ)
  /-- Something else happens to the users. -/
  | users (users : List User) (pk : (users.map User.id).Nodup)

/-- The claims of a refresh token, and its live row. -/
def checkRefresh (x : Crates) (cfg : AuthConfig) (c : Call) (token : String) (db : AuthDb) :
    Except AppError (Claims × RefreshToken) :=
  match validateToken x c.now token cfg.jwtSecret with
  | none => .error .jwt
  | some claims =>
    match db.liveToken c.now (hashToken x token) with
    | none => .error (.unauthorized "Invalid or expired refresh token")
    | some stored => .ok (claims, stored)

/-- The last query of a refresh. -/
def renewTokens (x : Crates) (cfg : AuthConfig) (c : Call) (claims : Claims) : Handler TokenPair := do
  let tokens ← generateTokenPair x cfg c claims.sub claims.email
  storeRefreshToken x c false claims.sub tokens.refreshToken
  pure tokens

namespace Sessions

def setDb (s : Sessions) (db : AuthDb) : Sessions := { s with accounts := { s.accounts with db := db } }

/-- A request comes in, and may wait. -/
def arrive (s : Sessions) (t : Except AppError Ticket) : Sessions :=
  { s with flight := s.flight ++ t.toOption.toList }

/-- A request has gone on, and may wait again. -/
def advance (s : Sessions) (t : Ticket) (next : Option Ticket) (accounts : Accounts) : Sessions :=
  { s with accounts := accounts, flight := s.flight.erase t ++ next.toList }

/-- A refresh token is given out. -/
def issue (s : Sessions) (user : Uuid) (hash : String) : Sessions :=
  { s with issued := s.issued ++ [(user, hash)] }

/-- A refresh token is exchanged for another. -/
def exchange (s : Sessions) (old new : String) : Sessions :=
  { s with
    exchanged := s.exchanged ++ [old]
    stale := s.stale ++ if old ∈ s.stale then [new] else [] }

/-- All tokens of a user are stale. -/
def retire (s : Sessions) (user : Uuid) : Sessions :=
  { s with stale := s.stale ++ (s.issued.filter fun i => i.1 = user).map Prod.snd }

section Step

variable (L : WordList) (x : Crates) (u : Cases) (cfg : AuthConfig)

/-- The next query of a request, if it does not fail. -/
def next (s : Sessions) (t : Ticket) : Sessions :=
  let a := s.accounts
  match t with
  | .read c claims row =>
    s.advance t (some (.rotated c claims row)) { a with db := a.db.revoke fun r => r.id = row.id }
  | .rotated c claims row =>
    match renewTokens x cfg c claims a.db with
    | .error _ _ => s.advance t none a
    | .ok tokens db =>
      let hash := hashToken x tokens.refreshToken
      ((s.advance t none { a with db := db }).issue claims.sub hash).exchange row.tokenHash hash
  | .changing now user newHash => s.advance t (some (.leaving user)) (a.setPassword user newHash now)
  | .located now salt user hash newPassword =>
    s.advance t ((findKey x salt user hash newPassword a).toOption.map fun found =>
      .found now user found.1 found.2) a
  | .found now user key newHash =>
    { s.advance t (some (.reset user key)) (a.setPassword user newHash now) with
      resets := s.resets ++ [key] }
  | .reset user key => s.advance t (some (.leaving user)) (a.useKey key)
  | .leaving user => (s.advance t none (a.revokeAll user)).retire user

def step (s : Sessions) : SessionEvent → Sessions
  | .grant c user email expiresAt =>
    match grantTokens x cfg c false user email expiresAt s.accounts.db with
    | .error _ _ => s
    | .ok tokens db => (s.setDb db).issue user (hashToken x tokens.refreshToken)
  | .refresh c token =>
    s.arrive ((checkRefresh x cfg c token s.accounts.db).map fun r => .read c r.1 r.2)
  | .logout token => s.setDb (s.accounts.db.revoke fun r => r.tokenHash = hashToken x token)
  | .changePassword now salt user req =>
    s.arrive ((checkChange x salt user req s.accounts.db).map fun newHash => .changing now user newHash)
  | .generate now id user entropy =>
    match generateRecoveryPhrase L x now id user entropy.1 s.accounts with
    | .error _ _ => s
    | .ok (phrase, key) a =>
      { s with accounts := a, generated := s.generated ++ [⟨user, phrase, key⟩] }
  | .recover now salt req =>
    s.arrive do
      let hash ← checkRecovery L x u req
      let user ← findRecovered x req s.accounts
      pure (.located now salt user hash req.newPassword)
  | .proceed t fails =>
    if t ∉ s.flight then s
    else if fails then s.advance t none s.accounts
    else s.next x cfg t
  | .purge now => s.setDb (s.accounts.db.purgeTokens now)
  | .users users pk => s.setDb { s.accounts.db with users := users, pk := pk }

end Step

/-- Nothing has happened. -/
def start (users : List User) (pk : (users.map User.id).Nodup) : Sessions :=
  ⟨⟨⟨users, pk, [], []⟩, []⟩, [], [], [], [], [], []⟩

/-! ## The rotation of the refresh tokens -/

/-- No token is exchanged twice, and none that is stale is live. -/
structure Rotates (s : Sessions) : Prop where
  once : s.exchanged.Nodup
  dead : ∀ hash ∈ s.stale, ∀ now, s.accounts.db.liveToken now hash = none

end Sessions

/-- The row of a refresh that has read it… -/
def Ticket.reads : Ticket → Option RefreshToken
  | .read _ _ row => some row
  | _ => none

/-- …and of one that has revoked it. -/
def Ticket.revoked : Ticket → Option RefreshToken
  | .rotated _ _ row => some row
  | _ => none

/-- What a safe run avoids: that a refresh reads a row that another has read and not yet revoked, and
that the tokens of a user are revoked while a refresh of one is under way. -/
def Orderly (x : Crates) (cfg : AuthConfig) (s : Sessions) : SessionEvent → Prop
  | .refresh c token => ∀ claims row, checkRefresh x cfg c token s.accounts.db = .ok (claims, row) →
    ∀ t ∈ s.flight, ∀ other ∈ t.reads, other.tokenHash ≠ row.tokenHash
  | .proceed (.leaving user) false =>
    ∀ t ∈ s.flight, ∀ row, t.reads = some row ∨ t.revoked = some row → row.userId ≠ user
  | _ => True

/-- New refresh tokens are new, and so are their hashes. -/
def FreshTokens (x : Crates) (cfg : AuthConfig) (s : Sessions) : SessionEvent → Prop
  | .grant c user email expiresAt => ∀ tokens db,
    grantTokens x cfg c false user email expiresAt s.accounts.db = .ok tokens db →
    hashToken x tokens.refreshToken ∉ s.issued.map Prod.snd
  | .proceed (.rotated c claims _) false => ∀ tokens db,
    renewTokens x cfg c claims s.accounts.db = .ok tokens db →
    hashToken x tokens.refreshToken ∉ s.issued.map Prod.snd
  | _ => True

namespace Sessions

open Rotation

def toToken (r : RefreshToken) : Token Uuid Uuid String := ⟨r.id, r.userId, r.tokenHash, r.revoked⟩

/-- The rotation that a server is in. -/
def rotation (s : Sessions) : State Uuid Uuid String where
  rows := s.accounts.db.refreshTokens.map toToken
  reading := (s.flight.filterMap Ticket.reads).map toToken
  rotated := (s.flight.filterMap Ticket.revoked).map toToken
  issued := s.issued
  exchanged := s.exchanged
  stale := s.stale

variable {L : WordList} {x : Crates} {u : Cases} {cfg : AuthConfig} {s : Sessions} {e : SessionEvent}

theorem weaker_revoke (db : AuthDb) (p : RefreshToken → Bool) (q : Token Uuid Uuid String → Bool)
    (hpq : ∀ r, q (toToken r) = p r) :
    Weaker (db.refreshTokens.map toToken) ((db.revoke p).refreshTokens.map toToken) := by
  have heq : (db.revoke p).refreshTokens.map toToken = (db.refreshTokens.map toToken).map fun r =>
      if q r then { r with revoked := true } else r := by
    rw [AuthDb.revoke, List.map_map, List.map_map]
    refine List.map_congr_left fun r _ => ?_
    rw [Function.comp_apply, Function.comp_apply, hpq, apply_ite toToken]
    rfl
  exact heq ▸ Weaker.revoke _ q

theorem weaker_purge (db : AuthDb) (now : ℤ) :
    Weaker (db.refreshTokens.map toToken) ((db.purgeTokens now).refreshTokens.map toToken) := by
  refine ⟨?_, fun r' hr' => ?_⟩
  · exact (List.filter_sublist.map _).map _
  · exact ⟨r', (List.filter_sublist.map _).subset hr', rfl, rfl, rfl, id⟩

/-- What is to be revoked is. -/
theorem revoked_of_mem {db : AuthDb} {p : RefreshToken → Bool} {r : RefreshToken}
    (hr : r ∈ (db.revoke p).refreshTokens) (h : p r = true) : r.revoked = true := by
  obtain ⟨r₀, -, rfl⟩ := List.mem_map.mp hr
  by_cases hp₀ : p r₀ = true
  · rw [if_pos hp₀]
  · rw [if_neg hp₀] at h
    exact absurd h hp₀

/-- A request that is not a refresh is nothing to the rotation. -/
def Ticket.quiet (t : Ticket) : Prop := t.reads = none ∧ t.revoked = none

theorem grantTokens_spec {c : Call} {user : Uuid} {email : String} {expiresAt : ℤ} {db : AuthDb} :
    wp (grantTokens x cfg c false user email expiresAt)
      (fun tokens db' => db' = db.insertToken
        ⟨c.rowId, user, hashToken x tokens.refreshToken, expiresAt, false, c.now⟩)
      (fun _ _ => True) db := by
  simp only [grantTokens, generateTokenPair, wp_bind, wp_ensure, wp_okOr, wp_modify, wp_pure,
    imp_true_iff, and_true]

theorem renewTokens_spec {c : Call} {claims : Claims} {db : AuthDb} :
    wp (renewTokens x cfg c claims)
      (fun tokens db' => db' = db.insertToken ⟨c.rowId, claims.sub, hashToken x tokens.refreshToken,
        c.now + 7 * 24 * 3600, false, c.now⟩)
      (fun _ _ => True) db := by
  simp only [renewTokens, generateTokenPair, storeRefreshToken, wp_bind, wp_ensure, wp_okOr,
    wp_modify, wp_pure, imp_true_iff, and_true]

/-- A request that comes in waits as what its checks have led to. -/
theorem mem_arrived {α : Type} {y : Except AppError α} {f : α → Ticket} {t : Ticket}
    (ht : t ∈ (y.map f).toOption.toList) : ∃ r, t = f r := by
  cases y with
  | error e => cases ht
  | ok r => exact ⟨r, List.mem_singleton.mp ht⟩

theorem mem_arrived_bind {α : Type} {y : Except AppError α} {f : α → Except AppError Ticket} {t : Ticket}
    (ht : t ∈ (y >>= f).toOption.toList) : ∃ r, t ∈ (f r).toOption.toList := by
  cases y with
  | error e => cases ht
  | ok r => exact ⟨r, ht⟩

/-- Where the rows are the same or weaker, and the request waits as a quiet one, if at all. -/
theorem step_advance {t : Ticket} {next : Option Ticket} {a : Accounts}
    (hrows : Weaker (s.accounts.db.refreshTokens.map toToken) (a.db.refreshTokens.map toToken))
    (hnext : ∀ t' ∈ next.toList, Ticket.quiet t') : Step s.rotation (s.advance t next a).rotation :=
  .weaken hrows
    (map_subperm _ (filterMap_quiet List.erase_sublist fun t' ht' => (hnext t' ht').1))
    (map_subperm _ (filterMap_quiet List.erase_sublist fun t' ht' => (hnext t' ht').2))

theorem step_arrive {t : Except AppError Ticket} (ht : ∀ t' ∈ t.toOption.toList, Ticket.quiet t') :
    Step s.rotation (s.arrive t).rotation :=
  .weaken (Weaker.refl _)
    (map_subperm _ (filterMap_quiet (List.Sublist.refl _) fun t' ht' => (ht t' ht').1))
    (map_subperm _ (filterMap_quiet (List.Sublist.refl _) fun t' ht' => (ht t' ht').2))

/-- A refresh token is given out. -/
theorem step_grant {row : RefreshToken} (hnew : row.tokenHash ∉ s.issued.map Prod.snd) :
    Step s.rotation
      ((s.setDb (s.accounts.db.insertToken row)).issue row.userId row.tokenHash).rotation := by
  have heq : ((s.setDb (s.accounts.db.insertToken row)).issue row.userId row.tokenHash).rotation =
      { s.rotation with
        rows := s.rotation.rows ++ [toToken row]
        issued := s.rotation.issued ++ [((toToken row).owner, (toToken row).hash)] } := by
    simp only [rotation, issue, setDb, AuthDb.insertToken, List.map_append, List.map_singleton]
    rfl
  exact heq ▸ .grant hnew

/-- A refresh reads a live row. -/
theorem step_read {c : Call} {claims : Claims} {row : RefreshToken}
    (hrow : row ∈ s.accounts.db.refreshTokens) (hlive : row.revoked = false)
    (halone : ∀ t ∈ s.flight, ∀ other ∈ t.reads, other.tokenHash ≠ row.tokenHash) :
    Step s.rotation (s.arrive (.ok (.read c claims row))).rotation := by
  have heq : (s.arrive (.ok (.read c claims row))).rotation =
      { s.rotation with reading := s.rotation.reading ++ [toToken row] } := by
    simp only [rotation, arrive, Except.toOption, Option.toList_some, List.filterMap_append,
      List.map_append]
    simp [Ticket.reads, Ticket.revoked]
  have hmem : toToken row ∈ s.rotation.rows := List.mem_map_of_mem hrow
  rw [heq]
  refine .read hmem hlive (fun t ht => ?_) List.perm_append_comm
  obtain ⟨other, hother, rfl⟩ := List.mem_map.mp ht
  obtain ⟨t', ht', hreads⟩ := List.mem_filterMap.mp hother
  exact halone t' ht' other hreads

/-- A refresh revokes the row it has read. -/
theorem step_rotate {c : Call} {claims : Claims} {row : RefreshToken}
    (ht : .read c claims row ∈ s.flight) :
    Step s.rotation (s.next x cfg (.read c claims row)).rotation := by
  have hreading : (s.flight.filterMap Ticket.reads).Perm
      (row :: (s.flight.erase (.read c claims row)).filterMap Ticket.reads) := filterMap_perm ht
  have hrotated : (s.flight.erase (.read c claims row)).filterMap Ticket.revoked =
      s.flight.filterMap Ticket.revoked := filterMap_erase rfl
  have hweaker : Weaker s.rotation.rows
      ((s.accounts.db.revoke fun r => r.id = row.id).refreshTokens.map toToken) :=
    weaker_revoke _ _ (fun r => r.id = row.id) fun _ => rfl
  have hread : s.rotation.reading.Perm
      (toToken row :: (s.next x cfg (.read c claims row)).rotation.reading) := by
    have hnone : [Ticket.rotated c claims row].filterMap Ticket.reads = [] := rfl
    simpa only [rotation, next, advance, Option.toList_some, List.filterMap_append, hnone,
      List.append_nil, List.map_cons] using hreading.map toToken
  have hrevoked : (s.next x cfg (.read c claims row)).rotation.rotated.Perm
      (toToken row :: s.rotation.rotated) := by
    have hsome : [Ticket.rotated c claims row].filterMap Ticket.revoked = [row] := rfl
    simp only [rotation, next, advance, Option.toList_some, List.filterMap_append, hrotated, hsome,
      List.map_append]
    exact List.perm_append_comm
  refine .rotate hread hrevoked hweaker fun r hr hid => ?_
  obtain ⟨r', hr', rfl⟩ := List.mem_map.mp hr
  exact revoked_of_mem hr' (decide_eq_true hid)

/-- A refresh inserts its new row, and is answered. -/
theorem step_exchange {c : Call} {claims : Claims} {row new : RefreshToken}
    (ht : .rotated c claims row ∈ s.flight) (hnew : new.tokenHash ∉ s.issued.map Prod.snd) :
    Step s.rotation (((s.advance (.rotated c claims row) none
      { s.accounts with db := s.accounts.db.insertToken new }).issue new.userId
        new.tokenHash).exchange row.tokenHash new.tokenHash).rotation := by
  have hrotated : (s.flight.filterMap Ticket.revoked).Perm
      (row :: (s.flight.erase (.rotated c claims row)).filterMap Ticket.revoked) := filterMap_perm ht
  have hreading : (s.flight.erase (.rotated c claims row)).filterMap Ticket.reads =
      s.flight.filterMap Ticket.reads := filterMap_erase rfl
  have hperm : s.rotation.rotated.Perm (toToken row ::
      ((s.flight.erase (.rotated c claims row)).filterMap Ticket.revoked).map toToken) :=
    hrotated.map toToken
  have hfresh : (toToken new).hash ∉ s.rotation.issued.map Prod.snd := hnew
  have hstep := Step.exchange hperm hfresh
  refine (congrArg (Step s.rotation) ?_).mp hstep
  simp only [rotation, exchange, issue, advance, AuthDb.insertToken, Option.toList_none,
    List.append_nil, List.map_append, List.map_singleton, hreading]
  rfl

/-- All rows of a user are revoked. -/
theorem step_leave {user : Uuid}
    (halone : ∀ t ∈ s.flight, ∀ row, t.reads = some row ∨ t.revoked = some row → row.userId ≠ user) :
    Step s.rotation (s.next x cfg (.leaving user)).rotation := by
  have hreading : (s.flight.erase (.leaving user)).filterMap Ticket.reads =
      s.flight.filterMap Ticket.reads := filterMap_erase rfl
  have hrotated : (s.flight.erase (.leaving user)).filterMap Ticket.revoked =
      s.flight.filterMap Ticket.revoked := filterMap_erase rfl
  have hweaker : Weaker s.rotation.rows ((s.accounts.db.revokeAll user).refreshTokens.map toToken) :=
    weaker_revoke _ _ (fun r => r.owner = user) fun _ => rfl
  have hstep := Step.revokeAll user ?_ hweaker ?_
  · refine (congrArg (Step s.rotation) ?_).mp hstep
    simp only [rotation, next, retire, advance, Accounts.revokeAll, Option.toList_none,
      List.append_nil, hreading, hrotated]
  · intro t ht
    have hrow : ∃ t' ∈ s.flight, ∃ row, (t'.reads = some row ∨ t'.revoked = some row) ∧ toToken row = t := by
      rcases List.mem_append.mp ht with ht | ht
      · obtain ⟨row, hrow, rfl⟩ := List.mem_map.mp ht
        obtain ⟨t', ht', hreads⟩ := List.mem_filterMap.mp hrow
        exact ⟨t', ht', row, Or.inl hreads, rfl⟩
      · obtain ⟨row, hrow, rfl⟩ := List.mem_map.mp ht
        obtain ⟨t', ht', hrevoked⟩ := List.mem_filterMap.mp hrow
        exact ⟨t', ht', row, Or.inr hrevoked, rfl⟩
    obtain ⟨t', ht', row, hrow, rfl⟩ := hrow
    exact halone t' ht' row hrow
  · intro r hr howner
    obtain ⟨r', hr', rfl⟩ := List.mem_map.mp hr
    exact revoked_of_mem hr' (decide_eq_true howner)

/-- A request goes on with its next query. -/
theorem step_next {t : Ticket} (ht : t ∈ s.flight) (he : Orderly x cfg s (.proceed t false))
    (hf : FreshTokens x cfg s (.proceed t false)) : Step s.rotation (s.next x cfg t).rotation := by
  have hsame := Weaker.refl (s.accounts.db.refreshTokens.map toToken)
  cases t with
  | read c claims row => exact step_rotate ht
  | rotated c claims row =>
    simp only [next]
    split
    · exact step_advance hsame fun t' ht' => by cases ht'
    · rename_i tokens db heq
      obtain rfl := renewTokens_spec.of_eq heq
      exact step_exchange ht (hf tokens _ heq)
  | changing now user newHash =>
    exact step_advance hsame fun t' ht' => by rw [List.mem_singleton.mp ht']; exact ⟨rfl, rfl⟩
  | located now salt user hash newPassword =>
    refine step_advance hsame fun t' ht' => ?_
    obtain ⟨f, -, rfl⟩ := Option.map_eq_some_iff.mp (Option.mem_toList.mp ht')
    exact ⟨rfl, rfl⟩
  | found now user key newHash =>
    exact step_advance hsame fun t' ht' => by rw [List.mem_singleton.mp ht']; exact ⟨rfl, rfl⟩
  | reset user key =>
    exact step_advance hsame fun t' ht' => by rw [List.mem_singleton.mp ht']; exact ⟨rfl, rfl⟩
  | leaving user => exact step_leave he

/-- A live row is found by its hash. -/
theorem checkRefresh_spec {c : Call} {token : String} {db : AuthDb} {claims : Claims}
    {row : RefreshToken} (h : checkRefresh x cfg c token db = .ok (claims, row)) :
    row ∈ db.refreshTokens ∧ row.revoked = false := by
  unfold checkRefresh at h
  split at h
  · cases h
  · split at h
    · cases h
    · rename_i stored hlive
      cases h
      have hfound := List.find?_some hlive
      simp only [Bool.and_eq_true, Bool.not_eq_true'] at hfound
      exact ⟨List.mem_of_find?_eq_some hlive, hfound.1.2⟩

theorem generateRecoveryPhrase_spec {now : ℤ} {id user : Uuid} {entropy : Bytes} {a : Accounts} :
    wp (generateRecoveryPhrase L x now id user entropy) (fun _ a' => a'.db = a.db) (fun _ _ => True) a := by
  simp only [generateRecoveryPhrase, wp_bind, wp_get, wp_ensure, wp_set, wp_pure, imp_true_iff, and_true]

/-- **A query is a step of the rotation.** -/
theorem step_rotation (he : Orderly x cfg s e) (hf : FreshTokens x cfg s e) :
    Step s.rotation (s.step L x u cfg e).rotation := by
  cases e with
  | grant c user email expiresAt =>
    simp only [step]
    split
    · exact Step.refl _
    · rename_i tokens db heq
      obtain rfl := grantTokens_spec.of_eq heq
      exact step_grant (hf tokens _ heq)
  | refresh c token =>
    simp only [step]
    cases h : checkRefresh x cfg c token s.accounts.db with
    | error e => exact step_arrive fun t' ht' => by cases ht'
    | ok r =>
      obtain ⟨claims, row⟩ := r
      obtain ⟨hrow, hlive⟩ := checkRefresh_spec h
      exact step_read hrow hlive (he claims row h)
  | logout token =>
    exact .weaken (weaker_revoke _ _ (fun r => r.hash = hashToken x token) fun _ => rfl)
      (List.Subperm.refl _) (List.Subperm.refl _)
  | changePassword now salt user req =>
    refine step_arrive fun t' ht' => ?_
    obtain ⟨newHash, rfl⟩ := mem_arrived ht'
    exact ⟨rfl, rfl⟩
  | generate now id user entropy =>
    simp only [step]
    split
    · exact Step.refl _
    · rename_i phrase key a heq
      have hdb : a.db = s.accounts.db := generateRecoveryPhrase_spec.of_eq heq
      refine (congrArg (Step s.rotation) ?_).mp (Step.refl _)
      simp only [rotation, hdb]
  | recover now salt req =>
    refine step_arrive fun t' ht' => ?_
    obtain ⟨hash, hhash⟩ := mem_arrived_bind ht'
    obtain ⟨user, huser⟩ := mem_arrived_bind hhash
    rw [List.mem_singleton.mp huser]
    exact ⟨rfl, rfl⟩
  | proceed t fails =>
    simp only [step]
    split
    · exact Step.refl _
    · rename_i hflight
      split
      · exact step_advance (Weaker.refl _) fun t' ht' => by cases ht'
      · rename_i hfails
        rw [Bool.not_eq_true] at hfails
        subst hfails
        exact step_next (not_not.mp hflight) he hf
  | purge now => exact .weaken (weaker_purge _ now) (List.Subperm.refl _) (List.Subperm.refl _)
  | users users pk => exact Step.refl _

theorem sound_start (users : List User) (pk : (users.map User.id).Nodup) :
    Sound (start users pk).rotation := by
  constructor <;> simp [start, rotation, State.spent]

/-- A sound rotation is what the refresh tokens need. -/
theorem rotates_of_sound (h : Sound s.rotation) : Rotates s := by
  refine ⟨h.exchanged_nodup, fun hash hhash now => ?_⟩
  rw [AuthDb.liveToken, List.find?_eq_none]
  intro r hr hlive
  simp only [Bool.and_eq_true, decide_eq_true_eq, Bool.not_eq_true'] at hlive
  have hstale : (toToken r).hash ∈ s.rotation.stale := by
    rw [show (toToken r).hash = hash from hlive.1.1]
    exact hhash
  have hrevoked := h.stale_revoked (toToken r) (List.mem_map_of_mem hr) hstale
  exact absurd (hlive.1.2.symm.trans hrevoked) Bool.false_ne_true

/-- **Refresh tokens rotate** in an orderly run. -/
theorem rotates_of_run {users : List User} {pk : (users.map User.id).Nodup} {es : List SessionEvent}
    (hes : Along (fun s e => Orderly x cfg s e ∧ FreshTokens x cfg s e) (step L x u cfg)
      (start users pk) es) : Rotates (run (step L x u cfg) (start users pk) es) :=
  rotates_of_sound (Along.invariant (P := fun s : Sessions => Sound s.rotation)
    (fun _ _ h he => h.step (step_rotation he.1 he.2)) (sound_start users pk) hes)

end Sessions

end Pcos.Auth
