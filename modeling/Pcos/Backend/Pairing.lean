import Mathlib.Data.Int.Notation
import Pcos.Backend.Paths
import Pcos.Foundations.Dict
import Pcos.Foundations.Runs

/-!
# Backend/Pairing — pairing a device (`device/src/service.rs`)

Sessions live in one store behind a lock.  A call that provisions a device checks its session under
the lock, lets go of it, inserts a device and a refresh token, and takes the lock again for the end;
between these four moments any other call may run.

    check ──lock released──▸ .device ──INSERT──▸ .token ──INSERT──▸ .finish ──lock──▸ response

Rows and results carry the session they stem from, and device rows the request that led to them:
bookkeeping of the model, which no definition reads back.
-/

namespace Pcos

open Foundations

/-! ## Sessions -/

inductive PairingStatus
  | pendingRedeem
  | pendingApproval
  | approved
  | rejected
  /-- Only ever reported. -/
  | expired
deriving DecidableEq

structure CandidateDevice where
  deviceName : String
  deviceType : String
  os : String
  osVersion : String
  agentVersion : String
  clientFingerprint : Option String
  requestedAt : ℤ
deriving DecidableEq

/-- What a device row says of the device. -/
structure DeviceInfo where
  name : String
  deviceType : String
  os : String
  osVersion : String
  agentVersion : String
deriving DecidableEq

def CandidateDevice.info (c : CandidateDevice) : DeviceInfo :=
  ⟨c.deviceName, c.deviceType, c.os, c.osVersion, c.agentVersion⟩

/-- The request that led to a device row: an approval, by its number, or a redemption. -/
inductive Origin
  | approval (i : ℕ)
  | redemption
deriving DecidableEq

/-- A row of `devices`. -/
structure DeviceRow where
  id : Uuid
  userId : Uuid
  info : DeviceInfo
  session : Uuid
  origin : Origin
deriving DecidableEq

/-- A row of `refresh_tokens`. -/
structure RefreshTokenRow where
  userId : Uuid
  token : String
  session : Uuid
deriving DecidableEq

/-- A `RedeemPairingResponse`, with the session and the owner it was minted for. -/
structure RedeemPairingResponse where
  device : DeviceRow
  accessToken : String
  refreshToken : String
  session : Uuid
  owner : Uuid
deriving DecidableEq

structure PairingSession where
  id : Uuid
  userId : Uuid
  userEmail : String
  pairingCode : String
  enrollmentToken : String
  expiresAt : ℤ
  status : PairingStatus
  failedAttempts : ℕ
  candidateDevice : Option CandidateDevice
  redeemResult : Option RedeemPairingResponse
deriving DecidableEq

/-- The sessions by id, and two indexes.  A session is filed under its own id. -/
structure PairingStore where
  sessions : Dict Uuid PairingSession
  codeToId : Dict String Uuid
  tokenToId : Dict String Uuid
  keyed : ∀ {i s}, sessions.get i = some s → s.id = i

theorem keyed_set {sessions : Dict Uuid PairingSession}
    (keyed : ∀ {i s}, sessions.get i = some s → s.id = i) (s₀ : PairingSession) {i : Uuid}
    {s : PairingSession} (h : (sessions.set s₀.id s₀).get i = some s) : s.id = i := by
  rw [Dict.get_set] at h
  split at h
  · rename_i hi
    rw [← Option.some.inj h, hi]
  · exact keyed h

theorem keyed_delete {sessions : Dict Uuid PairingSession}
    (keyed : ∀ {i s}, sessions.get i = some s → s.id = i) (j : Uuid) {i : Uuid}
    {s : PairingSession} (h : (sessions.delete j).get i = some s) : s.id = i := by
  rw [Dict.get_delete] at h
  split at h
  · cases h
  · exact keyed h

namespace PairingStore

def new : PairingStore := ⟨.empty, .empty, .empty, fun h => by simp at h⟩

def insert (st : PairingStore) (session : PairingSession) : PairingStore where
  codeToId := st.codeToId.set session.pairingCode session.id
  tokenToId := st.tokenToId.set session.enrollmentToken session.id
  sessions := st.sessions.set session.id session
  keyed := keyed_set st.keyed session

def getByKey (st : PairingStore) (key : String) : Option PairingSession :=
  (st.codeToId.get key <|> st.tokenToId.get key).bind st.sessions.get

/-- A session changes where it is filed. -/
def modify (st : PairingStore) (session : PairingSession) : PairingStore :=
  { st with
    sessions := st.sessions.set session.id session
    keyed := keyed_set st.keyed session }

def remove (st : PairingStore) (id : Uuid) : PairingStore :=
  match st.sessions.get id with
  | some sess =>
    { sessions := st.sessions.delete id
      codeToId := st.codeToId.delete sess.pairingCode
      tokenToId := st.tokenToId.delete sess.enrollmentToken
      keyed := keyed_delete st.keyed id }
  | none => st

def cleanupExpired (st : PairingStore) (now : ℤ) : PairingStore :=
  ((st.sessions.entries.filter fun e => e.2.expiresAt ≤ now).map Prod.fst).foldl remove st

/-! ### What the operations do to the sessions -/

variable {st : PairingStore} {sess : PairingSession} {key : String}

theorem get_of_getByKey (h : st.getByKey key = some sess) :
    st.sessions.get sess.id = some sess := by
  obtain ⟨id, -, hget⟩ := Option.bind_eq_some_iff.mp h
  rw [st.keyed hget]
  exact hget

@[simp] theorem sessions_modify (st : PairingStore) (sess : PairingSession) :
    (st.modify sess).sessions = st.sessions.set sess.id sess := rfl

@[simp] theorem sessions_insert (st : PairingStore) (sess : PairingSession) :
    (st.insert sess).sessions = st.sessions.set sess.id sess := rfl

theorem get_remove (st : PairingStore) (id i : Uuid) :
    (st.remove id).sessions.get i = if i = id then none else st.sessions.get i := by
  unfold remove
  split
  · exact Dict.get_delete _ _ _
  · rename_i hnone
    split
    · rename_i hi
      rw [hi, hnone]
    · rfl

/-- Cleaning up only takes sessions away. -/
theorem get_cleanupExpired {now : ℤ} {i : Uuid} {s : PairingSession}
    (h : (st.cleanupExpired now).sessions.get i = some s) : st.sessions.get i = some s := by
  unfold cleanupExpired at h
  generalize (st.sessions.entries.filter fun e => e.2.expiresAt ≤ now).map Prod.fst = ids at h
  induction ids generalizing st with
  | nil => exact h
  | cons id ids ih =>
    have := ih h
    rw [get_remove] at this
    split at this
    · cases this
    · exact this

end PairingStore

/-! ## Requests and responses -/

inductive PairingError
  | notFound (message : String)
  | unauthorized (message : String)
  | validation (message : String)
  | database
deriving DecidableEq

/-- The two ways to name a session; the token goes before the code. -/
structure PairingKey where
  pairingCode : Option String
  enrollmentToken : Option String
deriving DecidableEq

def PairingKey.key (k : PairingKey) : Except PairingError String :=
  match k.enrollmentToken <|> k.pairingCode with
  | some key => .ok key
  | none => .error (.validation "Either enrollment_token or pairing_code is required")

/-- What a device says of itself in a claim or a redemption. -/
structure DeviceRequest where
  key : PairingKey
  deviceName : String
  deviceType : String
  os : String
  osVersion : Option String
  agentVersion : Option String
  clientFingerprint : Option String
deriving DecidableEq

def DeviceRequest.info (r : DeviceRequest) : DeviceInfo :=
  ⟨r.deviceName, r.deviceType, r.os, r.osVersion.getD "", r.agentVersion.getD ""⟩

def DeviceRequest.candidate (r : DeviceRequest) (now : ℤ) : CandidateDevice where
  deviceName := r.deviceName
  deviceType := r.deviceType
  os := r.os
  osVersion := r.osVersion.getD ""
  agentVersion := r.agentVersion.getD ""
  clientFingerprint := r.clientFingerprint
  requestedAt := now

structure PairingStatusResponse where
  pairingCode : String
  enrollmentToken : String
  status : PairingStatus
  expiresAt : ℤ
  candidateDevice : Option CandidateDevice
  redeemResult : Option RedeemPairingResponse
deriving DecidableEq

inductive PairingResponse
  | created (pairingCode enrollmentToken : String) (expiresAt : ℤ)
  | status (r : PairingStatusResponse)
  | redeemed (r : RedeemPairingResponse)
  | error (e : PairingError)
deriving DecidableEq

/-- The tokens that a response carries. -/
def PairingResponse.tokens : PairingResponse → Option RedeemPairingResponse
  | .status r => r.redeemResult
  | .redeemed r => some r
  | _ => none

/-- What the session looks like from outside. -/
def PairingSession.report (s : PairingSession) : PairingStatusResponse :=
  ⟨s.pairingCode, s.enrollmentToken, s.status, s.expiresAt, s.candidateDevice, s.redeemResult⟩

/-! ## Calls that provision a device -/

/-- Why a call provisions: the owner approves a candidate, or a device redeems the session. -/
inductive Purpose
  | approve (key : String) (candidate : CandidateDevice) (number : ℕ)
  | redeem (req : DeviceRequest)
deriving DecidableEq

namespace Purpose

def info : Purpose → DeviceInfo
  | .approve _ candidate _ => candidate.info
  | .redeem req => req.info

def origin : Purpose → Origin
  | .approve _ _ number => .approval number
  | .redeem _ => .redemption

end Purpose

/-- What the call is about to do. -/
inductive Stage
  | device
  | token (device : DeviceRow)
  | finish (result : RedeemPairingResponse)
deriving DecidableEq

/-- A call that has passed its check, with the session as it was then. -/
structure Provisioning where
  caller : Uuid
  session : PairingSession
  purpose : Purpose
  stage : Stage
deriving DecidableEq

/-! ## The sections under the lock -/

/-- What a call ends with, or goes on with. -/
inductive Outcome
  | done (r : PairingResponse)
  | provisions (session : PairingSession) (purpose : Purpose)

abbrev unauthorized (message : String) : Outcome := .done (.error (.unauthorized message))

/-- The session that the call goes on to provision. -/
def Outcome.starts : Outcome → Option PairingSession
  | .done _ => none
  | .provisions session _ => some session

namespace PairingStore

/-- `create_pairing_session`, once the owner's email is known. -/
def create (st : PairingStore) (now : ℤ) (userId : Uuid) (email : String)
    (expiresInSeconds : Option ℕ) (id : Uuid) (code token : String) :
    PairingStore × PairingResponse :=
  let ttl : ℕ := max 60 (min 3600 (expiresInSeconds.getD 300))
  let expiresAt := now + 1000 * ttl
  ((st.cleanupExpired now).insert
    ⟨id, userId, email, code, token, expiresAt, .pendingRedeem, 0, none, none⟩,
    .created code token expiresAt)

/-- `claim_pairing_session` -/
def claim (st : PairingStore) (now : ℤ) (req : DeviceRequest) : PairingStore × PairingResponse :=
  match req.key.key with
  | .error e => (st, .error e)
  | .ok key =>
    match st.getByKey key with
    | none => (st, .error (.unauthorized "Invalid or expired pairing code"))
    | some sess =>
      if sess.expiresAt < now then (st, .error (.unauthorized "Pairing session has expired"))
      else if 5 ≤ sess.failedAttempts then
        (st.remove sess.id,
          .error (.unauthorized "Too many failed attempts. Pairing session invalidated."))
      else
        let sess :=
          { sess with candidateDevice := some (req.candidate now), status := .pendingApproval }
        (st.modify sess, .status { sess.report with redeemResult := none })

/-- The first section of `approve_pairing_session`, the approval of that number. -/
def approve (st : PairingStore) (now : ℤ) (userId : Uuid) (key : PairingKey) (approved : Bool)
    (number : ℕ) : PairingStore × Outcome :=
  match key.key with
  | .error e => (st, .done (.error e))
  | .ok key =>
    match st.getByKey key with
    | none => (st, unauthorized "Invalid or expired pairing code")
    | some sess =>
      if sess.userId ≠ userId then (st, unauthorized "You do not own this pairing session")
      else if sess.expiresAt < now then (st, unauthorized "Pairing session has expired")
      else if !approved then
        let sess := { sess with status := .rejected }
        (st.modify sess, .done (.status { sess.report with redeemResult := none }))
      else
        match sess.candidateDevice with
        | none =>
          (st, .done (.error (.validation "No candidate device has claimed this pairing code yet")))
        | some candidate => (st, .provisions sess (.approve key candidate number))

/-- `get_pairing_status` -/
def status (st : PairingStore) (now : ℤ) (key : String) : PairingResponse :=
  match st.getByKey key with
  | none => .error (.unauthorized "Invalid or expired pairing code")
  | some sess =>
    .status { sess.report with status := if sess.expiresAt < now then .expired else sess.status }

/-- The first section of `redeem_pairing_session`. -/
def redeem (st : PairingStore) (now : ℤ) (req : DeviceRequest) : PairingStore × Outcome :=
  match req.key.key with
  | .error e => (st, .done (.error e))
  | .ok key =>
    match st.getByKey key with
    | none => (st, unauthorized "Invalid or expired pairing code")
    | some sess =>
      if sess.expiresAt < now then (st, unauthorized "Pairing session has expired")
      else if sess.status = .rejected then
        (st, unauthorized "Pairing request was rejected by device owner")
      else
        match sess.redeemResult with
        | some result => (st.remove sess.id, .done (.redeemed result))
        | none =>
          if sess.status = .pendingApproval then
            (st, unauthorized "Waiting for device approval on your PCOS Web/Desktop screen")
          else (st, .provisions sess (.redeem req))

/-- The last section: an approval leaves its result in the session its key leads to now, a
redemption removes its session. -/
def finish (st : PairingStore) (p : Provisioning) (result : RedeemPairingResponse) :
    PairingStore :=
  match p.purpose with
  | .approve key _ _ =>
    match st.getByKey key with
    | some sess => st.modify { sess with status := .approved, redeemResult := some result }
    | none => st
  | .redeem _ => st.remove p.session.id

end PairingStore

/-! ### What each section does -/

namespace PairingStore

variable {st : PairingStore} {now : ℤ} {userId : Uuid} {req : DeviceRequest}

/-- The session that the key names, if it has not expired. -/
def named (st : PairingStore) (now : ℤ) (k : PairingKey) : Option PairingSession :=
  match k.key with
  | .error _ => none
  | .ok key => (st.getByKey key).filter fun sess => now ≤ sess.expiresAt

theorem get_of_named {k : PairingKey} {sess : PairingSession} (h : st.named now k = some sess) :
    st.sessions.get sess.id = some sess := by
  unfold named at h
  split at h
  · cases h
  · exact get_of_getByKey (Option.filter_eq_some_iff.mp h).1

/-- A claim fails, ends a session, or records its candidate in a session. -/
theorem claim_cases (st : PairingStore) (now : ℤ) (req : DeviceRequest) :
    (∃ e, st.claim now req = (st, .error e))
    ∨ (∃ id e, st.claim now req = (st.remove id, .error e))
    ∨ ∃ sess r, st.named now req.key = some sess ∧ r.tokens = none
      ∧ st.claim now req = (st.modify
        { sess with candidateDevice := some (req.candidate now), status := .pendingApproval }, r) := by
  unfold claim named
  cases req.key.key with
  | error e => exact Or.inl ⟨e, rfl⟩
  | ok key =>
    dsimp only
    cases hget : st.getByKey key with
    | none => exact Or.inl ⟨_, rfl⟩
    | some sess =>
      dsimp only
      split
      · exact Or.inl ⟨_, rfl⟩
      split
      · exact Or.inr (Or.inl ⟨_, _, rfl⟩)
      · rename_i hexp _
        refine Or.inr (Or.inr ⟨sess, _, Option.filter_some_pos ?_, rfl, rfl⟩)
        exact decide_eq_true (Int.not_lt.mp hexp)

/-- An approval ends without a trace, rejects a session, or goes on to provision it. -/
theorem approve_cases (st : PairingStore) (now : ℤ) (userId : Uuid) (k : PairingKey)
    (approved : Bool) (n : ℕ) :
    (∃ r, r.tokens = none ∧ st.approve now userId k approved n = (st, .done r))
    ∨ (∃ sess r, st.named now k = some sess ∧ sess.userId = userId ∧ approved = false
      ∧ r.tokens = none
      ∧ st.approve now userId k approved n = (st.modify { sess with status := .rejected }, .done r))
    ∨ ∃ sess key candidate, st.named now k = some sess ∧ st.getByKey key = some sess
      ∧ sess.userId = userId ∧ approved = true ∧ sess.candidateDevice = some candidate
      ∧ st.approve now userId k approved n = (st, .provisions sess (.approve key candidate n)) := by
  unfold approve named
  cases k.key with
  | error e => exact Or.inl ⟨_, rfl, rfl⟩
  | ok key =>
    dsimp only
    cases hget : st.getByKey key with
    | none => exact Or.inl ⟨_, rfl, rfl⟩
    | some sess =>
      dsimp only
      split
      · exact Or.inl ⟨_, rfl, rfl⟩
      rename_i howner
      split
      · exact Or.inl ⟨_, rfl, rfl⟩
      rename_i hexp
      have hnamed : (some sess).filter (fun sess => decide (now ≤ sess.expiresAt)) = some sess :=
        Option.filter_some_pos (decide_eq_true (Int.not_lt.mp hexp))
      cases approved with
      | false => exact Or.inr (Or.inl ⟨sess, _, hnamed, not_not.mp howner, rfl, rfl, rfl⟩)
      | true =>
        cases hcand : sess.candidateDevice with
        | none => exact Or.inl ⟨_, rfl, rfl⟩
        | some candidate =>
          exact Or.inr (Or.inr ⟨sess, key, candidate, hnamed, hget, not_not.mp howner, rfl, hcand,
            rfl⟩)

/-- A redemption fails, consumes an approved session, or goes on to provision one. -/
theorem redeem_cases (st : PairingStore) (now : ℤ) (req : DeviceRequest) :
    (∃ e, st.redeem now req = (st, .done (.error e)))
    ∨ (∃ sess result, st.named now req.key = some sess ∧ sess.status ≠ .rejected
      ∧ sess.redeemResult = some result
      ∧ st.redeem now req = (st.remove sess.id, .done (.redeemed result)))
    ∨ ∃ sess, st.named now req.key = some sess ∧ sess.status ≠ .rejected
      ∧ st.redeem now req = (st, .provisions sess (.redeem req)) := by
  unfold redeem named
  cases req.key.key with
  | error e => exact Or.inl ⟨_, rfl⟩
  | ok key =>
    dsimp only
    cases hget : st.getByKey key with
    | none => exact Or.inl ⟨_, rfl⟩
    | some sess =>
      dsimp only
      split
      · exact Or.inl ⟨_, rfl⟩
      rename_i hexp
      have hnamed : (some sess).filter (fun sess => decide (now ≤ sess.expiresAt)) = some sess :=
        Option.filter_some_pos (decide_eq_true (Int.not_lt.mp hexp))
      split
      · exact Or.inl ⟨_, rfl⟩
      rename_i hrejected
      cases hresult : sess.redeemResult with
      | some result => exact Or.inr (Or.inl ⟨sess, result, hnamed, hrejected, hresult, rfl⟩)
      | none =>
        dsimp only
        split
        · exact Or.inl ⟨_, rfl⟩
        · exact Or.inr (Or.inr ⟨sess, hnamed, hrejected, rfl⟩)

/-- A status call reports the tokens of the session it finds. -/
theorem tokens_status (st : PairingStore) (now : ℤ) (key : String) :
    (st.status now key).tokens = (st.getByKey key).bind (·.redeemResult) := by
  unfold status
  cases st.getByKey key <;> rfl

end PairingStore

/-- The response of a call that has provisioned its device. -/
def Provisioning.response (p : Provisioning) (result : RedeemPairingResponse) : PairingResponse :=
  match p.purpose with
  | .approve _ candidate _ =>
    .status { p.session.report with
      status := .approved, candidateDevice := some candidate, redeemResult := some result }
  | .redeem _ => .redeemed result

/-! ## The service -/

/-- The store, the two tables, the calls between two sections, and what has been answered to whom.
`approvals` records the session and its candidate at each approval, `created` the ids in use. -/
structure PairingService where
  store : PairingStore
  devices : List DeviceRow
  refreshTokens : List RefreshTokenRow
  inFlight : List Provisioning
  responses : List (Uuid × PairingResponse)
  approvals : List (Uuid × Option CandidateDevice)
  created : List Uuid

/-- One section of a call, with what it draws from outside: the time, the ids and tokens that are
generated, and whether the database carries out the statement. -/
inductive PairingAction
  | create (now : ℤ) (userId : Uuid) (email : Option String) (expiresInSeconds : Option ℕ)
      (id : Uuid) (code token : String)
  | claim (now : ℤ) (caller : Uuid) (req : DeviceRequest)
  | approve (now : ℤ) (userId : Uuid) (key : PairingKey) (approved : Bool)
  | status (now : ℤ) (caller : Uuid) (key : String)
  | redeem (now : ℤ) (caller : Uuid) (req : DeviceRequest)
  | insertDevice (p : Provisioning) (deviceId : Uuid) (stored : Bool)
  | insertToken (p : Provisioning) (device : DeviceRow) (accessToken refreshToken : String)
      (stored : Bool)
  | finish (p : Provisioning) (result : RedeemPairingResponse)

namespace PairingService

/-- The service as it starts. -/
def start : PairingService := ⟨.new, [], [], [], [], [], []⟩

def respond (s : PairingService) (caller : Uuid) (r : PairingResponse) : PairingService :=
  { s with responses := s.responses ++ [(caller, r)] }

/-- The call leaves, with an answer. -/
def leave (s : PairingService) (p : Provisioning) (r : PairingResponse) : PairingService :=
  { s.respond p.caller r with inFlight := s.inFlight.erase p }

/-- The call goes on to its next stage. -/
def proceed (s : PairingService) (p : Provisioning) (stage : Stage) : PairingService :=
  { s with inFlight := { p with stage := stage } :: s.inFlight.erase p }

/-- What a section under the lock leads to. -/
def conclude (s : PairingService) (caller : Uuid) : PairingStore × Outcome → PairingService
  | (store, .done r) => { s with store := store }.respond caller r
  | (store, .provisions session purpose) =>
    { s with store := store, inFlight := ⟨caller, session, purpose, .device⟩ :: s.inFlight }

/-- An approval that passes is put on record, with the candidate that the store holds. -/
def recordApproval (s : PairingService) : Outcome → PairingService
  | .done _ => s
  | .provisions session _ =>
    { s with
      approvals := s.approvals ++
        [(session.id, (s.store.sessions.get session.id).bind (·.candidateDevice))] }

def step (s : PairingService) : PairingAction → PairingService
  | .create now userId email ttl id code token =>
    match email with
    | none => s.respond userId (.error (.notFound "User not found"))
    | some email =>
      let x := s.store.create now userId email ttl id code token
      { s with store := x.1, created := id :: s.created }.respond userId x.2
  | .claim now caller req =>
    let x := s.store.claim now req
    { s with store := x.1 }.respond caller x.2
  | .approve now userId key approved =>
    let x := s.store.approve now userId key approved s.approvals.length
    (s.recordApproval x.2).conclude userId x
  | .status now caller key => s.respond caller (s.store.status now key)
  | .redeem now caller req => s.conclude caller (s.store.redeem now req)
  | .insertDevice p deviceId stored =>
    if p ∈ s.inFlight ∧ p.stage = .device then
      if stored then
        let row : DeviceRow :=
          ⟨deviceId, p.session.userId, p.purpose.info, p.session.id, p.purpose.origin⟩
        { s.proceed p (.token row) with devices := s.devices ++ [row] }
      else s.leave p (.error .database)
    else s
  | .insertToken p device accessToken refreshToken stored =>
    if p ∈ s.inFlight ∧ p.stage = .token device then
      if stored then
        let result : RedeemPairingResponse :=
          ⟨device, accessToken, refreshToken, p.session.id, p.session.userId⟩
        { s.proceed p (.finish result) with
          refreshTokens := s.refreshTokens ++ [⟨p.session.userId, refreshToken, p.session.id⟩] }
      else s.leave p (.error .database)
    else s
  | .finish p result =>
    if p ∈ s.inFlight ∧ p.stage = .finish result then
      { s.leave p (p.response result) with store := s.store.finish p result }
    else s

end PairingService

namespace Sample

/-- What a phone says of itself, naming the session by its code. -/
def phone : DeviceRequest where
  key := ⟨some "123456", none⟩
  deviceName := "Pixel"
  deviceType := "phone"
  os := "android"
  osVersion := none
  agentVersion := none
  clientFingerprint := none

/-- The session that a user opens at time 0, with code `123456`, token `aa` and five minutes. -/
def opened (id owner : Uuid) : PairingSession :=
  ⟨id, owner, "owner@pcos.local", "123456", "aa", 300000, .pendingRedeem, 0, none, none⟩

/-- …and its opening. -/
def opening (id owner : Uuid) : PairingAction :=
  .create 0 owner (some "owner@pcos.local") none id "123456" "aa"

/-- The session once the phone has claimed it. -/
def claimed (id owner : Uuid) : PairingSession :=
  { opened id owner with
    status := .pendingApproval
    candidateDevice := some (phone.candidate 1000) }

/-- The device row of a call, and what is minted for it. -/
def deviceRow (id : Uuid) (p : Provisioning) : DeviceRow :=
  ⟨id, p.session.userId, p.purpose.info, p.session.id, p.purpose.origin⟩

def minted (id : Uuid) (p : Provisioning) : RedeemPairingResponse :=
  ⟨deviceRow id p, "access", "refresh", p.session.id, p.session.userId⟩

/-- A call that has passed its check inserts its device and its token. -/
def provision (id : Uuid) (p : Provisioning) : List PairingAction :=
  [.insertDevice p id true,
    .insertToken { p with stage := .token (deviceRow id p) } (deviceRow id p) "access" "refresh"
      true]

/-- …and finishes. -/
def finishing (id : Uuid) (p : Provisioning) : PairingAction :=
  .finish { p with stage := .finish (minted id p) } (minted id p)

end Sample

end Pcos
