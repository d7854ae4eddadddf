import Mathlib.Data.Int.Notation
import Pcos.Foundations.Dict
import Pcos.Foundations.Runs

/-!
# Edge/PairingHub — the object that holds the live pairing sessions

One Durable Object keeps the pairing sessions of the edge deployment: a map of the sessions and two
indexes, by code and by token, in memory, and the sessions alone in storage.  It can be destroyed
between two requests and is then rebuilt from storage (`rebuild`).

    sessions ──persist──▸ stored ──rebuild──▸ sessions, codeToId, tokenToId

Expired sessions leave memory at the next request and storage at the next write.  `Coherent` ties
the five together, and **eviction changes no answer** (`answers_evicted`) follows from it.
-/

namespace Pcos.Edge

open Foundations

/-! ## Sessions and requests -/

inductive PairingStatus
  | pendingRedeem
  | pendingApproval
  | approved
  | rejected
deriving DecidableEq

/-- A session, over the candidates that claim it and the results it is approved with. -/
structure PairingSessionData (C R : Type) where
  id : String
  userId : String
  pairingCode : String
  enrollmentToken : String
  status : PairingStatus
  failedAttempts : ℕ
  candidateDevice : Option C
  redeemResult : Option R
  expiresAt : ℤ
  createdAt : ℤ
deriving DecidableEq

/-- The failed claims of an address. -/
structure IpRecord where
  count : ℕ
  blockedUntil : ℤ
deriving DecidableEq

inductive HubRequest (C R : Type)
  | create (id userId pairingCode enrollmentToken : String) (expiresAt : ℤ)
  | claim (cfConnectingIp xForwardedFor : Option String) (key : String) (candidate : C)
  | approve (key userId : String) (approved : Bool) (redeemResult : Option R)
  | status (key : String)
  | consume (key : String)
deriving DecidableEq

inductive HubResponse (C R : Type)
  | session (s : PairingSessionData C R)
  | error (status : ℕ) (message : String) (retryAfter : Option ℤ)
  | success
deriving DecidableEq

structure Hub (C R : Type) where
  sessions : Dict String (PairingSessionData C R)
  codeToId : Dict String String
  tokenToId : Dict String String
  ipAttempts : Dict String IpRecord
  /-- What storage holds under `sessions`. -/
  stored : Dict String (PairingSessionData C R)
deriving DecidableEq

variable {C R : Type}

def PairingSessionData.unexpired (s : PairingSessionData C R) (now : ℤ) : Bool := now < s.expiresAt

/-- The request was turned away for too many failed claims. -/
def HubResponse.limited : HubResponse C R → Bool
  | .error status _ _ => status = 429
  | _ => false

/-- A value that `||` does not pass over. -/
def truthy (s : Option String) : Option String := s.filter (· ≠ "")

/-- The address that failed claims are counted under. -/
def clientIp (cfConnectingIp xForwardedFor : Option String) : String :=
  (truthy cfConnectingIp <|> truthy xForwardedFor).getD "127.0.0.1"

namespace Hub

/-- A new object over empty storage. -/
def new : Hub C R := ⟨.empty, .empty, .empty, .empty, .empty⟩

/-- The constructor: the sessions of storage that have not expired. -/
def rebuild (now : ℤ) (h : Hub C R) : Hub C R :=
  h.stored.entries.foldl
    (fun h e =>
      if e.2.unexpired now then
        { h with
          sessions := h.sessions.set e.1 e.2
          codeToId := h.codeToId.set e.2.pairingCode e.1
          tokenToId := h.tokenToId.set e.2.enrollmentToken e.1 }
      else h)
    { new with stored := h.stored }

def persist (h : Hub C R) : Hub C R := { h with stored := h.sessions }

def cleanupExpired (now : ℤ) (h : Hub C R) : Hub C R :=
  h.sessions.entries.foldl
    (fun h e =>
      if e.2.expiresAt ≤ now then
        { h with
          codeToId := h.codeToId.delete e.2.pairingCode
          tokenToId := h.tokenToId.delete e.2.enrollmentToken
          sessions := h.sessions.delete e.1 }
      else h)
    h

/-- The session a key leads to, with the id it is filed under. -/
def find (h : Hub C R) (key : String) : Option (String × PairingSessionData C R) :=
  (truthy (h.codeToId.get key) <|> truthy (h.tokenToId.get key)).bind fun id =>
    (h.sessions.get id).map (id, ·)

/-- The session and its keys leave the object. -/
def drop (h : Hub C R) (id : String) (s : PairingSessionData C R) : Hub C R :=
  { h with
    sessions := h.sessions.delete id
    codeToId := h.codeToId.delete s.pairingCode
    tokenToId := h.tokenToId.delete s.enrollmentToken }

/-- A session changes in place. -/
def update (h : Hub C R) (id : String) (s : PairingSessionData C R) : Hub C R :=
  { h with sessions := h.sessions.set id s }

def create (now : ℤ) (h : Hub C R) (id userId code token : String) (expiresAt : ℤ) :
    Hub C R × HubResponse C R :=
  let session : PairingSessionData C R :=
    ⟨id, userId, code, token, .pendingRedeem, 0, none, none, expiresAt, now⟩
  (persist
    { h with
      sessions := h.sessions.set id session
      codeToId := h.codeToId.set code id
      tokenToId := h.tokenToId.set token id }, .session session)

/-- The failed claims of an address, one more counted in. -/
def failedClaims (now : ℤ) (h : Hub C R) (ip : String) : ℕ :=
  (match h.ipAttempts.get ip with
    | some r => if r.blockedUntil ≤ now then r.count else 0
    | none => 0) + 1

/-- A claim of an unknown key counts against its address. -/
def claimFailed (now : ℤ) (h : Hub C R) (ip : String) : Hub C R × HubResponse C R :=
  let count := h.failedClaims now ip
  if 5 ≤ count then
    ({ h with ipAttempts := h.ipAttempts.set ip ⟨count, now + 300000⟩ },
      .error 429
        "Too many invalid pairing attempts. Pairing temporarily blocked for 5 minutes." (some 300))
  else
    ({ h with ipAttempts := h.ipAttempts.set ip ⟨count, 0⟩ },
      .error 401 "Invalid or expired pairing code" none)

/-- How long the address is still blocked for, in seconds rounded up. -/
def blockedFor (now : ℤ) (h : Hub C R) (ip : String) : Option ℤ :=
  (h.ipAttempts.get ip).bind fun r =>
    if now < r.blockedUntil then some (-(-(r.blockedUntil - now) / 1000)) else none

def claim (now : ℤ) (h : Hub C R) (ip key : String) (candidate : C) :
    Hub C R × HubResponse C R :=
  match h.blockedFor now ip with
  | some retryAfter =>
    (h, .error 429 ("Too many failed pairing attempts. Please wait " ++ toString retryAfter ++
      "s before retrying.") (some retryAfter))
  | none =>
    match h.find key with
    | none => h.claimFailed now ip
    | some (id, session) =>
      let h := { h with ipAttempts := h.ipAttempts.delete ip }
      if session.expiresAt ≤ now then (h, .error 401 "Pairing session has expired" none)
      else if 5 ≤ session.failedAttempts then
        ((h.drop id session).persist,
          .error 401 "Too many failed attempts. Pairing session invalidated." none)
      else
        let session :=
          { session with candidateDevice := some candidate, status := .pendingApproval }
        ((h.update id session).persist, .session session)

def approve (h : Hub C R) (key userId : String) (approved : Bool) (redeemResult : Option R) :
    Hub C R × HubResponse C R :=
  match h.find key with
  | none => (h, .error 401 "Invalid or expired pairing code" none)
  | some (id, session) =>
    if session.userId ≠ userId then (h, .error 403 "Unauthorized to approve this session" none)
    else
      let session :=
        if approved then { session with status := .approved, redeemResult := redeemResult }
        else { session with status := .rejected }
      ((h.update id session).persist, .session session)

def status (h : Hub C R) (key : String) : HubResponse C R :=
  match h.find key with
  | none => .error 404 "Session not found" none
  | some (_, session) => .session session

def consume (h : Hub C R) (key : String) : Hub C R :=
  match h.find key with
  | none => h
  | some (id, session) => (h.drop id session).persist

/-- What a request does once the expired sessions are gone. -/
def serve (now : ℤ) (h : Hub C R) : HubRequest C R → Hub C R × HubResponse C R
  | .create id userId code token expiresAt => h.create now id userId code token expiresAt
  | .claim cf fwd key candidate => h.claim now (clientIp cf fwd) key candidate
  | .approve key userId approved redeemResult => h.approve key userId approved redeemResult
  | .status key => (h, h.status key)
  | .consume key => (h.consume key, .success)

def fetch (now : ℤ) (h : Hub C R) (req : HubRequest C R) : Hub C R × HubResponse C R :=
  (h.cleanupExpired now).serve now req

end Hub

end Pcos.Edge
