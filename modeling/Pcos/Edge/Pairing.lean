import Pcos.Edge.HubIndexes

/-!
# Edge/Pairing — pairing through the edge worker (`index.ts`)

A session lives in two stores: a row of `pairing_sessions` in D1, and the pairing hub.  A request
touches one of them at a time and waits in between, so other requests come in.

    pair      INSERT row ──▸ hub /create
    claim     hub /claim ──▸ UPDATE row
    approve   SELECT row ──▸ INSERT device ──▸ INSERT token ──▸ UPDATE row ──▸ hub /approve
    reject    SELECT row ──▸ UPDATE row ──▸ hub /approve
    redeem    SELECT row ──▸ DELETE row ──▸ hub /consume ──▸ INSERT device ──▸ INSERT token

`EdgeState.step` runs one such section.  As in `Backend/Pairing`, rows carry the session and the
request they stem from, and `opened`, `claimed`, `approvals` and `answers` are a record of the run
that no section reads.
-/

namespace Pcos.Edge

open Foundations

/-! ## Bodies and rows -/

/-- `value || default` on a string that may be absent. -/
def orDefault (value : Option String) (default : String) : String := (truthy value).getD default

/-- The device fields of a claim or of a redemption, with the two ways to name the session. -/
structure DeviceBody where
  enrollmentToken : Option String
  pairingCode : Option String
  deviceName : Option String
  deviceType : Option String
  os : Option String
  osVersion : Option String
  agentVersion : Option String
  clientFingerprint : Option String
deriving DecidableEq

/-- A candidate as JSON, where fields may be absent. -/
structure Candidate where
  deviceName : Option String
  deviceType : Option String
  os : Option String
  osVersion : Option String
  agentVersion : Option String
  clientFingerprint : Option String
  requestedAt : Option ℤ
deriving DecidableEq

/-- `{}` -/
def Candidate.empty : Candidate := ⟨none, none, none, none, none, none, none⟩

/-- What a row of `device_identities` says of the device. -/
structure DeviceInfo where
  name : String
  deviceType : String
  os : String
  osVersion : String
  agentVersion : String
deriving DecidableEq

/-- The request that led to a row: an approval, by its number, or a redemption. -/
inductive Origin
  | approval (n : ℕ)
  | redemption (n : ℕ)
deriving DecidableEq

structure DeviceRow where
  id : String
  userId : String
  cloudId : String
  info : DeviceInfo
  session : String
  origin : Origin
deriving DecidableEq

/-- A row of `refresh_tokens`. -/
structure TokenRow where
  userId : String
  token : String
  session : String
  origin : Origin
deriving DecidableEq

structure RedeemResult where
  deviceId : String
  name : Option String
  deviceType : Option String
  os : Option String
  accessToken : String
  refreshToken : String
deriving DecidableEq

/-- What `candidate_device_json` holds. -/
structure CandidateJson where
  candidate : Candidate
  redeemResult : Option RedeemResult
deriving DecidableEq

/-- The keys of a session, as they are generated: a UUID, six digits, and 32 hexadecimal digits. -/
structure SessionKeys where
  id : String
  pairingCode : String
  enrollmentToken : String
  id_ne : id ≠ ""
  length_code : pairingCode.length = 6
  length_token : enrollmentToken.length = 32
deriving DecidableEq

/-- A row of `pairing_sessions`. -/
structure PairingRow where
  keys : SessionKeys
  userId : String
  status : PairingStatus
  candidateDeviceJson : Option CandidateJson
  expiresAt : ℤ
deriving DecidableEq

/-- `pairing_code = ?1 OR enrollment_token = ?1` -/
def SessionKeys.named (keys : SessionKeys) (key : String) : Bool :=
  keys.pairingCode = key || keys.enrollmentToken = key

abbrev PairingRow.id (row : PairingRow) : String := row.keys.id

abbrev PairingRow.named (row : PairingRow) (key : String) : Bool := row.keys.named key

abbrev HubSession := PairingSessionData Candidate RedeemResult

abbrev PairingHub := Hub Candidate RedeemResult

/-- The candidate that a claim submits. -/
def DeviceBody.candidate (b : DeviceBody) (now : ℤ) : Candidate where
  deviceName := some (orDefault b.deviceName "Mobile Phone")
  deviceType := some (orDefault b.deviceType "phone")
  os := some (orDefault b.os "unknown")
  osVersion := some (orDefault b.osVersion "")
  agentVersion := some (orDefault b.agentVersion "0.1.0")
  clientFingerprint := b.clientFingerprint
  requestedAt := some now

/-- The device that an approval provisions for a candidate. -/
def Candidate.info (c : Candidate) : DeviceInfo where
  name := orDefault c.deviceName "Mobile Phone"
  deviceType := orDefault c.deviceType "phone"
  os := orDefault c.os "unknown"
  osVersion := orDefault c.osVersion ""
  agentVersion := orDefault c.agentVersion "0.1.0"

/-- The device that a redemption provisions. -/
def DeviceBody.info (b : DeviceBody) : DeviceInfo where
  name := orDefault b.deviceName "Device"
  deviceType := orDefault b.deviceType "phone"
  os := orDefault b.os "unknown"
  osVersion := ""
  agentVersion := "0.1.0"

/-- The result of an approval, as the candidate is named in it. -/
def Candidate.result (c : Candidate) (deviceId accessToken refreshToken : String) :
    RedeemResult where
  deviceId := deviceId
  name := c.deviceName
  deviceType := c.deviceType
  os := c.os
  accessToken := accessToken
  refreshToken := refreshToken

/-- The result of a direct redemption. -/
def DeviceBody.result (b : DeviceBody) (deviceId accessToken refreshToken : String) :
    RedeemResult where
  deviceId := deviceId
  name := some (orDefault b.deviceName "Device")
  deviceType := some (orDefault b.deviceType "phone")
  os := some (orDefault b.os "unknown")
  accessToken := accessToken
  refreshToken := refreshToken

/-- `JSON.parse(row.candidate_device_json || '{}')`, as a candidate. -/
def PairingRow.candidate (row : PairingRow) : Candidate :=
  (row.candidateDeviceJson.map (·.candidate)).getD .empty

/-! ## Requests -/

/-- A request; `user` is the signed-in user, if there is one. -/
inductive EdgeRequest
  | pair (user : Option String) (expiresInSeconds : Option ℤ)
  | claim (clientIp : Option String) (body : DeviceBody)
  | approve (user : Option String) (enrollmentToken pairingCode : Option String) (approved : Bool)
  | redeem (body : DeviceBody)
deriving DecidableEq

inductive EdgeResponse
  | error (status : ℕ) (message : String)
  | paired (keys : SessionKeys) (expiresAt : ℤ) (ttl : ℤ)
  | hub (r : HubResponse Candidate RedeemResult)
  | redeemed (r : RedeemResult)
deriving DecidableEq

/-- The HTTP status is 2xx. -/
def EdgeResponse.ok : EdgeResponse → Bool
  | .error _ _ => false
  | .paired _ _ _ => true
  | .hub (.session _) => true
  | .hub .success => true
  | .hub (.error _ _ _) => false
  | .redeemed _ => true

/-- What a section draws from outside: the time, and the ids, keys and tokens that are generated. -/
structure Draw where
  now : ℤ
  keys : SessionKeys
  deviceId : String
  cloudId : Option String
  accessToken : String
  refreshToken : String
deriving DecidableEq

/-- What a request does next. -/
inductive Stage
  | pairCreate (row : PairingRow) (ttl : ℤ)
  | claimRecord (key : String) (candidate : Candidate) (session : HubSession)
  | rejectRow (key : String) (row : PairingRow)
  | rejectHub (key : String) (row : PairingRow)
  | approveDevice (key : String) (row : PairingRow)
  | approveToken (key : String) (row : PairingRow) (device : DeviceRow)
  | approveRow (key : String) (row : PairingRow) (result : RedeemResult)
  | approveHub (key : String) (row : PairingRow) (result : RedeemResult)
  | redeemDelete (key : String) (row : PairingRow) (body : DeviceBody) (approved : Bool)
  | redeemConsume (key : String) (row : PairingRow) (body : DeviceBody) (approved : Bool)
  | redeemDevice (row : PairingRow) (body : DeviceBody)
  | redeemToken (row : PairingRow) (body : DeviceBody) (device : DeviceRow)
deriving DecidableEq

/-- A request between two sections. -/
structure Call where
  number : ℕ
  request : EdgeRequest
  stage : Stage
deriving DecidableEq

/-! ## The state -/

/-- An approval that has found its session: the candidates on record in D1 and in the hub then. -/
structure Approval where
  number : ℕ
  session : String
  row : Option Candidate
  hub : Option Candidate
deriving DecidableEq

structure Answer where
  number : ℕ
  request : EdgeRequest
  response : EdgeResponse
deriving DecidableEq

structure EdgeState where
  hub : PairingHub
  /-- `pairing_sessions` -/
  rows : List PairingRow
  devices : List DeviceRow
  tokens : List TokenRow
  inFlight : List Call
  /-- The requests so far. -/
  requests : ℕ
  opened : List PairingRow
  claimed : List String
  approvals : List Approval
  answers : List Answer
deriving DecidableEq

namespace EdgeState

def start : EdgeState := ⟨.new, [], [], [], [], 0, [], [], [], []⟩

/-- `SELECT * FROM pairing_sessions WHERE pairing_code = ?1 OR enrollment_token = ?1` -/
def select (s : EdgeState) (key : String) : Option PairingRow := s.rows.find? (·.named key)

/-- The rows that the condition picks change. -/
def updateRows (s : EdgeState) (p : PairingRow → Bool) (f : PairingRow → PairingRow) : EdgeState :=
  { s with rows := s.rows.map fun row => if p row then f row else row }

def deleteRow (s : EdgeState) (id : String) : EdgeState :=
  { s with rows := s.rows.filter fun row => row.id ≠ id }

/-- A request to the hub, and what it answers. -/
def askHub (s : EdgeState) (now : ℤ) (req : HubRequest Candidate RedeemResult) :
    EdgeState × HubResponse Candidate RedeemResult :=
  let x := s.hub.fetch now req
  ({ s with hub := x.1 }, x.2)

/-- The request ends with a response. -/
def answer (s : EdgeState) (number : ℕ) (request : EdgeRequest) (r : EdgeResponse) : EdgeState :=
  { s with answers := s.answers ++ [⟨number, request, r⟩] }

/-- The request goes on. -/
def goOn (s : EdgeState) (c : Call) (stage : Stage) : EdgeState :=
  { s with inFlight := { c with stage := stage } :: s.inFlight }

/-- A new request begins at a stage. -/
def enter (s : EdgeState) (request : EdgeRequest) (stage : Stage) : EdgeState :=
  { s with inFlight := ⟨s.requests, request, stage⟩ :: s.inFlight, requests := s.requests + 1 }

/-- A new request is answered at once. -/
def refuse (s : EdgeState) (request : EdgeRequest) (status : ℕ) (message : String) : EdgeState :=
  { s.answer s.requests request (.error status message) with requests := s.requests + 1 }

/-! ### The first section of a request -/

/-- `enrollment_token || pairing_code` -/
def bodyKey (enrollmentToken pairingCode : Option String) : Option String :=
  truthy enrollmentToken <|> truthy pairingCode

def keyRequired : String := "Pairing code or enrollment token required"

def beginPair (s : EdgeState) (request : EdgeRequest) (user : Option String)
    (expiresInSeconds : Option ℤ) (d : Draw) : EdgeState :=
  match user with
  | none => s.refuse request 401 "Unauthorized: Sign in required to pair devices"
  | some userId =>
    let ttl := min 3600 (max 60 ((expiresInSeconds.filter (· ≠ 0)).getD 300))
    let row : PairingRow := ⟨d.keys, userId, .pendingRedeem, none, d.now + ttl * 1000⟩
    -- the primary key and the two UNIQUE columns
    if s.rows.any fun r => r.id = row.id || r.keys.pairingCode = row.keys.pairingCode
        || r.keys.enrollmentToken = row.keys.enrollmentToken then
      s.refuse request 500 "Internal edge server error"
    else
      { s with rows := s.rows ++ [row], opened := s.opened ++ [row] }.enter request
        (.pairCreate row ttl)

def beginClaim (s : EdgeState) (request : EdgeRequest) (clientIp : Option String)
    (body : DeviceBody) (d : Draw) : EdgeState :=
  match bodyKey body.enrollmentToken body.pairingCode with
  | none => s.refuse request 400 keyRequired
  | some key =>
    let candidate := body.candidate d.now
    match s.askHub d.now (.claim (some (clientIp.getD "")) none key candidate) with
    | (s, .session session) => s.enter request (.claimRecord key candidate session)
    | (s, r) => { s.answer s.requests request (.hub r) with requests := s.requests + 1 }

def beginApprove (s : EdgeState) (request : EdgeRequest) (user : Option String)
    (enrollmentToken pairingCode : Option String) (approved : Bool) : EdgeState :=
  match user with
  | none => s.refuse request 401 "Unauthorized"
  | some userId =>
    match bodyKey enrollmentToken pairingCode with
    | none => s.refuse request 400 keyRequired
    | some key =>
      match (s.select key).filter fun row => row.userId = userId with
      | none => s.refuse request 404 "Pairing session not found or unauthorized"
      | some row =>
        if !approved then s.enter request (.rejectRow key row)
        else
          let approval : Approval :=
            ⟨s.requests, row.id, row.candidateDeviceJson.map (·.candidate),
              (s.hub.sessions.get row.id).bind (·.candidateDevice)⟩
          { s with approvals := s.approvals ++ [approval] }.enter request (.approveDevice key row)

def beginRedeem (s : EdgeState) (request : EdgeRequest) (body : DeviceBody) (d : Draw) :
    EdgeState :=
  match bodyKey body.enrollmentToken body.pairingCode with
  | none => s.refuse request 400 keyRequired
  | some key =>
    match s.select key with
    | none => s.refuse request 401 "Invalid pairing code"
    | some row =>
      if row.expiresAt ≤ d.now then s.refuse request 401 "Pairing session has expired"
      else
        match row.status with
        | .rejected => s.refuse request 401 "Pairing request was declined by device owner"
        | .pendingApproval =>
          s.refuse request 401 "Waiting for device approval on your PCOS Web/Desktop screen"
        | .approved => s.enter request (.redeemDelete key row body true)
        | .pendingRedeem => s.enter request (.redeemDelete key row body false)

def begin (s : EdgeState) (request : EdgeRequest) (d : Draw) : EdgeState :=
  match request with
  | .pair user ttl => s.beginPair request user ttl d
  | .claim clientIp body => s.beginClaim request clientIp body d
  | .approve user token code approved => s.beginApprove request user token code approved
  | .redeem body => s.beginRedeem request body d

/-! ### The sections that follow -/

/-- The rest of a call that is taken out of flight. -/
def resume (s : EdgeState) (c : Call) (d : Draw) : EdgeState :=
  match c.stage with
  | .pairCreate row ttl =>
    (s.askHub d.now (.create row.id row.userId row.keys.pairingCode row.keys.enrollmentToken
      row.expiresAt)).1.answer c.number c.request (.paired row.keys row.expiresAt ttl)
  | .claimRecord key candidate session =>
    let recorded := (s.rows.filter (·.named key)).map (·.id)
    { s.updateRows (·.named key) fun row =>
        { row with status := .pendingApproval, candidateDeviceJson := some ⟨candidate, none⟩ } with
      claimed := s.claimed ++ recorded }.answer c.number c.request (.hub (.session session))
  | .rejectRow key row =>
    (s.updateRows (·.id = row.id) fun row => { row with status := .rejected }).goOn c
      (.rejectHub key row)
  | .rejectHub key row =>
    let x := s.askHub d.now (.approve key row.userId false none)
    x.1.answer c.number c.request (.hub x.2)
  | .approveDevice key row =>
    let device : DeviceRow :=
      ⟨d.deviceId, row.userId, orDefault d.cloudId "pcos", row.candidate.info, row.id,
        .approval c.number⟩
    { s with devices := s.devices ++ [device] }.goOn c (.approveToken key row device)
  | .approveToken key row device =>
    let token : TokenRow := ⟨row.userId, d.refreshToken, row.id, .approval c.number⟩
    { s with tokens := s.tokens ++ [token] }.goOn c
      (.approveRow key row (row.candidate.result device.id d.accessToken d.refreshToken))
  | .approveRow key row result =>
    (s.updateRows (·.id = row.id) fun r =>
      { r with
        status := .approved
        candidateDeviceJson := some ⟨row.candidate, some result⟩ }).goOn c
      (.approveHub key row result)
  | .approveHub key row result =>
    let x := s.askHub d.now (.approve key row.userId true (some result))
    x.1.answer c.number c.request (.hub x.2)
  | .redeemDelete key row body approved =>
    (s.deleteRow row.id).goOn c (.redeemConsume key row body approved)
  | .redeemConsume key row body approved =>
    let s := (s.askHub d.now (.consume key)).1
    if approved then
      match row.candidateDeviceJson.bind (·.redeemResult) with
      | some result => s.answer c.number c.request (.redeemed result)
      | none => s.goOn c (.redeemDelete key row body false)
    else s.goOn c (.redeemDevice row body)
  | .redeemDevice row body =>
    let device : DeviceRow :=
      ⟨d.deviceId, row.userId, orDefault d.cloudId "pcos", body.info, row.id, .redemption c.number⟩
    { s with devices := s.devices ++ [device] }.goOn c (.redeemToken row body device)
  | .redeemToken row body device =>
    let token : TokenRow := ⟨row.userId, d.refreshToken, row.id, .redemption c.number⟩
    { s with tokens := s.tokens ++ [token] }.answer c.number c.request
      (.redeemed (body.result device.id d.accessToken d.refreshToken))

end EdgeState

/-- One section of a request. -/
inductive EdgeAction
  | begin (request : EdgeRequest) (d : Draw)
  | resume (c : Call) (d : Draw)

def EdgeState.step (s : EdgeState) : EdgeAction → EdgeState
  | .begin request d => s.begin request d
  | .resume c d =>
    if c ∈ s.inFlight then { s with inFlight := s.inFlight.erase c }.resume c d else s

end Pcos.Edge
