import Mathlib.Data.Rat.Defs
import Pcos.Foundations.Dict
import Pcos.Foundations.Runs

/-!
# Edge/PresenceHub — the object that holds the agents' sockets

One Durable Object holds the control sockets of every user's devices.  A command goes out over all
the sockets of its target; a filesystem request goes over the last one and waits for its answer
under a random id.

    proxies ──send──▸ agent           pendingRequests : request id ↦ the waiting call
       │                │
       ▼                ▼
    (race) ◂──────── receives │ expires          (whichever comes first)
       │
    resumes ──▸ answer

Heartbeats, and the routes they answer, decide nothing here and are left out.
-/

namespace Pcos.Edge

open Foundations

/-! ## Messages -/

/-- What `JSON.parse` returns. -/
inductive Json
  | null
  | bool (value : Bool)
  | number (value : ℚ)
  | string (text : String)
  | array (items : List Json)
  | object (fields : List (String × Json))

namespace Json

/-- `data.name`; a value without the field has `undefined` there. -/
def field (name : String) : Json → Option Json
  | .object fields => fields.lookup name
  | _ => none

def truthy : Json → Bool
  | .null => false
  | .bool value => value
  | .number value => value ≠ 0
  | .string text => text ≠ ""
  | .array _ => true
  | .object _ => true

/-- The request id of a message.  An id that is not a string is no key of the map, and reading one
from `null` throws, which is caught. -/
def requestId (data : Json) : Option String :=
  match data.field "request_id" with
  | some (.string id) => if id ≠ "" then some id else none
  | _ => none

/-- The message has the field as a text. -/
def hasText (data : Json) (name text : String) : Bool :=
  match data.field name with
  | some (.string t) => t = text
  | _ => false

end Json

/-- The body of a filesystem request. -/
structure FsRequest where
  deviceId : String
  op : String
  storagePath : Option String
  relativePath : Option String
  offset : Option ℤ
  length : Option ℤ
  dataBase64 : Option String
  recursive : Option Bool
deriving DecidableEq

/-- What goes to the agent. -/
structure AgentCommand where
  requestId : String
  op : String
  storagePath : Option String
  relativePath : String
  offset : Option ℤ
  length : Option ℤ
  dataBase64 : Option String
  recursive : Option Bool
deriving DecidableEq

def FsRequest.command (body : FsRequest) (requestId : String) : AgentCommand :=
  ⟨requestId, body.op, body.storagePath, body.relativePath.getD "", body.offset, body.length,
    body.dataBase64, body.recursive⟩

/-- The answers of `/proxy/fs`. -/
inductive FsAnswer
  | error (status : ℕ) (error message : String)
  | agent (status : ℕ) (result : Json)

/-- What the timer resolves with. -/
def timeoutResult (requestId : String) : Json :=
  .object [("type", .string "fs_response"), ("request_id", .string requestId),
    ("success", .bool false), ("error", .string "Physical agent response timed out (15 seconds)"),
    ("code", .string "AGENT_TIMEOUT")]

/-- The answer with the result of the race. -/
def respond (agentResult : Json) : FsAnswer :=
  .agent (if (agentResult.field "success").any Json.truthy then 200
    else if agentResult.hasText "code" "AGENT_TIMEOUT" then 504 else 400) agentResult

/-! ## The hub -/

/-- A call that waits for its race, has its result, or has been answered. -/
inductive Waiting
  | racing
  | won (agentResult : Json)
  | done

/-- A call whose message went out. -/
structure ProxyCall where
  requestId : String
  deviceId : String
  waiting : Waiting

structure PresenceHub where
  deviceSockets : Dict String (List ℕ)
  /-- The device each socket was accepted for. -/
  accepted : List String
  /-- The call that resolves each request id. -/
  pendingRequests : Dict String ℕ
  calls : List ProxyCall
  /-- The answers of the calls, in order. -/
  answers : List (ℕ × FsAnswer)

inductive PresenceEvent
  | connects (deviceId : String)
  | closes (socket : ℕ)
  /-- A message; `none` where `JSON.parse` throws. -/
  | receives (socket : ℕ) (data : Option Json)
  /-- `POST /proxy/fs`, with the error of `ws.send` if it throws. -/
  | proxies (body : FsRequest) (requestId : String) (sendError : Option String)
  /-- The timer of a call. -/
  | expires (call : ℕ)
  /-- `Promise.race` comes back. -/
  | resumes (call : ℕ)
  | disconnects (deviceId : String)

namespace PresenceHub

def new : PresenceHub := ⟨.empty, [], .empty, [], []⟩

/-- `this.deviceSockets.get(deviceId)`, as the sockets there are. -/
def sockets (h : PresenceHub) (deviceId : String) : List ℕ := (h.deviceSockets.get deviceId).getD []

/-- A WebSocket upgrade. -/
def connect (h : PresenceHub) (deviceId : String) : PresenceHub :=
  if deviceId = "" then h
  else
    { h with
      deviceSockets := h.deviceSockets.set deviceId (h.sockets deviceId ++ [h.accepted.length])
      accepted := h.accepted ++ [deviceId] }

def close (h : PresenceHub) (socket : ℕ) : PresenceHub :=
  match h.accepted[socket]? with
  | none => h
  | some deviceId =>
    match h.deviceSockets.get deviceId with
    | none => h
    | some sockets =>
      { h with deviceSockets := h.deviceSockets.set deviceId (sockets.filter (· ≠ socket)) }

/-- A call goes from one state of waiting to another. -/
def setWaiting (h : PresenceHub) (call : ℕ) (waiting : Waiting) : PresenceHub :=
  { h with calls := h.calls.modify call fun c => { c with waiting := waiting } }

/-- A promise of the call's race resolves; only the first to do so counts. -/
def resolve (h : PresenceHub) (call : ℕ) (agentResult : Json) : PresenceHub :=
  match h.calls[call]?.map ProxyCall.waiting with
  | some .racing => h.setWaiting call (.won agentResult)
  | _ => h

/-- The message handler of a socket. -/
def receive (h : PresenceHub) (data : Option Json) : PresenceHub :=
  match data with
  | none => h
  | some data =>
    match data.requestId with
    | none => h
    | some id =>
      match h.pendingRequests.get id with
      | none => h
      | some call =>
        { h with pendingRequests := h.pendingRequests.delete id }.resolve call data

/-- The timer's callback. -/
def expire (h : PresenceHub) (call : ℕ) : PresenceHub :=
  match h.calls[call]? with
  | none => h
  | some c =>
    if h.pendingRequests.has c.requestId then
      { h with pendingRequests := h.pendingRequests.delete c.requestId }.resolve call
        (timeoutResult c.requestId)
    else h

/-- The handler goes on after the race. -/
def resume (h : PresenceHub) (call : ℕ) : PresenceHub :=
  match h.calls[call]?.map ProxyCall.waiting with
  | some (.won agentResult) =>
    { h.setWaiting call .done with answers := h.answers ++ [(call, respond agentResult)] }
  | _ => h

/-- `POST /proxy/fs`: the hub, and the answer if there is one at once. -/
def proxy (h : PresenceHub) (body : FsRequest) (requestId : String) (sendError : Option String) :
    PresenceHub × Option FsAnswer :=
  match (h.sockets body.deviceId).getLast? with
  | none =>
    (h, some (.error 503 "STORAGE_NODE_OFFLINE"
      "Physical agent node is currently offline or disconnected."))
  | some _ =>
    let h' := { h with pendingRequests := h.pendingRequests.set requestId h.calls.length }
    match sendError with
    | some message =>
      let answer :=
        .error 502 "TRANSPORT_ERROR" ("Failed to write command to agent tunnel: " ++ message)
      ({ h' with
          pendingRequests := h'.pendingRequests.delete requestId
          calls := h.calls ++ [⟨requestId, body.deviceId, .done⟩]
          answers := h.answers ++ [(h.calls.length, answer)] }, some answer)
    | none => ({ h' with calls := h.calls ++ [⟨requestId, body.deviceId, .racing⟩] }, none)

def disconnect (h : PresenceHub) (deviceId : String) : PresenceHub :=
  if deviceId = "" then h else { h with deviceSockets := h.deviceSockets.delete deviceId }

def step (h : PresenceHub) : PresenceEvent → PresenceHub
  | .connects deviceId => h.connect deviceId
  | .closes socket => h.close socket
  | .receives _ data => h.receive data
  | .proxies body requestId sendError => (h.proxy body requestId sendError).1
  | .expires call => h.expire call
  | .resumes call => h.resume call
  | .disconnects deviceId => h.disconnect deviceId

/-- The answers a call was given. -/
def answersOf (h : PresenceHub) (call : ℕ) : List FsAnswer :=
  (h.answers.filter (·.1 = call)).map Prod.snd

end PresenceHub

end Pcos.Edge
