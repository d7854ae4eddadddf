import Pcos.Edge.Tunnel

/-!
# Edge/DeviceIsolation — every user's devices behind one hub

The worker knows who owns a device and a storage node, and the hub knows only device ids.  A tunnel
is opened, and a filesystem request sent on, after the worker has looked up the row of the user; a
command is sent on as it comes, and a share's file is read at whatever node its row names.

    user ──worker: is the row theirs?──▸ hub ──last socket of the device──▸ agent
                                          ▴
    any socket's message ────request id───┘

So **isolation holds as long as commands name the sender's own devices, shares their owner's nodes,
and no socket answers for another device** (`isolated`).
-/

namespace Pcos.Edge

open Foundations PresenceHub

/-- A row of `device_identities`. -/
structure Device where
  id : String
  userId : String
deriving DecidableEq

/-- A row of `storage_nodes`. -/
structure StorageNode where
  id : String
  deviceId : String
  userId : String
  storagePath : String
deriving DecidableEq

/-- What a filesystem route asks of a node. -/
structure FsOp where
  op : String
  relativePath : String
  offset : Option ℤ
  length : Option ℤ
  dataBase64 : Option String
  recursive : Option Bool
deriving DecidableEq

def StorageNode.request (node : StorageNode) (o : FsOp) : FsRequest :=
  ⟨node.deviceId, o.op, some node.storagePath, some o.relativePath, o.offset, o.length, o.dataBase64,
    o.recursive⟩

/-- The tables and the hub, with what only a reader of the run knows: who opened each socket, and the
message, with its socket, that each call got. -/
structure Fleet where
  devices : List Device
  pk : (devices.map Device.id).Nodup
  nodes : List StorageNode
  hub : PresenceHub
  openedBy : List String
  source : ℕ → Option (ℕ × Json)

inductive FleetEvent
  /-- A device is paired or enrolled. -/
  | registers (device : Device)
  /-- `DELETE /api/v1/devices/:id`; the call to the hub may fail. -/
  | removes (userId deviceId : String) (reached : Bool)
  /-- One disk of `POST /api/v1/agent/storage/advertise`, with the id made for its node. -/
  | advertises (userId deviceId nodeId mountPoint : String)
  | removesNode (userId nodeId : String)
  /-- `/ws/presence` -/
  | tunnels (userId deviceId : String)
  /-- `POST /api/v1/control/commands` -/
  | commands (userId targetDeviceId : String)
  /-- A filesystem request at a node of the user. -/
  | asks (userId nodeId : String) (o : FsOp) (requestId : String) (sendError : Option String)
  /-- The download of a share, at the node that the shared file's row names. -/
  | asksShared (ownerId nodeId : String) (o : FsOp) (requestId : String) (sendError : Option String)
  | receives (socket : ℕ) (data : Option Json)
  | closes (socket : ℕ)
  | expires (call : ℕ)
  | resumes (call : ℕ)

namespace Fleet

def start : Fleet := ⟨[], List.nodup_nil, [], .new, [], fun _ => none⟩

/-- `SELECT id FROM device_identities WHERE id = ?1 AND user_id = ?2` -/
def owns (s : Fleet) (userId deviceId : String) : Bool :=
  s.devices.any fun d => d.id = deviceId && d.userId = userId

/-- `SELECT … FROM storage_nodes WHERE id = ?1 AND user_id = ?2` -/
def nodeOf (s : Fleet) (userId nodeId : String) : Option StorageNode :=
  s.nodes.find? fun n => n.id = nodeId && n.userId = userId

/-- `SELECT … FROM storage_nodes WHERE id = ?1` -/
def anyNode (s : Fleet) (nodeId : String) : Option StorageNode := s.nodes.find? fun n => n.id = nodeId

/-- `INSERT INTO device_identities …`; the id is the primary key. -/
def insertDevice (s : Fleet) (device : Device) : Fleet :=
  if h : device.id ∈ s.devices.map Device.id then s
  else
    { s with
      devices := device :: s.devices
      pk := List.nodup_cons.mpr ⟨h, s.pk⟩ }

/-- `DELETE FROM device_identities WHERE id = ?1 AND user_id = ?2`, and the nodes that go with the
rows: those the foreign key takes, and the user's own. -/
def deleteDevice (s : Fleet) (userId deviceId : String) : Fleet :=
  let gone := s.owns userId deviceId
  { s with
    devices := s.devices.filter fun d => !(d.id = deviceId && d.userId = userId)
    pk := s.pk.sublist (List.filter_sublist.map Device.id)
    nodes := s.nodes.filter fun n => !(n.deviceId = deviceId && (gone || n.userId = userId)) }

/-- A disk that is known keeps its row; a new one gets one, unless its id is taken. -/
def advertise (s : Fleet) (userId deviceId nodeId mountPoint : String) : Fleet :=
  if !s.owns userId deviceId then s
  else if s.nodes.any fun n => n.deviceId = deviceId && n.storagePath = mountPoint then s
  else if s.nodes.any fun n => n.id = nodeId then s
  else { s with nodes := ⟨nodeId, deviceId, userId, mountPoint⟩ :: s.nodes }

def tunnel (s : Fleet) (userId deviceId : String) : Fleet :=
  if deviceId = "" then s
  else if s.owns userId deviceId then
    { s with hub := s.hub.connect deviceId, openedBy := s.openedBy ++ [userId] }
  else s

/-- The request goes to the node's device. -/
def forward (s : Fleet) (node : Option StorageNode) (o : FsOp) (requestId : String)
    (sendError : Option String) : Fleet :=
  match node with
  | none => s
  | some node => { s with hub := (s.hub.proxy (node.request o) requestId sendError).1 }

/-- The call that a message resolves. -/
def resolves (h : PresenceHub) (data : Json) : Option ℕ :=
  data.requestId.bind h.pendingRequests.get

def receive (s : Fleet) (socket : ℕ) (data : Option Json) : Fleet :=
  { s with
    hub := s.hub.receive data
    source :=
      match data with
      | none => s.source
      | some data =>
        match resolves s.hub data with
        | none => s.source
        | some call => Function.update s.source call (some (socket, data)) }

def step (s : Fleet) : FleetEvent → Fleet
  | .registers device => s.insertDevice device
  | .removes userId deviceId reached =>
    let s := s.deleteDevice userId deviceId
    if reached then { s with hub := s.hub.disconnect deviceId } else s
  | .advertises userId deviceId nodeId mountPoint => s.advertise userId deviceId nodeId mountPoint
  | .removesNode userId nodeId =>
    { s with nodes := s.nodes.filter fun n => !(n.id = nodeId && n.userId = userId) }
  | .tunnels userId deviceId => s.tunnel userId deviceId
  | .commands _ _ => s
  | .asks userId nodeId o requestId sendError =>
    s.forward (s.nodeOf userId nodeId) o requestId sendError
  | .asksShared _ nodeId o requestId sendError => s.forward (s.anyNode nodeId) o requestId sendError
  | .receives socket data => s.receive socket data
  | .closes socket => { s with hub := s.hub.close socket }
  | .expires call => { s with hub := s.hub.expire call }
  | .resumes call => { s with hub := s.hub.resume call }

/-! ## What isolation says -/

/-- The socket a filesystem request for the node is sent over. -/
def sentOver (s : Fleet) (node : Option StorageNode) : Option ℕ :=
  node.bind fun node => (s.hub.sockets node.deviceId).getLast?

/-- The sockets an event delivers over, each with the user it delivers for. -/
def deliveries (s : Fleet) : FleetEvent → List (String × ℕ)
  | .commands userId targetDeviceId => (s.hub.sockets targetDeviceId).map fun k => (userId, k)
  | .asks userId nodeId _ _ _ =>
    ((s.sentOver (s.nodeOf userId nodeId)).map fun k => (userId, k)).toList
  | .asksShared ownerId nodeId _ _ _ =>
    ((s.sentOver (s.anyNode nodeId)).map fun k => (ownerId, k)).toList
  | _ => []

/-- The socket was opened for the device, by the user. -/
def Opened (s : Fleet) (socket : ℕ) (deviceId userId : String) : Prop :=
  s.hub.accepted[socket]? = some deviceId ∧ s.openedBy[socket]? = some userId

/-- A delivery goes to a device that is registered to its user, which the user opened the socket
of. -/
def AtHome (s : Fleet) (x : String × ℕ) : Prop :=
  ∃ d ∈ s.devices, d.userId = x.1 ∧ s.Opened x.2 d.id d.userId

/-- The call got this result from a socket of the device it was sent to, or from its timer. -/
def FromDevice (h : PresenceHub) (source : ℕ → Option (ℕ × Json)) (call : ℕ) (agentResult : Json) :
    Prop :=
  ∃ c, h.calls[call]? = some c ∧ (agentResult = timeoutResult c.requestId ∨
    ∃ k, source call = some (k, agentResult) ∧ h.accepted[k]? = some c.deviceId)

/-- What is delivered by an event goes home, and what has been answered came from the device that
was asked. -/
structure Isolated (s : Fleet) (e : FleetEvent) : Prop where
  delivered : ∀ x ∈ s.deliveries e, s.AtHome x
  returned : ∀ call status r, (call, FsAnswer.agent status r) ∈ (s.step e).hub.answers →
    FromDevice (s.step e).hub (s.step e).source call r

/-- Commands name devices of their sender, shares nodes of their owner, and a socket answers only
calls that were sent to its device; and a new device's id is new. -/
def Guarded (s : Fleet) : FleetEvent → Prop
  | .registers device => device.id ∉ s.hub.accepted
  | .commands userId targetDeviceId =>
    s.hub.sockets targetDeviceId = [] ∨ s.owns userId targetDeviceId
  | .asksShared ownerId nodeId _ _ _ =>
    s.sentOver (s.anyNode nodeId) = none ∨ ∃ n ∈ s.anyNode nodeId, n.userId = ownerId
  | .receives socket (some data) => ∀ call ∈ resolves s.hub data, ∀ c ∈ s.hub.calls[call]?,
    s.hub.accepted[socket]? = some c.deviceId
  | _ => True

instance Guarded.decidable (s : Fleet) : ∀ e, Decidable (s.Guarded e)
  | .registers device => inferInstanceAs (Decidable (device.id ∉ s.hub.accepted))
  | .commands userId targetDeviceId =>
    inferInstanceAs (Decidable (s.hub.sockets targetDeviceId = [] ∨ s.owns userId targetDeviceId))
  | .asksShared ownerId nodeId _ _ _ =>
    inferInstanceAs (Decidable (s.sentOver (s.anyNode nodeId) = none ∨
      ∃ n ∈ s.anyNode nodeId, n.userId = ownerId))
  | .receives socket (some data) =>
    inferInstanceAs (Decidable (∀ call ∈ resolves s.hub data, ∀ c ∈ s.hub.calls[call]?,
      s.hub.accepted[socket]? = some c.deviceId))
  | .receives _ none => isTrue trivial
  | .removes _ _ _ => isTrue trivial
  | .advertises _ _ _ _ => isTrue trivial
  | .removesNode _ _ => isTrue trivial
  | .tunnels _ _ => isTrue trivial
  | .asks _ _ _ _ _ => isTrue trivial
  | .closes _ => isTrue trivial
  | .expires _ => isTrue trivial
  | .resumes _ => isTrue trivial

/-! ## Where the answers come from -/

/-- Every result on its way, or given, came from the device that was asked. -/
structure Traced (h : PresenceHub) (source : ℕ → Option (ℕ × Json)) : Prop where
  linked : ∀ id call, h.pendingRequests.get id = some call →
    ∃ deviceId, h.calls[call]? = some ⟨id, deviceId, .racing⟩
  won : ∀ call c r, h.calls[call]? = some c → c.waiting = .won r → FromDevice h source call r
  answered : ∀ call status r, (call, FsAnswer.agent status r) ∈ h.answers →
    h.calls[call]?.map ProxyCall.waiting = some .done ∧ FromDevice h source call r

section Traced

variable {h h' : PresenceHub} {source source' : ℕ → Option (ℕ × Json)} {call : ℕ} {r : Json}

theorem FromDevice.keep (hfrom : FromDevice h source call r) {c c' : ProxyCall}
    (hcall : h.calls[call]? = some c) (hcall' : h'.calls[call]? = some c')
    (hid : c'.requestId = c.requestId) (hdevice : c'.deviceId = c.deviceId)
    (hsource : source' call = source call)
    (haccepted : ∀ (k : ℕ) (d : String), h.accepted[k]? = some d → h'.accepted[k]? = some d) :
    FromDevice h' source' call r := by
  obtain ⟨c₀, hc₀, hr⟩ := hfrom
  obtain rfl : c = c₀ := Option.some.inj (hcall.symm.trans hc₀)
  refine ⟨c', hcall', hr.imp (fun hr => hid ▸ hr) fun ⟨k, hk, hd⟩ => ?_⟩
  exact ⟨k, hsource.trans hk, haccepted k _ (hdevice ▸ hd)⟩

/-- What neither moves a call nor answers one. -/
theorem Traced.quiet (ht : Traced h source) (hcalls : h'.calls = h.calls)
    (hpending : ∀ id call, h'.pendingRequests.get id = some call →
      h.pendingRequests.get id = some call)
    (hanswers : h'.answers = h.answers)
    (haccepted : ∀ (k : ℕ) (d : String), h.accepted[k]? = some d → h'.accepted[k]? = some d) :
    Traced h' source := by
  have hkeep : ∀ call r, FromDevice h source call r → FromDevice h' source call r :=
    fun call r hfrom => by
      obtain ⟨c, hc, -⟩ := id hfrom
      exact hfrom.keep hc (hcalls ▸ hc) rfl rfl rfl haccepted
  refine ⟨fun id call hid => ?_, fun call c r hc hr => ?_, fun call status r ha => ?_⟩
  · rw [hcalls]
    exact ht.linked id call (hpending id call hid)
  · exact hkeep call r (ht.won call c r (hcalls ▸ hc) hr)
  · rw [hcalls]
    obtain ⟨hdone, hfrom⟩ := ht.answered call status r (hanswers ▸ ha)
    exact ⟨hdone, hkeep call r hfrom⟩

/-- A call takes its next state, and the others stay. -/
theorem Traced.setWaiting (ht : Traced h source) (answers : List (ℕ × FsAnswer)) {c : ProxyCall}
    {waiting : Waiting} (hc : h.calls[call]? = some c) (hlive : c.waiting ≠ .done)
    (hpending : ∀ id, h'.pendingRequests.get id = some call → False)
    (hpending' : ∀ id other, h'.pendingRequests.get id = some other →
      h.pendingRequests.get id = some other)
    (hcalls : h'.calls = (h.setWaiting call waiting).calls) (haccepted : h'.accepted = h.accepted)
    (hsource : ∀ other, other ≠ call → source' other = source other)
    (hanswers : h'.answers = h.answers ++ answers)
    (hwon : ∀ r, waiting = .won r → FromDevice h' source' call r)
    (hanswered : ∀ other status r, (other, FsAnswer.agent status r) ∈ answers →
      other = call ∧ waiting = .done ∧ FromDevice h' source' call r) : Traced h' source' := by
  have hother : ∀ other, other ≠ call → h'.calls[other]? = h.calls[other]? := fun other hne => by
    rw [hcalls, calls_setWaiting, if_neg hne.symm]
  have hown : h'.calls[call]? = some { c with waiting := waiting } := by
    rw [hcalls, calls_setWaiting, if_pos rfl, hc, Option.map_some]
  have hkeep : ∀ other r, other ≠ call → FromDevice h source other r →
      FromDevice h' source' other r := fun other r hne hfrom => by
    obtain ⟨c', hc', -⟩ := id hfrom
    exact hfrom.keep hc' ((hother other hne).trans hc') rfl rfl (hsource other hne)
      fun k d hk => haccepted ▸ hk
  refine ⟨fun id other hid => ?_, fun other c' r hc' hr => ?_, fun other status r ha => ?_⟩
  · have hne : other ≠ call := fun heq => hpending id (heq ▸ hid)
    rw [hother other hne]
    exact ht.linked id other (hpending' id other hid)
  · by_cases hne : other = call
    · subst hne
      obtain rfl := Option.some.inj (hown.symm.trans hc')
      exact hwon r hr
    · exact hkeep other r hne (ht.won other c' r ((hother other hne).symm.trans hc') hr)
  · rw [hanswers] at ha
    rcases List.mem_append.mp ha with ha | ha
    · obtain ⟨hdone, hfrom⟩ := ht.answered other status r ha
      have hne : other ≠ call := by
        rintro rfl
        rw [hc] at hdone
        exact hlive (Option.some.inj hdone)
      rw [hother other hne]
      exact ⟨hdone, hkeep other r hne hfrom⟩
    · obtain ⟨rfl, hdone, hfrom⟩ := hanswered other status r ha
      rw [hown]
      exact ⟨congrArg some hdone, hfrom⟩

theorem resolve_racing {c : ProxyCall} (hc : h.calls[call]? = some c) (hracing : c.waiting = .racing) :
    h.resolve call r = h.setWaiting call (.won r) := by
  rw [resolve, hc, Option.map_some, hracing]

/-- A message, from a socket of the device it answers for. -/
theorem Traced.receive (ht : Traced h source) {socket : ℕ} {data : Json} {call : ℕ}
    (hresolves : resolves h data = some call)
    (hguard : ∀ c ∈ h.calls[call]?, h.accepted[socket]? = some c.deviceId) :
    Traced (h.receive (some data)) (Function.update source call (some (socket, data))) := by
  obtain ⟨id, hid, hcall⟩ := Option.bind_eq_some_iff.mp hresolves
  obtain ⟨deviceId, hc⟩ := ht.linked id call hcall
  have hreceive : h.receive (some data) =
      { h with pendingRequests := h.pendingRequests.delete id }.setWaiting call (.won data) := by
    simp only [PresenceHub.receive, hid, hcall]
    exact resolve_racing hc rfl
  have hget : ∀ id' other, (h.pendingRequests.delete id).get id' = some other →
      id' ≠ id ∧ h.pendingRequests.get id' = some other := fun id' other hother => by
    rw [Dict.get_delete] at hother
    split at hother
    · cases hother
    · exact ⟨by assumption, hother⟩
  rw [hreceive]
  refine ht.setWaiting [] hc ?_ (fun id' hid' => ?_)
    (fun id' other hother => (hget id' other hother).2) rfl rfl
    (fun other hne => Function.update_of_ne hne _ _) (List.append_nil _).symm (fun r hr => ?_)
    fun _ _ _ hnone => absurd hnone List.not_mem_nil
  · rintro ⟨⟩
  · obtain ⟨hne, hid'⟩ := hget id' call hid'
    obtain ⟨deviceId', hc'⟩ := ht.linked id' call hid'
    exact hne (congrArg ProxyCall.requestId (Option.some.inj (hc'.symm.trans hc)))
  · cases hr
    refine ⟨⟨id, deviceId, .won data⟩, ?_, Or.inr ⟨socket, Function.update_self _ _ _, hguard ⟨id, deviceId, .racing⟩ hc⟩⟩
    rw [calls_setWaiting, if_pos rfl, hc]
    rfl

/-- A timer. -/
theorem Traced.expire (ht : Traced h source) (call : ℕ) : Traced (h.expire call) source := by
  unfold PresenceHub.expire
  split
  · exact ht
  rename_i c hc
  split
  · have hget : ∀ id' other, (h.pendingRequests.delete c.requestId).get id' = some other →
        id' ≠ c.requestId ∧ h.pendingRequests.get id' = some other := fun id' other hother => by
      rw [Dict.get_delete] at hother
      split at hother
      · cases hother
      · exact ⟨by assumption, hother⟩
    have hpending : ∀ id', (h.pendingRequests.delete c.requestId).get id' = some call → False :=
      fun id' hid' => by
        obtain ⟨hne, hid'⟩ := hget id' call hid'
        obtain ⟨deviceId', hc'⟩ := ht.linked id' call hid'
        exact hne (congrArg ProxyCall.requestId (Option.some.inj (hc'.symm.trans hc)))
    by_cases hracing : c.waiting = .racing
    · rw [resolve_racing (h := { h with pendingRequests := h.pendingRequests.delete c.requestId }) hc
        hracing]
      refine ht.setWaiting [] hc (by rw [hracing]; rintro ⟨⟩) hpending
        (fun id' other hother => (hget id' other hother).2) rfl rfl (fun _ _ => rfl)
        (List.append_nil _).symm (fun r hr => ?_) fun _ _ _ hnone => absurd hnone List.not_mem_nil
      cases hr
      refine ⟨{ c with waiting := .won (timeoutResult c.requestId) }, ?_, Or.inl rfl⟩
      rw [calls_setWaiting, if_pos rfl, hc]
      rfl
    · have hresolve : { h with pendingRequests := h.pendingRequests.delete c.requestId }.resolve call
          (timeoutResult c.requestId) =
            { h with pendingRequests := h.pendingRequests.delete c.requestId } := by
        unfold resolve
        split
        · rename_i heq
          obtain ⟨c', hc', hwaiting⟩ := Option.map_eq_some_iff.mp heq
          obtain rfl : c = c' := Option.some.inj (hc.symm.trans hc')
          exact absurd hwaiting hracing
        · rfl
      rw [hresolve]
      exact ht.quiet rfl (fun id' other hother => (hget id' other hother).2) rfl fun _ _ hk => hk
  · exact ht

/-- The handler goes on. -/
theorem Traced.resume (ht : Traced h source) (call : ℕ) : Traced (h.resume call) source := by
  unfold PresenceHub.resume
  split
  · rename_i r hr
    obtain ⟨c, hc, hwon⟩ := Option.map_eq_some_iff.mp hr
    have hpending : ∀ id, h.pendingRequests.get id = some call → False := fun id hid => by
      obtain ⟨deviceId, hc'⟩ := ht.linked id call hid
      obtain rfl := Option.some.inj (hc.symm.trans hc')
      cases hwon
    have hlive : c.waiting ≠ .done := by
      rw [hwon]
      nofun
    refine ht.setWaiting [(call, respond r)] hc hlive hpending (fun _ _ hid => hid) rfl rfl (fun _ _ => rfl) rfl nofun
      fun other status r' hmem => ?_
    obtain ⟨rfl, heq⟩ := Prod.mk.inj (List.mem_singleton.mp hmem)
    obtain rfl : r' = r := (FsAnswer.agent.inj heq).2
    have hc' : (h.setWaiting other .done).calls[other]? = some { c with waiting := .done } := by
      rw [calls_setWaiting, if_pos rfl, hc]
      rfl
    exact ⟨rfl, rfl, (ht.won other c r' hc hwon).keep hc hc' rfl rfl rfl fun _ _ hk => hk⟩
  · exact ht

/-- A new call. -/
theorem Traced.append (ht : Traced h source) {c : ProxyCall} (hcalls : h'.calls = h.calls ++ [c])
    (hlive : ∀ r, c.waiting ≠ .won r) (haccepted : h'.accepted = h.accepted)
    (hpending : ∀ id call, h'.pendingRequests.get id = some call →
      h.pendingRequests.get id = some call ∨
        call = h.calls.length ∧ ∃ deviceId, c = ⟨id, deviceId, .racing⟩)
    (hanswers : ∀ call status r, (call, FsAnswer.agent status r) ∈ h'.answers →
      (call, FsAnswer.agent status r) ∈ h.answers) : Traced h' source := by
  have hold : ∀ {call : ℕ} {c' : ProxyCall}, h.calls[call]? = some c' → h'.calls[call]? = some c' :=
    fun hc' => by
      rw [hcalls]
      exact (List.getElem?_append_left (lt_of_get hc')).trans hc'
  have hkeep : ∀ call r, FromDevice h source call r → FromDevice h' source call r :=
    fun call r hfrom => by
      obtain ⟨c', hc', -⟩ := id hfrom
      exact hfrom.keep hc' (hold hc') rfl rfl rfl fun k d hk => haccepted ▸ hk
  refine ⟨fun id call hid => ?_, fun call c' r hc' hr => ?_, fun call status r ha => ?_⟩
  · rcases hpending id call hid with hid | ⟨rfl, deviceId, rfl⟩
    · obtain ⟨deviceId, hc'⟩ := ht.linked id call hid
      exact ⟨deviceId, hold hc'⟩
    · exact ⟨deviceId, by rw [hcalls]; exact List.getElem?_concat_length⟩
  · rw [hcalls, List.getElem?_append] at hc'
    split at hc'
    · exact hkeep call r (ht.won call c' r hc' hr)
    · rw [List.getElem?_singleton] at hc'
      split at hc'
      · obtain rfl := Option.some.inj hc'
        exact absurd hr (hlive r)
      · cases hc'
  · obtain ⟨hdone, hfrom⟩ := ht.answered call status r (hanswers call status r ha)
    obtain ⟨c', hc', hwaiting⟩ := Option.map_eq_some_iff.mp hdone
    exact ⟨by rw [hold hc', Option.map_some, hwaiting], hkeep call r hfrom⟩

theorem Traced.proxy (ht : Traced h source) (body : FsRequest) (requestId : String)
    (sendError : Option String) : Traced (h.proxy body requestId sendError).1 source := by
  unfold PresenceHub.proxy
  split
  · exact ht
  split
  · refine ht.append rfl nofun rfl (fun id call hid => Or.inl ?_) fun call status r ha => ?_
    · rw [Dict.get_delete] at hid
      split at hid
      · cases hid
      · rename_i hne
        rwa [Dict.get_set, if_neg hne] at hid
    · refine (List.mem_append.mp ha).resolve_right fun ha => ?_
      cases (Prod.mk.inj (List.mem_singleton.mp ha)).2
  · refine ht.append rfl nofun rfl (fun id call hid => ?_) fun _ _ _ ha => ha
    rw [Dict.get_set] at hid
    split at hid
    · rename_i heq
      exact Or.inr ⟨(Option.some.inj hid).symm, body.deviceId, by rw [heq]⟩
    · exact Or.inl hid

end Traced

/-! ## Whose socket it is -/

/-- Sockets are filed under their devices, were opened by their owners, and every node belongs to the
owner of its device. -/
structure Homes (s : Fleet) : Prop where
  sockets : ∀ deviceId, ∀ k ∈ s.hub.sockets deviceId, s.hub.accepted[k]? = some deviceId
  opened : ∀ (k : ℕ) (deviceId userId : String), s.Opened k deviceId userId →
    ∀ d ∈ s.devices, d.id = deviceId → d.userId = userId
  length : s.openedBy.length = s.hub.accepted.length
  nodes : ∀ n ∈ s.nodes, ⟨n.deviceId, n.userId⟩ ∈ s.devices

section Homes

variable {s s' : Fleet}

theorem owns_iff {userId deviceId : String} :
    s.owns userId deviceId = true ↔ ⟨deviceId, userId⟩ ∈ s.devices := by
  simp only [owns, List.any_eq_true, Bool.and_eq_true, decide_eq_true_eq]
  constructor
  · rintro ⟨⟨_, _⟩, hd, rfl, rfl⟩
    exact hd
  · exact fun hd => ⟨_, hd, rfl, rfl⟩

/-- A socket of a device of the user was opened by the user. -/
theorem Homes.atHome (h : s.Homes) {userId deviceId : String} (howned : ⟨deviceId, userId⟩ ∈ s.devices)
    {k : ℕ} (hk : k ∈ s.hub.sockets deviceId) : s.AtHome (userId, k) := by
  have haccepted := h.sockets deviceId k hk
  obtain ⟨opener, hopener⟩ : ∃ opener, s.openedBy[k]? = some opener := by
    have hlt := (List.getElem?_eq_some_iff.mp haccepted).1
    exact ⟨_, List.getElem?_eq_getElem (h.length ▸ hlt)⟩
  obtain rfl : userId = opener := h.opened k deviceId opener ⟨haccepted, hopener⟩ _ howned rfl
  exact ⟨_, howned, rfl, haccepted, hopener⟩

/-- Fewer devices, as long as no node is left behind, and the same sockets or fewer. -/
theorem Homes.shrink (h : s.Homes)
    (hsockets : ∀ deviceId, ∀ k ∈ s'.hub.sockets deviceId, k ∈ s.hub.sockets deviceId)
    (haccepted : s'.hub.accepted = s.hub.accepted) (hopenedBy : s'.openedBy = s.openedBy)
    (hdevices : ∀ d ∈ s'.devices, d ∈ s.devices)
    (hnodes : ∀ n ∈ s'.nodes, ⟨n.deviceId, n.userId⟩ ∈ s'.devices) : s'.Homes where
  sockets deviceId k hk := haccepted ▸ h.sockets deviceId k (hsockets deviceId k hk)
  opened k deviceId userId hopen d hd hid := by
    rw [Opened, haccepted, hopenedBy] at hopen
    exact h.opened k deviceId userId hopen d (hdevices d hd) hid
  length := by rw [hopenedBy, haccepted, h.length]
  nodes := hnodes

/-! What the hub does to its sockets. -/

variable {h : PresenceHub}

/-- The hub after a step has no sockets that it had not. -/
structure Keeps (h h' : PresenceHub) : Prop where
  sockets : ∀ deviceId, ∀ k ∈ h'.sockets deviceId, k ∈ h.sockets deviceId
  accepted : h'.accepted = h.accepted

theorem Keeps.of_eq {h' : PresenceHub} (hsockets : h'.deviceSockets = h.deviceSockets)
    (haccepted : h'.accepted = h.accepted) : Keeps h h' where
  sockets deviceId k hk := by rwa [PresenceHub.sockets, hsockets] at hk
  accepted := haccepted

theorem keeps_resolve (call : ℕ) (r : Json) (pending : Dict String ℕ) :
    Keeps h ({ h with pendingRequests := pending }.resolve call r) := by
  unfold resolve
  split
  · exact .of_eq rfl rfl
  · exact .of_eq rfl rfl

theorem keeps_receive (data : Option Json) : Keeps h (h.receive data) := by
  unfold PresenceHub.receive
  split
  · exact .of_eq rfl rfl
  split
  · exact .of_eq rfl rfl
  split
  · exact .of_eq rfl rfl
  · exact keeps_resolve _ _ _

theorem keeps_expire (call : ℕ) : Keeps h (h.expire call) := by
  unfold PresenceHub.expire
  split
  · exact .of_eq rfl rfl
  split
  · exact keeps_resolve _ _ _
  · exact .of_eq rfl rfl

theorem keeps_resume (call : ℕ) : Keeps h (h.resume call) := by
  unfold PresenceHub.resume
  split
  · exact .of_eq rfl rfl
  · exact .of_eq rfl rfl

theorem keeps_proxy (body : FsRequest) (requestId : String) (sendError : Option String) :
    Keeps h (h.proxy body requestId sendError).1 := by
  unfold PresenceHub.proxy
  split
  · exact .of_eq rfl rfl
  split
  · exact .of_eq rfl rfl
  · exact .of_eq rfl rfl

theorem keeps_close (socket : ℕ) : Keeps h (h.close socket) := by
  unfold PresenceHub.close
  split
  · exact .of_eq rfl rfl
  split
  · exact .of_eq rfl rfl
  · rename_i deviceId _ sockets hget
    refine ⟨fun deviceId' k hk => ?_, rfl⟩
    rw [PresenceHub.sockets, Dict.get_set] at hk
    split at hk
    · rename_i heq
      rw [PresenceHub.sockets, heq, hget]
      exact List.mem_of_mem_filter hk
    · exact hk

theorem keeps_disconnect (deviceId : String) : Keeps h (h.disconnect deviceId) := by
  unfold PresenceHub.disconnect
  split
  · exact .of_eq rfl rfl
  · refine ⟨fun deviceId' k hk => ?_, rfl⟩
    rw [PresenceHub.sockets, Dict.get_delete] at hk
    split at hk
    · cases hk
    · exact hk

theorem Homes.hub (h : s.Homes) {hub' : PresenceHub} (hkeeps : Keeps s.hub hub') :
    { s with hub := hub' }.Homes :=
  h.shrink hkeeps.sockets hkeeps.accepted rfl (fun _ hd => hd) h.nodes

theorem Homes.insertDevice (h : s.Homes) {device : Device} (hnew : device.id ∉ s.hub.accepted) :
    (s.insertDevice device).Homes := by
  unfold Fleet.insertDevice
  split
  · exact h
  · refine ⟨h.sockets, fun k deviceId userId hopen d hd hid => ?_, h.length,
      fun n hn => List.mem_cons_of_mem _ (h.nodes n hn)⟩
    rcases List.mem_cons.mp hd with rfl | hd
    · exact absurd (hid ▸ List.mem_of_getElem? hopen.1) hnew
    · exact h.opened k deviceId userId hopen d hd hid

theorem Homes.deleteDevice (h : s.Homes) (userId deviceId : String) :
    (s.deleteDevice userId deviceId).Homes := by
  refine h.shrink (fun _ _ hk => hk) rfl rfl (fun d hd => List.mem_of_mem_filter hd) fun n hn => ?_
  obtain ⟨hn, hkept⟩ := List.mem_filter.mp hn
  have howned := h.nodes n hn
  refine List.mem_filter.mpr ⟨howned, ?_⟩
  by_cases hgone : n.deviceId = deviceId ∧ n.userId = userId
  · obtain ⟨rfl, rfl⟩ := hgone
    simp [owns_iff.mpr howned] at hkept
  · simpa using not_and_or.mp hgone

theorem Homes.advertise (h : s.Homes) (userId deviceId nodeId mountPoint : String) :
    (s.advertise userId deviceId nodeId mountPoint).Homes := by
  unfold Fleet.advertise
  split
  · exact h
  rename_i howns
  split
  · exact h
  split
  · exact h
  · refine ⟨h.sockets, h.opened, h.length, fun n hn => ?_⟩
    rcases List.mem_cons.mp hn with rfl | hn
    · exact (owns_iff (s := s)).mp (by simpa using howns)
    · exact h.nodes n hn

theorem Homes.tunnel (h : s.Homes) (userId deviceId : String) : (s.tunnel userId deviceId).Homes := by
  unfold Fleet.tunnel
  split
  · exact h
  rename_i hne
  split
  · rename_i howns
    have howned := owns_iff.mp howns
    have hconnect : s.hub.connect deviceId =
        { s.hub with
          deviceSockets := s.hub.deviceSockets.set deviceId
            (s.hub.sockets deviceId ++ [s.hub.accepted.length])
          accepted := s.hub.accepted ++ [deviceId] } := if_neg hne
    rw [hconnect]
    have hold : ∀ {k : ℕ} {d : String}, s.hub.accepted[k]? = some d →
        (s.hub.accepted ++ [deviceId])[k]? = some d := fun hk =>
      (List.getElem?_append_left (List.getElem?_eq_some_iff.mp hk).1).trans hk
    refine ⟨fun deviceId' k hk => ?_, fun k deviceId' userId' hopen d hd hid => ?_, ?_, h.nodes⟩
    · rw [PresenceHub.sockets, Dict.get_set] at hk
      split at hk
      · rename_i heq
        rcases List.mem_append.mp hk with hk | hk
        · exact heq ▸ hold (h.sockets deviceId k hk)
        · obtain rfl := List.mem_singleton.mp hk
          exact heq ▸ List.getElem?_concat_length
      · exact hold (h.sockets deviceId' k hk)
    · obtain ⟨haccepted, hopener⟩ := hopen
      by_cases hlt : k < s.hub.accepted.length
      · rw [List.getElem?_append_left hlt] at haccepted
        rw [List.getElem?_append_left (h.length ▸ hlt)] at hopener
        exact h.opened k deviceId' userId' ⟨haccepted, hopener⟩ d hd hid
      · have hk : k = s.hub.accepted.length := by
          have := (List.getElem?_eq_some_iff.mp haccepted).1
          simp only [List.length_append, List.length_singleton] at this
          omega
        rw [hk, List.getElem?_concat_length] at haccepted
        rw [hk, ← h.length, List.getElem?_concat_length] at hopener
        obtain rfl := Option.some.inj haccepted
        obtain rfl := Option.some.inj hopener
        have heq : d = ⟨deviceId, userId⟩ := List.inj_on_of_nodup_map s.pk hd howned hid
        rw [heq]
    · simp [h.length]
  · exact h

end Homes

/-! ## Isolation -/

/-- Sockets where they belong, and results from where they should. -/
structure Sound (s : Fleet) : Prop where
  homes : s.Homes
  traced : Traced s.hub s.source

variable {s : Fleet}

theorem sound_start : start.Sound where
  homes :=
    { sockets := fun _ _ hk => absurd hk List.not_mem_nil
      opened := fun _ _ _ _ _ hd => absurd hd List.not_mem_nil
      length := rfl
      nodes := fun _ hn => absurd hn List.not_mem_nil }
  traced :=
    { linked := fun _ _ hid => nomatch hid
      won := fun _ _ _ hc => nomatch hc
      answered := fun _ _ _ ha => absurd ha List.not_mem_nil }

/-- A change of the tables. -/
theorem Sound.tables (h : s.Sound) {s' : Fleet} (homes : s'.Homes) (hhub : s'.hub = s.hub)
    (hsource : s'.source = s.source) : s'.Sound :=
  ⟨homes, by rw [hhub, hsource]; exact h.traced⟩

theorem Sound.forward (h : s.Sound) (node : Option StorageNode) (o : FsOp) (requestId : String)
    (sendError : Option String) : (s.forward node o requestId sendError).Sound := by
  unfold Fleet.forward
  split
  · exact h
  · exact ⟨h.homes.hub (keeps_proxy _ _ _), h.traced.proxy _ _ _⟩

theorem Sound.receive (h : s.Sound) {socket : ℕ} {data : Option Json}
    (hguard : s.Guarded (.receives socket data)) : (s.receive socket data).Sound := by
  have hkeeps : Keeps s.hub (s.hub.receive data) := keeps_receive data
  refine ⟨h.homes.shrink hkeeps.sockets hkeeps.accepted rfl (fun _ hd => hd) h.homes.nodes, ?_⟩
  unfold Fleet.receive
  rcases data with _ | data
  · exact h.traced
  · rcases hresolves : resolves s.hub data with _ | call
    · have hreceive : s.hub.receive (some data) = s.hub := by
        simp only [PresenceHub.receive]
        split
        · rfl
        · rename_i id hid
          have hget : s.hub.pendingRequests.get id = none := by
            simpa only [resolves, hid, Option.bind_some] using hresolves
          simp only [hget]
      simp only [hresolves, hreceive]
      exact h.traced
    · simp only [hresolves]
      exact h.traced.receive hresolves (hguard call hresolves)

theorem Sound.tunnel (h : s.Sound) (userId deviceId : String) : (s.tunnel userId deviceId).Sound := by
  refine ⟨h.homes.tunnel userId deviceId, ?_⟩
  unfold Fleet.tunnel
  split
  · exact h.traced
  rename_i hne
  split
  · have hconnect : s.hub.connect deviceId =
        { s.hub with
          deviceSockets := s.hub.deviceSockets.set deviceId
            (s.hub.sockets deviceId ++ [s.hub.accepted.length])
          accepted := s.hub.accepted ++ [deviceId] } := if_neg hne
    rw [hconnect]
    exact h.traced.quiet rfl (fun _ _ hid => hid) rfl fun k d hk =>
      (List.getElem?_append_left (List.getElem?_eq_some_iff.mp hk).1).trans hk
  · exact h.traced

theorem traced_close (h : s.Sound) (socket : ℕ) : Traced (s.hub.close socket) s.source := by
  unfold PresenceHub.close
  split
  · exact h.traced
  split
  · exact h.traced
  · exact h.traced.quiet rfl (fun _ _ hid => hid) rfl fun _ _ hk => hk

theorem traced_disconnect (h : s.Sound) (deviceId : String) :
    Traced (s.hub.disconnect deviceId) s.source := by
  unfold PresenceHub.disconnect
  split
  · exact h.traced
  · exact h.traced.quiet rfl (fun _ _ hid => hid) rfl fun _ _ hk => hk

theorem Sound.step (s : Fleet) (e : FleetEvent) (h : s.Sound) (hguard : s.Guarded e) :
    (s.step e).Sound := by
  cases e with
  | registers device =>
    refine h.tables (h.homes.insertDevice hguard) ?_ ?_
    · simp only [Fleet.step, insertDevice]
      split
      · rfl
      · rfl
    · simp only [Fleet.step, insertDevice]
      split
      · rfl
      · rfl
  | removes userId deviceId reached =>
    have hdeleted : (s.deleteDevice userId deviceId).Sound :=
      h.tables (h.homes.deleteDevice userId deviceId) rfl rfl
    simp only [Fleet.step]
    split
    · exact ⟨hdeleted.homes.hub (keeps_disconnect deviceId), traced_disconnect hdeleted deviceId⟩
    · exact hdeleted
  | advertises userId deviceId nodeId mountPoint =>
    refine h.tables (h.homes.advertise userId deviceId nodeId mountPoint) ?_ ?_
    · simp only [Fleet.step, advertise, apply_ite Fleet.hub, ite_self]
    · simp only [Fleet.step, advertise, apply_ite Fleet.source, ite_self]
  | removesNode userId nodeId =>
    exact h.tables (h.homes.shrink (fun _ _ hk => hk) rfl rfl (fun _ hd => hd)
      fun n hn => h.homes.nodes n (List.mem_of_mem_filter hn)) rfl rfl
  | tunnels userId deviceId => exact h.tunnel userId deviceId
  | commands userId targetDeviceId => exact h
  | asks userId nodeId o requestId sendError => exact h.forward _ o requestId sendError
  | asksShared ownerId nodeId o requestId sendError => exact h.forward _ o requestId sendError
  | receives socket data => exact h.receive hguard
  | closes socket => exact ⟨h.homes.hub (keeps_close socket), traced_close h socket⟩
  | expires call => exact ⟨h.homes.hub (keeps_expire call), h.traced.expire call⟩
  | resumes call => exact ⟨h.homes.hub (keeps_resume call), h.traced.resume call⟩

/-- The last socket of the node's device, for the node's owner. -/
theorem Sound.sentOver (h : s.Sound) {node : Option StorageNode} {n : StorageNode}
    (hnode : node = some n) (hn : n ∈ s.nodes) {x : String × ℕ}
    (hx : x ∈ ((s.sentOver node).map fun k => (n.userId, k)).toList) : s.AtHome x := by
  subst hnode
  obtain ⟨k, hk, rfl⟩ := Option.map_eq_some_iff.mp (Option.mem_toList.mp hx)
  exact h.homes.atHome (h.homes.nodes n hn) (List.mem_of_getLast? hk)

theorem Sound.delivered (h : s.Sound) {e : FleetEvent} (hguard : s.Guarded e) :
    ∀ x ∈ s.deliveries e, s.AtHome x := by
  intro x hx
  cases e with
  | commands userId targetDeviceId =>
    obtain ⟨k, hk, rfl⟩ := List.mem_map.mp hx
    refine h.homes.atHome (owns_iff.mp (hguard.resolve_left fun hnil => ?_)) hk
    rw [hnil] at hk
    cases hk
  | asks userId nodeId o requestId sendError =>
    simp only [deliveries] at hx
    rcases hnode : s.nodeOf userId nodeId with _ | n
    · rw [hnode] at hx
      cases hx
    · obtain rfl : n.userId = userId := by
        have hfound := List.find?_some hnode
        simp only [Bool.and_eq_true, decide_eq_true_eq] at hfound
        exact hfound.2
      exact h.sentOver hnode (List.mem_of_find?_eq_some hnode) hx
  | asksShared ownerId nodeId o requestId sendError =>
    simp only [deliveries] at hx
    rcases hguard with hnone | ⟨n, hnode, rfl⟩
    · rw [hnone] at hx
      cases hx
    · exact h.sentOver hnode (List.mem_of_find?_eq_some hnode) hx
  | _ => cases hx

end Fleet

open Fleet

/-- **In a run whose steps are guarded, commands and filesystem requests reach only sockets of the
sender's devices, and every answer comes from a socket of the device that was asked.** -/
theorem isolated {es : List FleetEvent} {e : FleetEvent}
    (h : Along Guarded Fleet.step start (es ++ [e])) : Isolated (run Fleet.step start es) e := by
  obtain ⟨hrun, hguard, -⟩ := Along.append_iff.mp h
  have hsound : (run Fleet.step start es).Sound := hrun.invariant Sound.step sound_start
  exact ⟨hsound.delivered hguard, fun call status r ha =>
    ((Sound.step _ e hsound hguard).traced.answered call status r ha).2⟩

namespace Neighbours

/-- Alice's node and Bob's television, both connected. -/
def connected : List FleetEvent :=
  [.registers ⟨"nas", "alice"⟩, .registers ⟨"tv", "bob"⟩, .advertises "alice" "nas" "sn_1" "/mnt",
    .tunnels "alice" "nas", .tunnels "bob" "tv"]

def stat : FleetEvent := .asks "alice" "sn_1" ⟨"fs_stat", "a.txt", none, none, none, none⟩ "request-1" none

def reply : Json := .object [("request_id", .string "request-1"), ("success", .bool true)]

end Neighbours

open Neighbours

/-- Alice's node answers her. -/
theorem isolated_ownReply :
    Isolated (run Fleet.step start (connected ++ [stat, .receives 0 (some reply)])) (.resumes 0) :=
  isolated (by decide)

/-- Alice commands Bob's television; and it answers for her node. -/
theorem not_isolated :
    ¬ Isolated (run Fleet.step start connected) (.commands "alice" "tv")
    ∧ ¬ Isolated (run Fleet.step start (connected ++ [stat, .receives 1 (some reply)]))
      (.resumes 0) := by
  constructor
  · intro h
    obtain ⟨d, hd, huser, haccepted, -⟩ := h.delivered ("alice", 1) (by decide)
    have hforeign : ∀ d ∈ (run Fleet.step start connected).devices, d.userId = "alice" →
        (run Fleet.step start connected).hub.accepted[1]? ≠ some d.id := by
      decide
    exact hforeign d hd huser haccepted
  · intro h
    obtain ⟨c, hc, hr⟩ := h.returned 0 200 reply (List.mem_singleton.mpr rfl)
    have hdevice : ((run Fleet.step start (connected ++ [stat, .receives 1 (some reply)])).step
        (.resumes 0)).hub.calls[0]?.map ProxyCall.deviceId = some "nas" := by
      decide
    rw [hc] at hdevice
    rcases hr with htimeout | ⟨k, hk, haccepted⟩
    · have htype := congrArg (fun r : Json => (r.field "type").isSome) htimeout
      cases htype
    · obtain rfl : k = 1 := (congrArg Prod.fst (Option.some.inj hk)).symm
      rw [Option.some.inj hdevice] at haccepted
      revert haccepted
      decide

end Pcos.Edge
