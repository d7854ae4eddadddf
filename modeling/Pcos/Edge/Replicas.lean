import Pcos.Agent.ChunkWrites
import Pcos.Backend.Replicas
import Pcos.Edge.DeviceIsolation
import Pcos.Edge.Durability
import Pcos.Edge.FileTree
import Pcos.Edge.NodeReads
import Pcos.Foundations.Replication

/-!
# Edge/Replicas — the copies that are reported, at the edge and in the backend (`cluster/rebalance`)

Chunks reach the storage nodes as commands that the agents carry out some time later; these are the
only writes to a node there are.  A rebalance sends no command.  It inserts a row for each file and
node that are `due`, says `synced`, and takes the file's hash for the checksum.

    chunk │ fs/write ──command──▸ agent ──▸ disk, written
    rebalance ──▸ file_replicas

So **a reported replica exists if the content was on the node before the row was inserted, and the
file keeps its content afterwards** (`replicas_exist`).
-/

namespace Pcos.Edge.Files

open Foundations Accounts

/-! ## What there is -/

/-- A row of `file_replicas`. -/
structure Replica where
  fileId : String
  storageNodeId : String
  deviceId : String
  status : String
  checksum : String
deriving DecidableEq

/-- A command `fs_write_chunk`, sent to the agent of a node. -/
structure WriteCommand where
  node : StorageNode
  relativePath : String
  offset : Option ℤ
  dataBase64 : String
deriving DecidableEq

/-- D1 and R2, the nodes that are online, the files of all nodes by their place, the commands on their
way, and a record of the contents that commands have left on nodes. -/
structure Cluster (κ : Type) where
  store : Store
  devices : List Device
  online : List String
  /-- `cluster_protection.protection_mode` -/
  modes : String → Option String
  replicas : List Replica
  disk : κ → Option Bytes
  commands : List WriteCommand
  written : List (String × Bytes)

/-- Where the agent of a device finds a path below a storage path; nowhere, if it refuses it. -/
abbrev Locate (κ : Type) := String → String → String → Option κ

namespace Cluster

variable {κ : Type} (d : Deployment) (locate : Locate κ) (c : Cluster κ)

def file (id : String) : Option FileEntry := c.store.files.find? fun f => f.id = id

/-- `SELECT … FROM storage_nodes WHERE id = ?1 AND user_id = ?2` -/
def node (user id : String) : Option StorageNode :=
  c.store.nodes.find? fun n => n.id = id && n.userId = user

/-- The node that a file is on. -/
def nodeOf (f : FileEntry) : Option StorageNode := f.storageNodeId.bind (c.node f.userId)

/-- The content in R2, or in the row. -/
def inline (f : FileEntry) : Option Bytes :=
  (if f.storagePath = "r2" ∧ d.cacheR2 then c.store.objects.get (r2Key f.userId f.id) else none)
    <|> f.dataBlob

/-- The content, or the place that has it. -/
def source (f : FileEntry) : Option (Bytes ⊕ κ) :=
  (c.inline d f).map .inl
    <|> (c.nodeOf f).bind fun n => (locate n.deviceId n.storagePath f.relPath).map .inr

/-- What is there. -/
def read : Bytes ⊕ κ → Option Bytes
  | .inl bytes => some bytes
  | .inr place => c.disk place

/-- Where the content of a file is. -/
def located (id : String) : Option (Bytes ⊕ κ) := (c.file id).bind (c.source d locate)

def content (id : String) : Option Bytes := (c.located d locate id).bind c.read

/-- The rows that are reported as synced. -/
def synced : List (Claim String String String) :=
  (c.replicas.filter fun r => r.status = "synced").map fun r => ⟨r.fileId, r.storageNodeId, r.checksum⟩

/-- `UPDATE file_entries … WHERE id = …` -/
def updateFile (id : String) (assign : FileEntry → FileEntry) : Cluster κ :=
  { c with store := { c.store with
      files := c.store.files.map fun f => if f.id = id then assign f else f } }

/-! ## Chunks -/

/-- `POST /api/v1/transfers/resumable/:id/chunk` -/
def chunk (user transferId : String) (offset : Option ℤ) (dataBase64 : Option String) (now : ℤ) :
    Cluster κ :=
  match (c.file transferId).filter fun f => f.userId = user, offset, truthy dataBase64 with
  | some entry, some offset, some dataBase64 =>
    { c.updateFile transferId (fun f => { f with updatedAt := now }) with
      commands := c.commands ++ (c.nodeOf entry).toList.map fun n =>
        ⟨n, entry.name, some offset, dataBase64⟩ }
  | _, _, _ => c

/-- `POST /api/v1/storage/nodes/:id/fs/write` -/
def fsWrite (user nodeId : String) (path : Option String) (offset : Option ℤ)
    (dataBase64 : Option String) : Cluster κ :=
  match c.node user nodeId, truthy path, truthy dataBase64 with
  | some n, some path, some dataBase64 =>
    { c with commands := c.commands ++ [⟨n, path, some (offset.getD 0), dataBase64⟩] }
  | _, _, _ => c

/-- The place of a command, and what is there once it has been carried out; nothing, if no file is
opened. -/
def effect (cmd : WriteCommand) (fate : Agent.Fate) : Option (κ × Bytes) := do
  let data ← Agent.base64Decode cmd.dataBase64
  let place ← locate cmd.node.deviceId cmd.node.storagePath cmd.relativePath
  match fate with
  | .unopened => none
  | fate =>
    let file ← Agent.writeChunk (c.disk place) ((asU64 cmd.offset).getD 0) data fate
    some (place, file)

/-- The agent carries out a command. -/
def perform [DecidableEq κ] (cmd : WriteCommand) (fate : Agent.Fate) : Cluster κ :=
  match c.effect locate cmd fate with
  | some (place, file) =>
    { c with
      disk := fun place' => if place' = place then some file else c.disk place'
      written := c.written ++ [(cmd.node.id, file)] }
  | none => c

/-- The row of a transfer that is finalized. -/
def finalized (entry : FileEntry) (sha256Hash : Option String) (now : ℤ) (f : FileEntry) :
    FileEntry :=
  { f with
    storagePath := if (truthy entry.storageNodeId).isSome then "local" else "d1"
    sha256Hash := (truthy sha256Hash).getD entry.sha256Hash
    updatedAt := now }

/-- `POST /api/v1/transfers/resumable/:id/finalize` -/
def finalize (user transferId : String) (sha256Hash : Option String) (now : ℤ) : Cluster κ :=
  match (c.file transferId).filter fun f => f.userId = user with
  | some entry =>
    c.updateFile transferId (finalized entry sha256Hash now)
  | none => c

/-! ## Nodes and devices -/

def owns (userId deviceId : String) : Bool :=
  c.devices.any fun d => d.id = deviceId && d.userId = userId

/-- The replica is neither on one of these nodes nor on one of these devices. -/
def Stays (nodes : StorageNode → Bool) (devices : String → Bool) (r : Replica) : Bool :=
  !(devices r.deviceId || c.store.nodes.any fun n => n.id = r.storageNodeId && nodes n)

/-- The rows of these nodes are deleted, and the replicas on them and on these devices. -/
def without (nodes : StorageNode → Bool) (devices : String → Bool) : Cluster κ :=
  { c with
    store := { c.store with nodes := c.store.nodes.filter fun n => !nodes n }
    replicas := c.replicas.filter (c.Stays nodes devices) }

/-- The nodes that go with a device: those the foreign key takes, and the user's own. -/
def nodesOf (userId deviceId : String) (n : StorageNode) : Bool :=
  n.deviceId = deviceId && (c.owns userId deviceId || n.userId = userId)

/-- `DELETE /api/v1/devices/:id` -/
def removeDevice (userId deviceId : String) : Cluster κ :=
  { c.without (c.nodesOf userId deviceId) fun id => id = deviceId && c.owns userId deviceId with
    devices := c.devices.filter fun d => !(d.id = deviceId && d.userId = userId) }

/-- `DELETE /api/v1/storage/nodes/:id` -/
def removeNode (userId nodeId : String) : Cluster κ :=
  c.without (fun n => n.id = nodeId && n.userId = userId) fun _ => false

/-- One disk of `POST /api/v1/agent/storage/advertise`, with the id made for its node. -/
def advertise (userId deviceId nodeId mountPoint : String) : Cluster κ :=
  if !c.owns userId deviceId then c
  else
    match c.store.nodes.find? fun n => n.deviceId = deviceId && n.storagePath = mountPoint with
    | some n => { c with online := n.id :: c.online }
    | none =>
      if c.store.nodes.any fun n => n.id = nodeId then c
      else
        { c with
          store := { c.store with nodes := c.store.nodes ++ [⟨nodeId, userId, deviceId, mountPoint⟩] }
          online := nodeId :: c.online }

/-- `POST /api/v1/devices/:id/heartbeat` -/
def heartbeat (userId deviceId : String) : Cluster κ :=
  if c.owns userId deviceId then
    { c with online := c.online ++ (c.store.nodes.filter fun n =>
        n.deviceId = deviceId && n.userId = userId).map StorageNode.id }
  else c

/-! ## Rebalancing -/

def targetReplicas (mode : String) : ℕ :=
  if mode = "two_node_protection" ∨ mode = "always_on_nas" then 2
  else if mode = "multi_node_mesh" then 3
  else 1

def target (user : String) : ℕ :=
  targetReplicas (((c.modes user).filter fun mode => mode ≠ "").getD "single_device")

/-- `SELECT id, device_id FROM storage_nodes WHERE user_id = ?1 AND is_online = 1` -/
def onlineNodes (user : String) : List StorageNode :=
  c.store.nodes.filter fun n => n.userId = user && n.id ∈ c.online

/-- `SELECT … FROM file_entries WHERE user_id = ?1 AND is_trashed = 0` -/
def files (user : String) : List FileEntry :=
  c.store.files.filter fun f => f.userId = user && !f.isTrashed

/-- The set that the nodes of a file are collected in. -/
def existingNodeIds (f : FileEntry) : List String :=
  ((truthy f.storageNodeId).toList ++ (c.replicas.filter fun r => r.fileId = f.id).filterMap
    fun r => truthy (some r.storageNodeId)).dedup

def addReplicas (rows : List Replica) : Cluster κ := { c with replicas := c.replicas ++ rows }

def scheduled (f : FileEntry) (n : StorageNode) : Replica :=
  ⟨f.id, n.id, n.deviceId, "synced", orElse f.sha256Hash "verified"⟩

/-- The constraints of the table: one row for a file and a node, and its foreign keys. -/
def accepts (r : Replica) : Bool :=
  !(c.replicas.any fun r' => r'.fileId = r.fileId && r'.storageNodeId = r.storageNodeId)
    && (c.file r.fileId).isSome && c.store.nodes.any (fun n => n.id = r.storageNodeId)
    && c.devices.any fun d => d.id = r.deviceId

/-- What the loop over the nodes does with one of them. -/
def place (f : FileEntry) (target : ℕ) (s : List String × Cluster κ) (n : StorageNode) :
    List String × Cluster κ :=
  if n.id ∉ s.1 ∧ s.1.length < target ∧ s.2.accepts (scheduled f n) then
    (n.id :: s.1, s.2.addReplicas [scheduled f n])
  else s

/-- …and the loop over the files. -/
def visit (target : ℕ) (nodes : List StorageNode) (c : Cluster κ) (f : FileEntry) : Cluster κ :=
  if 1 < target ∧ 1 < nodes.length then
    (nodes.foldl (place f target) (c.existingNodeIds f, c)).2
  else c

def rebalanceTo (target : ℕ) (user : String) : Cluster κ :=
  (c.files user).foldl (visit target (c.onlineNodes user)) c

/-- `POST /api/v1/cluster/rebalance` -/
def rebalance (user : String) : Cluster κ := c.rebalanceTo (c.target user) user

end Cluster

/-! ## Runs -/

inductive ClusterEvent
  | upload (user : String) (call : Call) (form : UploadForm)
  | uploadShare (call : Call) (r : ShareRequest) (form : UploadForm)
  | initResumable (user : String) (call : Call) (body : ResumableBody)
  | chunk (user transferId : String) (offset : Option ℤ) (dataBase64 : Option String) (now : ℤ)
  | fsWrite (user nodeId : String) (path : Option String) (offset : Option ℤ)
      (dataBase64 : Option String)
  | performs (command : ℕ) (fate : Agent.Fate)
  | finalize (user transferId : String) (sha256Hash : Option String) (now : ℤ)
  | registers (device : Device)
  | removesDevice (userId deviceId : String)
  | removesNode (userId nodeId : String)
  | advertises (userId deviceId nodeId mountPoint : String)
  | heartbeat (userId deviceId : String)
  | updateMode (user : String) (mode : Option String)
  | rebalance (user : String)

variable {κ : Type}

def clusterStep [DecidableEq κ] (d : Deployment) (p : Platform) (locate : Locate κ) (c : Cluster κ) :
    ClusterEvent → Cluster κ
  | .upload user call form => { c with store := leaves (uploadFile d p.sha256 call user form) c.store }
  | .uploadShare call r form => { c with store := leaves (uploadShare p call r form) c.store }
  | .initResumable user call body =>
    { c with store := leaves (initResumable call user d body) c.store }
  | .chunk user transferId offset dataBase64 now => c.chunk user transferId offset dataBase64 now
  | .fsWrite user nodeId path offset dataBase64 => c.fsWrite user nodeId path offset dataBase64
  | .performs command fate =>
    match c.commands[command]? with
    | some cmd => c.perform locate cmd fate
    | none => c
  | .finalize user transferId sha256Hash now => c.finalize user transferId sha256Hash now
  | .registers device =>
    if c.devices.any fun d => d.id = device.id then c else { c with devices := device :: c.devices }
  | .removesDevice userId deviceId => c.removeDevice userId deviceId
  | .removesNode userId nodeId => c.removeNode userId nodeId
  | .advertises userId deviceId nodeId mountPoint => c.advertise userId deviceId nodeId mountPoint
  | .heartbeat userId deviceId => c.heartbeat userId deviceId
  | .updateMode user mode =>
    { c with modes := fun u => if u = user then some ((truthy mode).getD "single_device")
        else c.modes u }
  | .rebalance user => c.rebalance user

/-- **Every replica that is reported as synced exists.** -/
def ReplicasExist (d : Deployment) (p : Platform) (locate : Locate κ) (c : Cluster κ) : Prop :=
  AllBacked p.sha256 (c.content d locate) c.written c.synced

/-! ## The condition -/

/-- The nodes that a rebalance reports copies of a file on: the first ones that take a row, up to a
target. -/
def Cluster.dueFor (c : Cluster κ) (target : ℕ) (user : String) (f : FileEntry) :
    List StorageNode :=
  if 1 < target ∧ 1 < (c.onlineNodes user).length then
    ((c.onlineNodes user).filter fun n =>
      n.id ∉ c.existingNodeIds f ∧ c.accepts (Cluster.scheduled f n)).take
        (target - (c.existingNodeIds f).length)
  else []

def Cluster.due (c : Cluster κ) (user : String) (f : FileEntry) : List StorageNode :=
  c.dueFor (c.target user) user f

/-- What is claimed of a replica. -/
def Replica.claim (r : Replica) : Claim String String String := ⟨r.fileId, r.storageNodeId, r.checksum⟩

section Condition

variable (d : Deployment) (p : Platform) (locate : Locate κ) (c : Cluster κ)

/-- No file with a synced replica that stays is on one of these nodes. -/
def Cluster.Spares (nodes : StorageNode → Bool) (devices : String → Bool) : Prop :=
  ∀ r ∈ c.replicas, r.status = "synced" → c.Stays nodes devices r = true →
    ∀ f ∈ c.file r.fileId, c.inline d f = none → ∀ n ∈ c.nodeOf f, nodes n = false

/-- A file with a synced replica keeps its content, and what is reported is there. -/
def ReplicaOk : ClusterEvent → Prop
  | .upload user call _ =>
    ∀ k ∈ c.synced, ∀ f ∈ c.file k.file, r2Key f.userId f.id ≠ r2Key user call.fileId
  | .performs command fate =>
    ∀ cmd ∈ c.commands[command]?, ∀ x ∈ c.effect locate cmd fate, ∀ k ∈ c.synced,
      c.located d locate k.file = some (.inr x.1) → c.disk x.1 = some x.2
  | .finalize user transferId sha256Hash now =>
    ∀ f ∈ c.file transferId, f.userId = user → transferId ∈ c.synced.map Claim.file →
      c.source d locate (Cluster.finalized f sha256Hash now f) = c.source d locate f
  | .removesDevice userId deviceId =>
    c.Spares d (c.nodesOf userId deviceId) fun id => id = deviceId && c.owns userId deviceId
  | .removesNode userId nodeId =>
    c.Spares d (fun n => n.id = nodeId && n.userId = userId) fun _ => false
  | .rebalance user =>
    ∀ f ∈ c.files user, ∀ n ∈ c.due user f,
      (Cluster.scheduled f n).claim.Backed p.sha256 (c.content d locate) c.written
  | _ => True

end Condition

section Decide

variable {d : Deployment} {p : Platform} {locate : Locate κ} {c : Cluster κ}

instance (nodes : StorageNode → Bool) (devices : String → Bool) :
    Decidable (c.Spares d nodes devices) := by
  unfold Cluster.Spares
  infer_instance

instance [DecidableEq κ] (e : ClusterEvent) : Decidable (ReplicaOk d p locate c e) := by
  cases e <;> (unfold ReplicaOk; infer_instance)

end Decide

/-! ## Contents that stay -/

section Contents

variable {d : Deployment} {p : Platform} {locate : Locate κ} {c c' : Cluster κ} {s s' : Store}
  {call : Call} {user : String} {f : FileEntry} {id : String} {x : Bytes ⊕ κ} {key : String}

/-- What an upload leaves: perhaps one more row, of a new id, and perhaps another object. -/
structure Grown (key : String) (s s' : Store) : Prop where
  nodes : s'.nodes = s.nodes
  files : s'.files = s.files ∨
    ∃ row, s.files.all (fun f => f.id ≠ row.id) = true ∧ s'.files = s.files ++ [row]
  objects : ∀ k, k ≠ key → s'.objects.get k = s.objects.get k

theorem Grown.refl (key : String) (s : Store) : Grown key s s := ⟨rfl, .inl rfl, fun _ _ => rfl⟩

theorem Grown.addFile {row : FileEntry} (h : s.accepts row = true) : Grown key s (s.addFile row) :=
  ⟨rfl, .inr ⟨row, accepts_fresh h, rfl⟩, fun _ _ => rfl⟩

theorem grown_afterPut (bytes : Bytes) :
    Grown (r2Key user call.fileId) s (afterPut d call user bytes s) := by
  unfold afterPut
  split
  · exact ⟨rfl, .inl rfl, fun k hk => by simp [hk]⟩
  · exact .refl _ _

theorem Grown.trans_addFile {row : FileEntry} (h : Grown key s s') (hfiles : s'.files = s.files)
    (haccepts : s'.accepts row = true) : Grown key s (s'.addFile row) :=
  ⟨h.nodes, .inr ⟨row, hfiles ▸ accepts_fresh haccepts, by rw [Store.addFile, hfiles]⟩, h.objects⟩

theorem grown_uploadFile {sha256 : Bytes → String} {form : UploadForm} :
    Grown (r2Key user call.fileId) s (leaves (uploadFile d sha256 call user form) s) := by
  have hfiles : ∀ bytes : Bytes, (afterPut d call user bytes s).files = s.files := by
    intro bytes
    unfold afterPut
    split <;> rfl
  apply wp.leaves
  simp only [uploadFile, checkQuota, wp_bind, wp_okOr, wp_ensure, wp_get, wp_modify, wp_insertFile,
    wp_pure]
  refine ⟨fun file _ => ⟨fun _ => ⟨fun _ => ⟨fun haccepts => ?_, fun _ => ?_⟩, fun _ => .refl _ _⟩,
    fun _ => .refl _ _⟩, fun _ => .refl _ _⟩
  · exact (grown_afterPut file.bytes).trans_addFile (hfiles file.bytes) haccepts
  · exact grown_afterPut file.bytes

theorem grown_uploadShare {r : ShareRequest} {form : UploadForm} :
    Grown key s (leaves (uploadShare p call r form) s) := by
  apply wp.leaves
  simp only [uploadShare, wp_bind, wp_okOr, wp_ensure, wp_get, wp_insertFile, wp_pure]
  exact ⟨fun share _ => ⟨fun _ => ⟨fun _ => ⟨fun _ => ⟨fun file _ => ⟨fun h => .addFile h,
    fun _ => .refl _ _⟩, fun _ => .refl _ _⟩, fun _ => .refl _ _⟩, fun _ => .refl _ _⟩,
    fun _ => .refl _ _⟩, fun _ => .refl _ _⟩

theorem grown_initResumable {body : ResumableBody} :
    Grown key s (leaves (initResumable call user d body) s) := by
  apply wp.leaves
  simp only [initResumable, checkQuota, wp_bind, wp_okOr, wp_adaptExcept, wp_ensure, wp_get,
    wp_insertFile, wp_pure]
  exact ⟨fun name _ => ⟨fun size _ => ⟨fun _ => ⟨fun _ => ⟨fun h => .addFile h, fun _ => .refl _ _⟩,
    fun _ => .refl _ _⟩, fun _ => .refl _ _⟩, fun _ => .refl _ _⟩, fun _ => .refl _ _⟩

theorem located_eq_some : c.located d locate id = some x ↔
    ∃ f, c.file id = some f ∧ c.source d locate f = some x := Option.bind_eq_some_iff

/-- **A file keeps its content** if it stays where it is and that stays as it is. -/
theorem content_mono (hlocated : ∀ x, c.located d locate id = some x → c'.located d locate id = some x)
    (hread : ∀ x, c.located d locate id = some x → ∀ b, c.read x = some b → c'.read x = some b) :
    ∀ b, c.content d locate id = some b → c'.content d locate id = some b := by
  intro b hb
  obtain ⟨x, hx, hb⟩ := Option.bind_eq_some_iff.mp hb
  exact Option.bind_eq_some_iff.mpr ⟨x, hlocated x hx, hread x hx b hb⟩

/-- Where a file is depends on its row, its node and its object. -/
theorem source_congr (hnode : c'.nodeOf f = c.nodeOf f)
    (hobject : c'.store.objects.get (r2Key f.userId f.id) = c.store.objects.get (r2Key f.userId f.id)) :
    c'.source d locate f = c.source d locate f := by
  rw [Cluster.source, Cluster.source, Cluster.inline, Cluster.inline, hnode, hobject]

theorem source_eq_some : c.source d locate f = some x ↔ (∃ b, c.inline d f = some b ∧ .inl b = x)
    ∨ c.inline d f = none ∧ ∃ n, c.nodeOf f = some n ∧ ∃ place,
      locate n.deviceId n.storagePath f.relPath = some place ∧ .inr place = x := by
  unfold Cluster.source
  cases c.inline d f with
  | none => simp [Option.bind_eq_some_iff]
  | some b => simp

/-- An upload leaves the files that there are where they are. -/
theorem located_grown (h : Grown key c.store s')
    (hkey : ∀ f ∈ c.file id, r2Key f.userId f.id ≠ key) (hx : c.located d locate id = some x) :
    ({ c with store := s' } : Cluster κ).located d locate id = some x := by
  obtain ⟨f, hf, hx⟩ := located_eq_some.mp hx
  refine located_eq_some.mpr ⟨f, ?_, ?_⟩
  · change s'.files.find? (fun f => f.id = id) = some f
    rcases h.files with hfiles | ⟨row, -, hfiles⟩
    · rw [hfiles]
      exact hf
    · rw [hfiles, List.find?_append]
      exact Option.or_eq_some_iff.mpr (.inl hf)
  · have hnode : ({ c with store := s' } : Cluster κ).nodeOf f = c.nodeOf f := by
      unfold Cluster.nodeOf Cluster.node
      rw [h.nodes]
    exact (source_congr hnode (h.objects _ (hkey f hf))).trans hx

/-- An update of a row leaves the others. -/
theorem file_updateFile {assign : FileEntry → FileEntry} (hassign : ∀ f, (assign f).id = f.id) :
    (c.updateFile id assign).file key =
      (c.file key).map fun f => if f.id = id then assign f else f := by
  have hid : ∀ f : FileEntry, (if f.id = id then assign f else f).id = f.id := by
    intro f
    split
    · exact hassign f
    · rfl
  simp only [Cluster.file, Cluster.updateFile, List.find?_map, Function.comp_def, hid]

/-- …and a row that it leaves where it is. -/
theorem located_updateFile {assign : FileEntry → FileEntry} (hassign : ∀ f, (assign f).id = f.id)
    (hsource : ∀ f, c.file key = some f → f.id = id →
      c.source d locate (assign f) = c.source d locate f) :
    (c.updateFile id assign).located d locate key = c.located d locate key := by
  rw [Cluster.located, Cluster.located, file_updateFile hassign]
  cases hf : c.file key with
  | none => rfl
  | some f =>
    rw [Option.map_some, Option.bind_some, Option.bind_some]
    split
    · exact hsource f hf ‹_›
    · rfl

theorem source_touch (now : ℤ) :
    c.source d locate { f with updatedAt := now } = c.source d locate f := rfl

theorem id_of_file (h : c.file id = some f) : f.id = id := by
  simpa using List.find?_some h

/-- A new node leaves every file where it is. -/
theorem located_addNode {n : StorageNode} {online : List String}
    (hx : c.located d locate id = some x) :
    ({ c with
      store := { c.store with nodes := c.store.nodes ++ [n] }
      online := online } : Cluster κ).located d locate id = some x := by
  obtain ⟨f, hf, hx⟩ := located_eq_some.mp hx
  refine located_eq_some.mpr ⟨f, hf, ?_⟩
  rw [source_eq_some] at hx ⊢
  refine hx.imp (fun h => h) fun ⟨hnone, m, hm, hplace⟩ => ⟨hnone, m, ?_, hplace⟩
  obtain ⟨nodeId, hid, hm⟩ := Option.bind_eq_some_iff.mp hm
  refine Option.bind_eq_some_iff.mpr ⟨nodeId, hid, ?_⟩
  change (c.store.nodes ++ [n]).find? _ = some m
  rw [List.find?_append]
  exact Option.or_eq_some_iff.mpr (.inl hm)

/-- Nodes that have no file leave every file where it is. -/
theorem located_without {nodes : StorageNode → Bool} {devices : String → Bool}
    (hspared : ∀ f ∈ c.file id, c.inline d f = none → ∀ n ∈ c.nodeOf f, nodes n = false)
    (hx : c.located d locate id = some x) :
    (c.without nodes devices).located d locate id = some x := by
  obtain ⟨f, hf, hx⟩ := located_eq_some.mp hx
  refine located_eq_some.mpr ⟨f, hf, ?_⟩
  rw [source_eq_some] at hx ⊢
  refine hx.imp (fun h => h) fun ⟨hnone, m, hm, hplace⟩ => ⟨hnone, m, ?_, hplace⟩
  have hstays : nodes m = false := hspared f hf hnone m hm
  obtain ⟨nodeId, hid, hm⟩ := Option.bind_eq_some_iff.mp hm
  refine Option.bind_eq_some_iff.mpr ⟨nodeId, hid, ?_⟩
  change (c.store.nodes.filter fun n => !nodes n).find? _ = some m
  obtain ⟨hp, before, rest, hlist, hbefore⟩ := List.find?_eq_some_iff_append.mp hm
  rw [List.find?_filter, List.find?_eq_some_iff_append]
  refine ⟨by simp [hstays, hp], before, rest, hlist, fun n hn => ?_⟩
  have hn := hbefore n hn
  simp_all

end Contents

/-! ## What a rebalance reports -/

section Rebalance

variable {c : Cluster κ} {user : String} {f : FileEntry} {n : StorageNode} {rows : List Replica}
  {k : ℕ} {ids : List String}

/-- Rows of other files and nodes do not stand in the way of a row. -/
theorem accepts_addReplicas {r : Replica}
    (h : ∀ r' ∈ rows, ¬ (r'.fileId = r.fileId ∧ r'.storageNodeId = r.storageNodeId)) :
    (c.addReplicas rows).accepts r = c.accepts r := by
  have hany : rows.any (fun r' => r'.fileId = r.fileId && r'.storageNodeId = r.storageNodeId)
      = false := by
    rw [List.any_eq_false]
    intro r' hr'
    simpa using h r' hr'
  simp only [Cluster.accepts, Cluster.addReplicas, Cluster.file, List.any_append, hany,
    Bool.or_false]

/-- …nor do those of other files count among the nodes of a file. -/
theorem existingNodeIds_addReplicas (h : ∀ r ∈ rows, r.fileId ≠ f.id) :
    (c.addReplicas rows).existingNodeIds f = c.existingNodeIds f := by
  have hnil : rows.filter (fun r => r.fileId = f.id) = [] := by
    rw [List.filter_eq_nil_iff]
    intro r hr
    simpa using h r hr
  simp only [Cluster.existingNodeIds, Cluster.addReplicas, List.filter_append, hnil,
    List.append_nil]

/-- **The loop over the nodes reports the first ones that take a row.** -/
theorem foldl_place {nodes : List StorageNode} (hpk : (nodes.map StorageNode.id).Nodup)
    (c : Cluster κ) (ids : List String) :
    (nodes.foldl (Cluster.place f k) (ids, c)).2 = c.addReplicas
      (((nodes.filter fun n => n.id ∉ ids ∧ c.accepts (Cluster.scheduled f n)).take
        (k - ids.length)).map (Cluster.scheduled f)) := by
  induction nodes generalizing c ids with
  | nil => simp [Cluster.addReplicas]
  | cons n nodes ih =>
    rw [List.map_cons, List.nodup_cons] at hpk
    have hne : ∀ m ∈ nodes, m.id ≠ n.id := fun m hm h => hpk.1 (h ▸ List.mem_map_of_mem hm)
    rw [List.foldl_cons]
    by_cases hplace : n.id ∉ ids ∧ ids.length < k ∧ c.accepts (Cluster.scheduled f n)
    · obtain ⟨hnew, hlt, haccepts⟩ := hplace
      have hrest : (nodes.filter fun m => m.id ∉ n.id :: ids ∧
            (c.addReplicas [Cluster.scheduled f n]).accepts (Cluster.scheduled f m)) =
          nodes.filter fun m => m.id ∉ ids ∧ c.accepts (Cluster.scheduled f m) := by
        refine List.filter_congr fun m hm => ?_
        rw [accepts_addReplicas fun r hr h =>
          hne m hm (List.mem_singleton.mp hr ▸ h.2).symm]
        simp only [List.mem_cons, hne m hm, false_or]
      rw [Cluster.place, if_pos ⟨hnew, hlt, haccepts⟩, ih hpk.2, hrest,
        List.filter_cons_of_pos (by simpa using ⟨hnew, haccepts⟩), List.length_cons,
        show k - ids.length = k - (ids.length + 1) + 1 by omega, List.take_succ_cons, List.map_cons]
      simp [Cluster.addReplicas]
    · rw [Cluster.place, if_neg hplace, ih hpk.2]
      by_cases hcand : n.id ∉ ids ∧ c.accepts (Cluster.scheduled f n)
      · have hfull : k - ids.length = 0 := by
          have hge : ¬ ids.length < k := fun hlt => hplace ⟨hcand.1, hlt, hcand.2⟩
          omega
        rw [hfull, List.take_zero, List.take_zero]
      · rw [List.filter_cons_of_neg (by simpa using hcand)]

/-- One file gets the rows that are due. -/
theorem visit_eq (hpk : (c.store.nodes.map StorageNode.id).Nodup)
    (hrows : ∀ r ∈ rows, r.fileId ≠ f.id) :
    (c.addReplicas rows).visit k (c.onlineNodes user) f =
      c.addReplicas (rows ++ (c.dueFor k user f).map (Cluster.scheduled f)) := by
  have hnodes : ((c.onlineNodes user).map StorageNode.id).Nodup :=
    hpk.sublist (List.filter_sublist.map _)
  unfold Cluster.visit Cluster.dueFor
  split
  · rw [foldl_place hnodes, existingNodeIds_addReplicas hrows]
    have haccepts : ∀ m, (c.addReplicas rows).accepts (Cluster.scheduled f m)
        = c.accepts (Cluster.scheduled f m) :=
      fun m => accepts_addReplicas fun r hr h => hrows r hr h.1
    simp only [haccepts]
    simp [Cluster.addReplicas]
  · simp [Cluster.addReplicas]

/-- **A rebalance reports what is due**, for one file after the other. -/
theorem rebalanceTo_eq (hpk : (c.store.nodes.map StorageNode.id).Nodup)
    (hfiles : (c.store.files.map FileEntry.id).Nodup) : c.rebalanceTo k user = c.addReplicas
      ((c.files user).flatMap fun f => (c.dueFor k user f).map (Cluster.scheduled f)) := by
  have hvisit : ∀ f ∈ c.files user, ∀ rows, DueElsewhere FileEntry.id
      (fun f => (c.dueFor k user f).map (Cluster.scheduled f)) (c.files user) [f.id] rows →
      (c.addReplicas rows).visit k (c.onlineNodes user) f =
        c.addReplicas (rows ++ (c.dueFor k user f).map (Cluster.scheduled f)) := by
    refine fun f _ rows hrows => visit_eq hpk fun r hr hid => ?_
    obtain ⟨f', -, hne, hmem⟩ := hrows r hr
    obtain ⟨m, -, rfl⟩ := List.mem_map.mp hmem
    exact hne (List.mem_singleton.mpr hid)
  have h := foldl_visits FileEntry.id _ c.addReplicas (hfiles.sublist (List.filter_sublist.map _))
    hvisit
  have hnil : c.addReplicas [] = c := by simp [Cluster.addReplicas]
  rwa [hnil] at h

end Rebalance

/-! ## Runs of the edge -/

section Steps

variable {d : Deployment} {p : Platform} {locate : Locate κ} {c : Cluster κ}

/-- The ids of nodes and files are keys, and every replica that is reported exists. -/
structure Sound (d : Deployment) (p : Platform) (locate : Locate κ) (c : Cluster κ) : Prop where
  nodes : (c.store.nodes.map StorageNode.id).Nodup
  files : (c.store.files.map FileEntry.id).Nodup
  exist : ReplicasExist d p locate c

theorem mem_synced {k : Claim String String String} :
    k ∈ c.synced ↔ ∃ r ∈ c.replicas, r.status = "synced" ∧ r.claim = k := by
  simp only [Cluster.synced, List.mem_map, List.mem_filter, decide_eq_true_eq, and_assoc,
    Replica.claim]

theorem r2Key_ne_empty (user id : String) : r2Key user id ≠ "" := by
  simp [r2Key]

/-- An upload keeps the ids of the files apart. -/
theorem Grown.nodup_files {key : String} {s s' : Store} (hgrown : Grown key s s')
    (h : (s.files.map FileEntry.id).Nodup) : (s'.files.map FileEntry.id).Nodup := by
  rcases hgrown.files with hfiles | ⟨row, hfresh, hfiles⟩
  · exact hfiles ▸ h
  · rw [hfiles, List.map_append, List.map_singleton, ← List.concat_eq_append, List.nodup_concat]
    refine ⟨fun hmem => ?_, h⟩
    obtain ⟨f, hf, hid⟩ := List.mem_map.mp hmem
    exact of_decide_eq_true (List.all_eq_true.mp hfresh f hf) hid

theorem ids_updateFile {id : String} {assign : FileEntry → FileEntry}
    (hassign : ∀ f, (assign f).id = f.id) :
    (c.updateFile id assign).store.files.map FileEntry.id = c.store.files.map FileEntry.id := by
  simp only [Cluster.updateFile, List.map_map]
  refine List.map_congr_left fun f _ => ?_
  rw [Function.comp_apply]
  split
  · exact hassign f
  · rfl

/-- A new node has an id of its own. -/
theorem nodup_addNode {n : StorageNode} (h : (c.store.nodes.map StorageNode.id).Nodup)
    (hnew : ¬ (c.store.nodes.any fun m => m.id = n.id) = true) :
    ((c.store.nodes ++ [n]).map StorageNode.id).Nodup := by
  rw [List.map_append, List.map_singleton, ← List.concat_eq_append, List.nodup_concat]
  refine ⟨fun hmem => hnew ?_, h⟩
  obtain ⟨m, hm, hid⟩ := List.mem_map.mp hmem
  exact List.any_eq_true.mpr ⟨m, hm, decide_eq_true hid⟩

theorem Sound.grown {key : String} {s' : Store} (h : Sound d p locate c)
    (hgrown : Grown key c.store s')
    (hkey : ∀ k ∈ c.synced, ∀ f ∈ c.file k.file, r2Key f.userId f.id ≠ key) :
    Sound d p locate { c with store := s' } where
  nodes := hgrown.nodes ▸ h.nodes
  files := hgrown.nodup_files h.files
  exist := AllBacked.mono h.exist (List.Subset.refl _)
    (fun k hk => content_mono (fun _ hx => located_grown hgrown (hkey k hk) hx) fun _ _ _ hb => hb)
    (List.Subset.refl _)

theorem Sound.updateFile {id : String} (h : Sound d p locate c) (assign : FileEntry → FileEntry)
    (hassign : ∀ f, (assign f).id = f.id)
    (hsource : ∀ k ∈ c.synced, ∀ f, c.file k.file = some f → f.id = id →
      c.source d locate (assign f) = c.source d locate f) (commands : List WriteCommand) :
    Sound d p locate { c.updateFile id assign with commands := commands } where
  nodes := h.nodes
  files := (ids_updateFile hassign).symm ▸ h.files
  exist := AllBacked.mono h.exist (List.Subset.refl _)
    (fun k hk => content_mono
      (fun _ hx => (located_updateFile hassign (hsource k hk)).trans hx) fun _ _ _ hb => hb)
    (List.Subset.refl _)

theorem Sound.without {nodes : StorageNode → Bool} {devices : String → Bool}
    (h : Sound d p locate c) (hspares : c.Spares d nodes devices) :
    Sound d p locate (c.without nodes devices) where
  nodes := h.nodes.sublist (List.filter_sublist.map _)
  files := h.files
  exist := by
    refine AllBacked.mono h.exist (fun k hk => ?_) (fun k hk => ?_) (List.Subset.refl _)
    · obtain ⟨r, hr, hrest⟩ := mem_synced.mp hk
      exact mem_synced.mpr ⟨r, List.mem_of_mem_filter hr, hrest⟩
    · obtain ⟨r, hr, hsynced, rfl⟩ := mem_synced.mp hk
      obtain ⟨hr, hstays⟩ := List.mem_filter.mp hr
      exact content_mono (fun x hx => located_without (hspares r hr hsynced hstays) hx)
        fun _ _ _ hb => hb

theorem Sound.perform [DecidableEq κ] {cmd : WriteCommand} {fate : Agent.Fate}
    (h : Sound d p locate c)
    (hok : ∀ x ∈ c.effect locate cmd fate, ∀ k ∈ c.synced,
      c.located d locate k.file = some (.inr x.1) → c.disk x.1 = some x.2) :
    Sound d p locate (c.perform locate cmd fate) := by
  unfold Cluster.perform
  split
  case h_2 => exact h
  case h_1 place file heffect =>
    refine ⟨h.nodes, h.files, AllBacked.mono h.exist (List.Subset.refl _) (fun k hk => ?_)
      (List.subset_append_left _ _)⟩
    refine content_mono (fun x hx => hx) fun x hx b hb => ?_
    cases x with
    | inl bytes => exact hb
    | inr place' =>
      change (if place' = place then some file else c.disk place') = some b
      split
      case isFalse => exact hb
      case isTrue hplace =>
        subst hplace
        have hsame : c.disk place' = some file := hok _ heffect k hk hx
        exact hsame.symm.trans hb

theorem Sound.rebalance {user : String} (h : Sound d p locate c)
    (hok : ∀ f ∈ c.files user, ∀ n ∈ c.due user f,
      (Cluster.scheduled f n).claim.Backed p.sha256 (c.content d locate) c.written) :
    Sound d p locate (c.rebalance user) := by
  rw [Cluster.rebalance, rebalanceTo_eq h.nodes h.files]
  refine ⟨h.nodes, h.files, fun k hk => ?_⟩
  obtain ⟨r, hr, hsynced, rfl⟩ := mem_synced.mp hk
  rcases List.mem_append.mp hr with hr | hr
  · exact h.exist _ (mem_synced.mpr ⟨r, hr, hsynced, rfl⟩)
  · obtain ⟨f, hf, hr⟩ := List.mem_flatMap.mp hr
    obtain ⟨n, hn, rfl⟩ := List.mem_map.mp hr
    exact hok f hf n hn

theorem Sound.advertise {userId deviceId nodeId mountPoint : String} (h : Sound d p locate c) :
    Sound d p locate (c.advertise userId deviceId nodeId mountPoint) := by
  unfold Cluster.advertise
  split
  case isTrue => exact h
  case isFalse =>
    split
    case h_1 => exact ⟨h.nodes, h.files, h.exist⟩
    case h_2 =>
      split
      case isTrue => exact h
      case isFalse hnew =>
        exact ⟨nodup_addNode h.nodes hnew, h.files, AllBacked.mono h.exist (List.Subset.refl _)
          (fun k _ => content_mono (fun x hx => located_addNode hx) fun _ _ _ hb => hb)
          (List.Subset.refl _)⟩

/-- **Every step that meets the condition keeps what is reported true.** -/
theorem Sound.step [DecidableEq κ] {e : ClusterEvent} (h : Sound d p locate c)
    (hok : ReplicaOk d p locate c e) : Sound d p locate (clusterStep d p locate c e) := by
  cases e with
  | upload user call form => exact h.grown grown_uploadFile hok
  | uploadShare call r form =>
    exact h.grown grown_uploadShare fun _ _ f _ => r2Key_ne_empty f.userId f.id
  | initResumable user call body =>
    exact h.grown grown_initResumable fun _ _ f _ => r2Key_ne_empty f.userId f.id
  | chunk user transferId offset dataBase64 now =>
    simp only [clusterStep, Cluster.chunk]
    split
    · exact h.updateFile (fun f => { f with updatedAt := now }) (fun _ => rfl)
        (fun _ _ _ _ _ => source_touch now) _
    · exact h
  | fsWrite user nodeId path offset dataBase64 =>
    simp only [clusterStep, Cluster.fsWrite]
    split
    · exact ⟨h.nodes, h.files, h.exist⟩
    · exact h
  | performs command fate =>
    simp only [clusterStep]
    split
    case h_1 cmd hcmd => exact h.perform (hok cmd hcmd)
    case h_2 => exact h
  | finalize user transferId sha256Hash now =>
    simp only [clusterStep, Cluster.finalize]
    split
    case h_2 => exact h
    case h_1 entry hentry =>
      obtain ⟨hentry, huser⟩ := Option.filter_eq_some_iff.mp hentry
      refine h.updateFile (Cluster.finalized entry sha256Hash now) (fun _ => rfl)
        (fun k hk f hf hid => ?_) c.commands
      obtain rfl : k.file = transferId := (id_of_file hf).symm.trans hid
      obtain rfl : entry = f := Option.some.inj (hentry.symm.trans hf)
      exact hok entry hf (of_decide_eq_true huser) (List.mem_map_of_mem hk)
  | registers device =>
    simp only [clusterStep]
    split
    · exact h
    · exact ⟨h.nodes, h.files, h.exist⟩
  | removesDevice userId deviceId =>
    have hrest := h.without hok
    exact ⟨hrest.nodes, hrest.files, hrest.exist⟩
  | removesNode userId nodeId => exact h.without hok
  | advertises userId deviceId nodeId mountPoint => exact h.advertise
  | heartbeat userId deviceId =>
    simp only [clusterStep, Cluster.heartbeat]
    split
    · exact ⟨h.nodes, h.files, h.exist⟩
    · exact h
  | updateMode user mode => exact ⟨h.nodes, h.files, h.exist⟩
  | rebalance user => exact h.rebalance hok

end Steps

/-- **Replicas that are reported as synced exist**, in the backend along runs whose rebalances have
nothing to do, and at the edge along runs whose rebalances report what is there and whose files with
replicas keep their content. -/
theorem replicas_exist [DecidableEq κ] (env : Env) (b : Replicas.Cluster)
    (bes : List Replicas.ClusterEvent) (d : Deployment) (p : Platform) (locate : Locate κ)
    (c : Cluster κ) (es : List ClusterEvent) (hb : b.replicas = [])
    (hbrun : Along Replicas.ClusterOk (Replicas.clusterStep env) b bes)
    (hnodes : (c.store.nodes.map StorageNode.id).Nodup)
    (hfiles : (c.store.files.map FileEntry.id).Nodup) (hc : c.replicas = [])
    (hrun : Along (ReplicaOk d p locate) (clusterStep d p locate) c es) :
    Replicas.Exist env (run (Replicas.clusterStep env) b bes)
      ∧ ReplicasExist d p locate (run (clusterStep d p locate) c es) := by
  have hstart : Sound d p locate c := by
    refine ⟨hnodes, hfiles, fun k hk => ?_⟩
    rw [Cluster.synced, hc] at hk
    exact absurd hk List.not_mem_nil
  exact ⟨Replicas.exist_of_run hb hbrun,
    (hrun.invariant (P := Sound d p locate) (fun _ _ hs hok => hs.step hok) hstart).exist⟩

namespace TwoNodes

open Noon Pcos.Sample

def platform : Platform := { Noon.platform with sha256 := knownSha256 }

def deployment : Deployment := ⟨false, true, true⟩

/-- Every path is a place of its own. -/
def locate : Locate (String × String × String) :=
  fun deviceId root path => some (deviceId, root, path)

/-- Two nodes of Alice's, with two-node protection. -/
def start : Cluster (String × String × String) where
  store := ⟨[("alice", ⟨none, 1000⟩)], [],
    [⟨"n1", "alice", "d1", "/a"⟩, ⟨"n2", "alice", "d2", "/b"⟩], [], .empty⟩
  devices := [⟨"d1", "alice"⟩, ⟨"d2", "alice"⟩]
  online := ["n1", "n2"]
  modes _ := some "two_node_protection"
  replicas := []
  disk _ := none
  commands := []
  written := []

/-- One byte goes to one node as a transfer and to the other as it is, and then there is a rebalance. -/
def twice : List ClusterEvent :=
  [.initResumable "alice" ⟨0, "1", 0⟩ ⟨some "a", some 1, none, some "n1", none, none⟩,
    .chunk "alice" "xfer_1" (some 0) (some "YQ==") 1, .performs 0 .done,
    .fsWrite "alice" "n2" (some "a") none (some "YQ=="), .performs 1 .done,
    .finalize "alice" "xfer_1" (some (knownSha256 [0x61])) 2, .rebalance "alice"]

/-- One byte is uploaded, to the database, and then there is a rebalance. -/
def uploaded : List ClusterEvent :=
  [.upload "alice" ⟨0, "f", 0⟩ ⟨some ⟨"a.txt", "text/plain", [0x61]⟩, none, none, none⟩,
    .rebalance "alice"]

def laptop : Replicas.Device := ⟨id2, alice, true⟩

def phone : Replicas.Device := ⟨id3, alice, true⟩

/-- The same in the backend. -/
def backend (mode : String) : Replicas.Cluster where
  world := step env Pcos.Sample.start (sent alice 0 id1 (.uploadFile none "f" "text/plain" [0x61]))
  devices := [laptop, phone]
  modes _ := some mode
  replicas := []
  written := []

end TwoNodes

open TwoNodes

theorem replicas_exist_twice :
    (run (clusterStep deployment platform locate) TwoNodes.start twice).synced
        = [⟨"xfer_1", "n2", knownSha256 [0x61]⟩] ∧
      Replicas.Exist Pcos.Sample.env (run (Replicas.clusterStep Pcos.Sample.env)
        (backend "single_device") [.rebalance Pcos.Sample.alice fun _ device => device]) ∧
      ReplicasExist deployment platform locate
        (run (clusterStep deployment platform locate) TwoNodes.start twice) :=
  ⟨by decide, replicas_exist Pcos.Sample.env (backend "single_device") _ deployment platform
    locate TwoNodes.start twice rfl (by decide) (by decide) (by decide) rfl (by decide)⟩

/-- **A rebalance reports replicas of an upload that no node has**, in the backend and at the edge. -/
theorem not_replicas_exist :
    ¬ Replicas.Exist Pcos.Sample.env (run (Replicas.clusterStep Pcos.Sample.env)
        (backend "two_node_protection") [.rebalance Pcos.Sample.alice fun _ device => device]) ∧
      ¬ ReplicasExist deployment platform locate
        (run (clusterStep deployment platform locate) TwoNodes.start uploaded) := by
  constructor
  · exact Replicas.not_exist_rebalance rfl rfl (by decide)
  · intro h
    obtain ⟨data, -, -, hmem⟩ := h ⟨"f", "n1", knownSha256 [0x61]⟩ (by decide)
    have hwritten : (run (clusterStep deployment platform locate) TwoNodes.start uploaded).written
        = [] := by decide
    rw [hwritten] at hmem
    exact absurd hmem List.not_mem_nil

end Pcos.Edge.Files
