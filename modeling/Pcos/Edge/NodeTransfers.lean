import Pcos.Edge.Replicas
import Pcos.Foundations.Runs

/-!
# Edge/NodeTransfers — resumable transfers to a storage node (`transfers/resumable`)

    chunk ──worker──▸ hub ──▸ agent writes ──▸ hub ──▸ worker answers
                       │                        ▴
                       └── offline │ timeout ───┘

The worker waits for what the hub says of a chunk and then answers success whatever it was, also
after the transfer is finalized.  Finalizing compares nothing.  So **what a transfer promises holds
in runs in which the node takes every chunk in time, none comes after the end, and at the end every
byte has been written over a file that was no longer** (`transferred`).
-/

namespace Pcos.Edge.Files

open Foundations Accounts

/-! ## What there is -/

/-- What the hub says of a command: that no socket takes it, what the agent answers, or that there
is no answer in time. -/
inductive ProxyResult
  | unreachable
  | agent (success : Bool)
  | timeout
deriving DecidableEq

/-- A chunk request, with the command that is sent for it if the transfer has a node.  `pending`
says that the command is on its way to the agent, `performed` that the agent wrote all of the chunk,
and `late` that the transfer had been finalized when the request came. -/
structure ChunkCall where
  transferId : String
  command : Option WriteCommand
  pending : Bool
  result : Option ProxyResult
  performed : Bool
  answered : Bool
  late : Bool
deriving DecidableEq

/-- A write of an agent's, for a transfer. -/
structure FileWrite (κ : Type) where
  transferId : String
  place : κ
  offset : ℕ
  data : Bytes

/-- The tables and the nodes, the chunk requests so far, and as a record of the run what was
written, newest first, and the transfers that were answered as finalized. -/
structure Transfers (κ : Type) where
  cluster : Cluster κ
  calls : List ChunkCall
  writes : List (FileWrite κ)
  finalized : List String

inductive TransferEvent
  | initResumable (user : String) (call : Call) (body : ResumableBody)
  | chunk (user transferId : String) (offset : Option ℤ) (dataBase64 : Option String)
      (online : Bool)
  | handles (call : ℕ) (fate : Agent.Fate)
  | expires (call : ℕ)
  | answers (call : ℕ) (now : ℤ)
  | finalize (user transferId : String) (sha256Hash : Option String) (now : ℤ)

namespace Transfers

variable {κ : Type} (locate : Locate κ) (s : Transfers κ)

/-- The row of a user's transfer. -/
def entry (user transferId : String) : Option FileEntry :=
  (s.cluster.file transferId).filter fun f => f.userId = user

def updateCall (i : ℕ) (f : ChunkCall → ChunkCall) : Transfers κ :=
  { s with calls := s.calls.modify i f }

/-- `POST /api/v1/transfers/resumable/:id/chunk`, up to the hub. -/
def chunk (user transferId : String) (offset : Option ℤ) (dataBase64 : Option String)
    (online : Bool) : Transfers κ :=
  match s.entry user transferId, offset, truthy dataBase64 with
  | some f, some offset, some dataBase64 =>
    let command := (s.cluster.nodeOf f).map fun n => ⟨n, f.name, some offset, dataBase64⟩
    { s with calls := s.calls ++ [{
        transferId := transferId
        command := command
        pending := command.isSome && online
        result := if command.isSome && !online then some .unreachable else none
        performed := false
        answered := false
        late := decide (transferId ∈ s.finalized) }] }
  | _, _, _ => s

/-- The agent's write, and the record of it. -/
def written [DecidableEq κ] (call : ChunkCall) (cmd : WriteCommand) (fate : Agent.Fate) :
    Transfers κ :=
  match Agent.base64Decode cmd.dataBase64,
    locate cmd.node.deviceId cmd.node.storagePath cmd.relativePath with
  | some data, some place =>
    { s with
      cluster := s.cluster.perform locate cmd fate
      writes := ⟨call.transferId, place, (asU64 cmd.offset).getD 0, fate.bytes data⟩ :: s.writes }
  | _, _ => s

/-- The whole of the chunk is written. -/
def succeeds (cmd : WriteCommand) (fate : Agent.Fate) : Bool :=
  (Agent.base64Decode cmd.dataBase64).isSome
    && (locate cmd.node.deviceId cmd.node.storagePath cmd.relativePath).isSome && fate = .done

/-- The agent handles a command and answers it, if the hub still waits. -/
def handle [DecidableEq κ] (i : ℕ) (fate : Agent.Fate) : Transfers κ :=
  match (s.calls[i]?).filter ChunkCall.pending with
  | some call =>
    match call.command with
    | some cmd =>
      let success := succeeds locate cmd fate
      (s.written locate call cmd fate).updateCall i fun call =>
        { call with
          pending := false
          performed := success
          result := call.result <|> some (.agent success) }
    | none => s
  | none => s

/-- The hub has waited long enough. -/
def expire (i : ℕ) : Transfers κ :=
  s.updateCall i fun call =>
    { call with result := if call.command.isSome then call.result <|> some .timeout else none }

/-- The worker goes on and answers success. -/
def answer (i : ℕ) (now : ℤ) : Transfers κ :=
  match s.calls[i]? with
  | some call =>
    if call.command = none ∨ call.result.isSome then
      { s.updateCall i fun call => { call with answered := true } with
        cluster := s.cluster.updateFile call.transferId fun f => { f with updatedAt := now } }
    else s
  | none => s

/-- `POST /api/v1/transfers/resumable/:id/finalize` -/
def finalize (user transferId : String) (sha256Hash : Option String) (now : ℤ) : Transfers κ :=
  match s.entry user transferId with
  | some f =>
    { s with
      cluster := s.cluster.updateFile transferId (Cluster.finalized f sha256Hash now)
      finalized := transferId :: s.finalized }
  | none => s

end Transfers

variable {κ : Type}

def transferStep [DecidableEq κ] (d : Deployment) (locate : Locate κ) (s : Transfers κ) :
    TransferEvent → Transfers κ
  | .initResumable user call body =>
    { s with cluster := { s.cluster with
        store := leaves (initResumable call user d body) s.cluster.store } }
  | .chunk user transferId offset dataBase64 online =>
    s.chunk user transferId offset dataBase64 online
  | .handles i fate => s.handle locate i fate
  | .expires i => s.expire i
  | .answers i now => s.answer i now
  | .finalize user transferId sha256Hash now => s.finalize user transferId sha256Hash now

/-! ## What is promised -/

/-- What the nodes give of their files, where a read hands out at most `bytesRead` bytes. -/
def Cluster.readNode (c : Cluster κ) (locate : Locate κ) (bytesRead : ℕ) : FsReadChunk :=
  fun n relPath offset length =>
    ((locate n.deviceId n.storagePath relPath).bind c.disk).bind fun file =>
      agentRead file bytesRead n relPath offset length

/-- The owner's download of a file has the content and its hash, where a read hands out what there
is. -/
def ReadBack (d : Deployment) (sha256 : Bytes → String) (locate : Locate κ) (c : Cluster κ)
    (transferId : String) (content : Bytes) : Prop :=
  ∃ row : FileEntry, row.id = transferId ∧ row.sha256Hash = sha256 content ∧
    ∀ bytesRead, content.length ≤ bytesRead →
      Answered d sha256 (c.readNode locate bytesRead) content row c.store

/-- What is answered with success was written, and came before the end; and what is finalized can be
read. -/
structure Transferred (d : Deployment) (sha256 : Bytes → String) (locate : Locate κ)
    (content : String → Bytes) (s : Transfers κ) : Prop where
  written : ∀ call ∈ s.calls, call.answered = true → call.performed = true
  refused : ∀ call ∈ s.calls, call.answered = true → call.late = false
  readBack : ∀ t ∈ s.finalized, ReadBack d sha256 locate s.cluster t (content t)

/-! ## The condition -/

section Condition

variable [DecidableEq κ] (sha256 : Bytes → String) (locate : Locate κ) (content : String → Bytes)
  (s : Transfers κ)

/-- Where the node of a file has it by its name. -/
def Cluster.placeOf (c : Cluster κ) (f : FileEntry) : Option κ :=
  (c.nodeOf f).bind fun n => locate n.deviceId n.storagePath f.name

/-- The writes of a transfer at a place since the last one of another's, newest first. -/
def ownWrites (transferId : String) (place : κ) (writes : List (FileWrite κ)) :
    List (ℕ × Bytes) :=
  ((writes.filter fun w => w.place = place).takeWhile fun w => w.transferId = transferId).map
    fun w => (w.offset, w.data)

/-- The chunk is one of the content. -/
def IsChunk (transferId : String) (offset : ℤ) (dataBase64 : String) : Prop :=
  ∃ data ∈ Agent.base64Decode dataBase64,
    Piece (content transferId) ((asU64 (some offset)).getD 0, data)

/-- The row has no blob, is of the content's size and gets the content's hash; one read gives it all;
and every byte has been written, over a file that was no longer. -/
structure Complete (transferId : String) (f : FileEntry) (sha256Hash : Option String) (place : κ) :
    Prop where
  blob : f.dataBlob = none
  size : f.sizeBytes = (content transferId).length
  hash : (truthy sha256Hash).getD f.sha256Hash = sha256 (content transferId)
  pos : 0 < (content transferId).length
  le : (content transferId).length ≤ twoMiB
  all : ∀ p < (content transferId).length, Written (ownWrites transferId place s.writes) p
  noLonger : ((s.cluster.disk place).getD []).length ≤ (content transferId).length

/-- The node takes every chunk in time, and none comes after the end or is written where another
transfer that was finalized has its file; what is finalized is complete. -/
def TransferOk : TransferEvent → Prop
  | .initResumable _ _ _ => True
  | .chunk user transferId offset dataBase64 online =>
    ∀ f ∈ s.entry user transferId, ∀ o ∈ offset, ∀ data ∈ truthy dataBase64,
      transferId ∉ s.finalized ∧ online = true ∧ (s.cluster.placeOf locate f).isSome ∧
        IsChunk content transferId o data
  | .handles i fate =>
    ∀ call ∈ (s.calls[i]?).filter ChunkCall.pending, fate = .done ∧
      ∀ cmd ∈ call.command, ∀ t ∈ s.finalized, t ≠ call.transferId → ∀ f ∈ s.cluster.file t,
        s.cluster.placeOf locate f ≠
          locate cmd.node.deviceId cmd.node.storagePath cmd.relativePath
  | .expires i => ∀ call ∈ s.calls[i]?, call.result.isSome = true
  | .answers _ _ => True
  | .finalize user transferId sha256Hash _ =>
    ∀ f ∈ s.entry user transferId, ∃ place ∈ s.cluster.placeOf locate f,
      Complete sha256 content s transferId f sha256Hash place

end Condition

section Decide

variable [DecidableEq κ] {sha256 : Bytes → String} {locate : Locate κ} {content : String → Bytes}
  {s : Transfers κ}

instance {transferId dataBase64 : String} {offset : ℤ} :
    Decidable (IsChunk content transferId offset dataBase64) := by
  unfold IsChunk Piece
  infer_instance

instance {transferId : String} {place : κ} {writes : List (FileWrite κ)} {p : ℕ} :
    Decidable (Written (ownWrites transferId place writes) p) := by
  unfold Written
  infer_instance

instance {transferId : String} {f : FileEntry} {sha256Hash : Option String} {place : κ} :
    Decidable (Complete sha256 content s transferId f sha256Hash place) :=
  decidable_of_iff
    (f.dataBlob = none ∧ f.sizeBytes = (content transferId).length ∧
      (truthy sha256Hash).getD f.sha256Hash = sha256 (content transferId) ∧
      0 < (content transferId).length ∧ (content transferId).length ≤ twoMiB ∧
      (∀ p < (content transferId).length, Written (ownWrites transferId place s.writes) p) ∧
      ((s.cluster.disk place).getD []).length ≤ (content transferId).length)
    ⟨fun ⟨blob, size, hash, pos, le, all, noLonger⟩ => ⟨blob, size, hash, pos, le, all, noLonger⟩,
      fun h => ⟨h.blob, h.size, h.hash, h.pos, h.le, h.all, h.noLonger⟩⟩

instance (e : TransferEvent) : Decidable (TransferOk sha256 locate content s e) := by
  cases e <;> (unfold TransferOk; infer_instance)

end Decide

/-! ## What the node has -/

section Content

variable [DecidableEq κ] {content : String → Bytes} {ws : List (FileWrite κ)} {w : FileWrite κ}
  {t : String} {k : κ}

theorem ownWrites_cons_of_ne (hk : w.place ≠ k) : ownWrites t k (w :: ws) = ownWrites t k ws := by
  rw [ownWrites, List.filter_cons_of_neg (by simpa using hk), ownWrites]

/-- A write of another transfer's leaves nothing to count on. -/
theorem ownWrites_cons_foreign (hk : w.place = k) (ht : w.transferId ≠ t) :
    ownWrites t k (w :: ws) = [] := by
  rw [ownWrites, List.filter_cons_of_pos (by simpa using hk),
    List.takeWhile_cons_of_neg (by simpa using ht), List.map_nil]

theorem ownWrites_cons_own (hk : w.place = k) (ht : w.transferId = t) :
    ownWrites t k (w :: ws) = (w.offset, w.data) :: ownWrites t k ws := by
  rw [ownWrites, List.filter_cons_of_pos (by simpa using hk),
    List.takeWhile_cons_of_pos (by simpa using ht), List.map_cons, ownWrites]

/-- **A node shows every transfer what it has written there** since the last write of another's, and
a write of a chunk keeps it so. -/
theorem shows_write {disk : κ → Option Bytes}
    (hshows : ∀ t k, Shows (content t) (ownWrites t k ws) ((disk k).getD []))
    (hpiece : Piece (content w.transferId) (w.offset, w.data)) (t : String) (k : κ) :
    Shows (content t) (ownWrites t k (w :: ws))
      ((if k = w.place then some (writeAt 0 ((disk w.place).getD []) w.offset w.data)
        else disk k).getD []) := by
  by_cases hk : w.place = k
  · rw [if_pos hk.symm, Option.getD_some]
    by_cases ht : w.transferId = t
    · rw [ownWrites_cons_own hk ht, ← ht, hk]
      exact (hshows _ k).write hpiece
    · rw [ownWrites_cons_foreign hk ht]
      exact shows_nil
  · rw [if_neg (Ne.symm hk), ownWrites_cons_of_ne hk]
    exact hshows t k

end Content

/-! ## What is finalized -/

section Settled

variable {d : Deployment} {sha256 : Bytes → String} {locate : Locate κ} {content : String → Bytes}
  {c c' : Cluster κ} {t : String} {f : FileEntry} {place : κ}

/-- The row of a transfer that is finalized, and its content on the node. -/
structure Settled (sha256 : Bytes → String) (locate : Locate κ) (content : Bytes) (c : Cluster κ)
    (f : FileEntry) (place : κ) : Prop where
  located : c.placeOf locate f = some place
  blob : f.dataBlob = none
  path : f.storagePath = "local" ∨ f.storagePath = "d1"
  size : f.sizeBytes = content.length
  hash : f.sha256Hash = sha256 content
  pos : 0 < content.length
  le : content.length ≤ twoMiB
  disk : c.disk place = some content

/-- It stays as long as its node does, and what is there. -/
theorem Settled.mono {bytes : Bytes} (h : Settled sha256 locate bytes c f place)
    (hnodes : c'.store.nodes = c.store.nodes) (hdisk : c'.disk place = c.disk place) :
    Settled sha256 locate bytes c' f place :=
  { h with
    located := by
      have hnode : c'.nodeOf f = c.nodeOf f := by
        unfold Cluster.nodeOf Cluster.node
        rw [hnodes]
      rw [Cluster.placeOf, hnode]
      exact h.located
    disk := hdisk.trans h.disk }

theorem Settled.relPath {bytes : Bytes} (h : Settled sha256 locate bytes c f place) :
    f.relPath = f.name := by
  rw [FileEntry.relPath]
  rcases h.path with hpath | hpath <;> simp [hpath]

/-- One read of a small file has it all. -/
theorem agentRead_all {file : Bytes} {bytesRead size : ℕ} (n : StorageNode) (relPath : String)
    (hpos : 0 < file.length) (hle : file.length ≤ twoMiB) (hread : file.length ≤ bytesRead)
    (hsize : size = file.length) :
    agentRead file bytesRead n relPath 0 (min size nodeChunk) = some file := by
  have hlength : (asU64 (some ((min size nodeChunk : ℕ) : ℤ))).getD (256 * 1024) = file.length := by
    have hcap : twoMiB ≤ nodeChunk := by decide
    have hbound : nodeChunk < 2 ^ 64 := by decide
    rw [asU64_natCast (by omega), Option.getD_some]
    omega
  have hdata : (fsReadChunk relPath file bytesRead (some ((0 : ℕ) : ℤ))
      (some ((min size nodeChunk : ℕ) : ℤ))).data = file := by
    rw [fsReadChunk, hlength, asU64_natCast (by decide), Option.getD_some, data_readChunk,
      chunk_eq_self_iff]
    exact .inr ⟨rfl, hread, Nat.le_refl _, hle⟩
  rw [agentRead, hdata, Option.filter_some, if_pos]
  simpa using List.ne_nil_of_length_pos hpos

/-- **What is finalized can be read.** -/
theorem Settled.readBack (hf : c.file t = some f)
    (h : Settled sha256 locate (content t) c f place) :
    ReadBack d sha256 locate c t (content t) := by
  obtain ⟨n, hn, hplace⟩ := Option.bind_eq_some_iff.mp h.located
  refine ⟨f, id_of_file hf, h.hash, fun bytesRead hread => ?_⟩
  have hstored : c.store.files.find? (fun row => row.id = f.id) = some f := by
    rw [id_of_file hf]
    exact hf
  have hfind : c.store.find d (c.readNode locate bytesRead) f none =
      some (f.content 200 (content t)) := by
    have hr2 : ¬ (f.storagePath = "r2" ∧ d.cacheR2 = true) := by
      rcases h.path with hpath | hpath <;> simp [hpath]
    have hnode : (f.storageNodeId.bind fun id =>
        c.store.nodes.find? fun n => n.id = id && n.userId = f.userId) = some n := hn
    rw [Store.find, if_neg hr2, hnode, h.blob]
    have hsize : (if f.sizeBytes = 0 then nodeChunk else f.sizeBytes) = (content t).length := by
      have hpos := h.pos
      rw [h.size, if_neg (by omega)]
    have hfile : c.readNode locate bytesRead n f.relPath 0
        (min (if f.sizeBytes = 0 then nodeChunk else f.sizeBytes) nodeChunk) =
          some (content t) := by
      rw [Cluster.readNode, h.relPath, hplace, Option.bind_some, h.disk, Option.bind_some]
      exact agentRead_all n f.name h.pos h.le hread hsize
    have hcontent : f.fromNode (c.readNode locate bytesRead) n none =
        some (f.content 200 (content t)) := congrArg (Option.map (f.content 200)) hfile
    simp [hcontent]
  refine ⟨hstored, ?_, h.size, .inr h.hash⟩
  rw [wp_downloadFile hstored, hfind]
  refine ⟨fun content' h' => Option.some.inj h' ▸ ⟨rfl, rfl⟩, ?_⟩
  rintro ⟨⟩

/-- What can be read is found. -/
theorem ReadBack.found (h : ReadBack d sha256 locate c t (content t)) :
    ((c.file t).bind fun f =>
      c.store.find d (c.readNode locate (content t).length) f none).isSome = true := by
  obtain ⟨row, hid, -, hread⟩ := h
  obtain ⟨hstored, hdownload, -, -⟩ := hread (content t).length (Nat.le_refl _)
  have hfile : c.file t = some row := hid ▸ hstored
  rw [wp_downloadFile hstored] at hdownload
  rw [hfile, Option.bind_some, Option.isSome_iff_ne_none]
  exact fun hnone => hdownload.2 hnone

end Settled

/-! ## Runs -/

section Runs

variable [DecidableEq κ] {d : Deployment} {sha256 : Bytes → String} {locate : Locate κ}
  {content : String → Bytes} {s : Transfers κ}

/-- A chunk of the content that came before the end, and is said to be written only if it is. -/
structure Carried (locate : Locate κ) (content : String → Bytes) (call : ChunkCall) : Prop where
  chunk : ∃ cmd, call.command = some cmd ∧ ∃ data, Agent.base64Decode cmd.dataBase64 = some data ∧
    (locate cmd.node.deviceId cmd.node.storagePath cmd.relativePath).isSome ∧
    Piece (content call.transferId) ((asU64 cmd.offset).getD 0, data)
  early : call.late = false
  result : call.result.isSome = true → call.performed = true
  answered : call.answered = true → call.performed = true

/-- What a run keeps. -/
structure Tracked (sha256 : Bytes → String) (locate : Locate κ) (content : String → Bytes)
    (s : Transfers κ) : Prop where
  calls : ∀ call ∈ s.calls, Carried locate content call
  shows : ∀ t k, Shows (content t) (ownWrites t k s.writes) ((s.cluster.disk k).getD [])
  settled : ∀ t ∈ s.finalized, ∃ f place, s.cluster.file t = some f ∧
    Settled sha256 locate (content t) s.cluster f place

theorem Tracked.promised (h : Tracked sha256 locate content s) :
    Transferred d sha256 locate content s where
  written call hcall := (h.calls call hcall).answered
  refused call hcall _ := (h.calls call hcall).early
  readBack t ht := by
    obtain ⟨f, place, hf, hsettled⟩ := h.settled t ht
    exact hsettled.readBack hf

theorem mem_of_mem_modify {α : Type} {l : List α} {i : ℕ} {f : α → α} {x : α}
    (h : x ∈ l.modify i f) : x ∈ l ∨ ∃ y, l[i]? = some y ∧ f y = x := by
  obtain ⟨j, hj⟩ := List.mem_iff_getElem?.mp h
  rw [List.getElem?_modify] at hj
  obtain ⟨y, hy, hx⟩ := Option.map_eq_some_iff.mp hj
  split at hx
  case isTrue hij => exact .inr ⟨y, hij ▸ hy, hx⟩
  case isFalse => exact .inl (List.mem_iff_getElem?.mpr ⟨j, hx ▸ hy⟩)

/-- An update of a call that keeps what is said of it. -/
theorem Tracked.updateCall {i : ℕ} {g : ChunkCall → ChunkCall} (h : Tracked sha256 locate content s)
    (hg : ∀ call, s.calls[i]? = some call → Carried locate content (g call)) :
    Tracked sha256 locate content (s.updateCall i g) where
  calls call hcall := by
    rcases mem_of_mem_modify hcall with hcall | ⟨call', hcall', rfl⟩
    · exact h.calls call hcall
    · exact hg call' hcall'
  shows := h.shows
  settled := h.settled

/-- An update of a row that leaves what is finalized as it is. -/
theorem Tracked.updateFile {id : String} {assign : FileEntry → FileEntry}
    (h : Tracked sha256 locate content s) (hassign : ∀ f, (assign f).id = f.id)
    (hsettled : ∀ f place, s.cluster.file id = some f →
      Settled sha256 locate (content id) s.cluster f place →
        ∃ place, Settled sha256 locate (content id) s.cluster (assign f) place) :
    Tracked sha256 locate content { s with cluster := s.cluster.updateFile id assign } where
  calls := h.calls
  shows := h.shows
  settled t ht := by
    obtain ⟨f, place, hf, hfplace⟩ := h.settled t ht
    rw [file_updateFile hassign, hf, Option.map_some]
    have hid : f.id = t := id_of_file hf
    split
    case isFalse => exact ⟨f, place, rfl, hfplace.mono rfl rfl⟩
    case isTrue heq =>
      obtain rfl : t = id := hid.symm.trans heq
      obtain ⟨place, hnew⟩ := hsettled f place hf hfplace
      exact ⟨_, place, rfl, hnew.mono rfl rfl⟩

theorem Tracked.initResumable {s' : Store} {key : String} (h : Tracked sha256 locate content s)
    (hgrown : Grown key s.cluster.store s') :
    Tracked sha256 locate content { s with cluster := { s.cluster with store := s' } } where
  calls := h.calls
  shows := h.shows
  settled t ht := by
    obtain ⟨f, place, hf, hfplace⟩ := h.settled t ht
    refine ⟨f, place, ?_, hfplace.mono hgrown.nodes rfl⟩
    change s'.files.find? (fun f => f.id = t) = some f
    rcases hgrown.files with hfiles | ⟨row, -, hfiles⟩
    · rw [hfiles]
      exact hf
    · rw [hfiles, List.find?_append]
      exact Option.or_eq_some_iff.mpr (.inl hf)

/-- **What is complete is on the node.** -/
theorem Complete.settled {f : FileEntry} {transferId : String} {sha256Hash : Option String}
    {place : κ} (hplace : s.cluster.placeOf locate f = some place)
    (h : Complete sha256 content s transferId f sha256Hash place)
    (hshows : ∀ t k, Shows (content t) (ownWrites t k s.writes) ((s.cluster.disk k).getD []))
    (now : ℤ) :
    Settled sha256 locate (content transferId) s.cluster (Cluster.finalized f sha256Hash now f)
      place where
  located := hplace
  blob := h.blob
  path := by
    dsimp only [Cluster.finalized]
    split
    · exact .inl rfl
    · exact .inr rfl
  size := h.size
  hash := h.hash
  pos := h.pos
  le := h.le
  disk := by
    have hcontent := (hshows transferId place).eq_content h.noLonger h.all
    have hpos := h.pos
    cases hdisk : s.cluster.disk place with
    | none =>
      rw [← hcontent, hdisk] at hpos
      exact absurd hpos (Nat.lt_irrefl 0)
    | some file =>
      rw [hdisk, Option.getD_some] at hcontent
      rw [hcontent]

/-- What the agent leaves of a chunk that it writes in full. -/
theorem written_done {call : ChunkCall} {cmd : WriteCommand} {data : Bytes} {place : κ}
    (hdata : Agent.base64Decode cmd.dataBase64 = some data)
    (hplace : locate cmd.node.deviceId cmd.node.storagePath cmd.relativePath = some place) :
    ∃ remembered, s.written locate call cmd .done =
      { s with
        cluster := { s.cluster with
          disk := fun k => if k = place then
              some (writeAt 0 ((s.cluster.disk place).getD []) ((asU64 cmd.offset).getD 0) data)
            else s.cluster.disk k
          written := remembered }
        writes := ⟨call.transferId, place, (asU64 cmd.offset).getD 0, data⟩ :: s.writes } := by
  have heffect : s.cluster.effect locate cmd .done = some (place,
      writeAt 0 ((s.cluster.disk place).getD []) ((asU64 cmd.offset).getD 0) data) := by
    simp [Cluster.effect, hdata, hplace, Agent.writeChunk, Agent.Fate.bytes]
  generalize writeAt 0 ((s.cluster.disk place).getD []) ((asU64 cmd.offset).getD 0) data = file
    at heffect ⊢
  refine ⟨s.cluster.written ++ [(cmd.node.id, file)], ?_⟩
  rw [Transfers.written, hdata, hplace]
  simp only [Cluster.perform, heffect, Agent.Fate.bytes]

/-- **A chunk that the agent writes** shows what there is of its content, and leaves what is
finalized. -/
theorem Tracked.written {call : ChunkCall} {cmd : WriteCommand} {data : Bytes} {place : κ}
    (h : Tracked sha256 locate content s)
    (hdata : Agent.base64Decode cmd.dataBase64 = some data)
    (hplace : locate cmd.node.deviceId cmd.node.storagePath cmd.relativePath = some place)
    (hpiece : Piece (content call.transferId) ((asU64 cmd.offset).getD 0, data))
    (hothers : ∀ t ∈ s.finalized, t ≠ call.transferId → ∀ f ∈ s.cluster.file t,
      s.cluster.placeOf locate f ≠ some place) :
    Tracked sha256 locate content (s.written locate call cmd .done) := by
  obtain ⟨remembered, hwritten⟩ := @written_done _ _ _ s call _ _ _ hdata hplace
  rw [hwritten]
  refine ⟨h.calls, shows_write h.shows hpiece, fun t ht => ?_⟩
  obtain ⟨f, k, hf, hsettled⟩ := h.settled t ht
  refine ⟨f, k, hf, hsettled.mono rfl ?_⟩
  change (if k = place then _ else _) = _
  split
  case isFalse => rfl
  case isTrue hk =>
    subst hk
    by_cases heq : t = call.transferId
    · rw [hsettled.disk, Option.getD_some, heq, hpiece.writeAt_content]
    · exact absurd hsettled.located (hothers t ht heq f hf)

theorem Tracked.chunk {user transferId : String} {offset : Option ℤ} {dataBase64 : Option String}
    {online : Bool} (h : Tracked sha256 locate content s)
    (hok : TransferOk sha256 locate content s (.chunk user transferId offset dataBase64 online)) :
    Tracked sha256 locate content (s.chunk user transferId offset dataBase64 online) := by
  unfold Transfers.chunk
  split
  case h_2 => exact h
  case h_1 f offset data hf hdata =>
    obtain ⟨hlate, rfl, hplace, bytes, hbytes, hpiece⟩ := hok f hf offset rfl data hdata
    obtain ⟨place, hplace⟩ := Option.isSome_iff_exists.mp hplace
    obtain ⟨n, hn, hplace⟩ := Option.bind_eq_some_iff.mp hplace
    refine ⟨fun call hcall => ?_, h.shows, h.settled⟩
    rcases List.mem_append.mp hcall with hcall | hcall
    · exact h.calls call hcall
    · obtain rfl := List.mem_singleton.mp hcall
      refine ⟨⟨⟨n, f.name, some offset, data⟩, ?_, bytes, hbytes, ?_, hpiece⟩, ?_, ?_, nofun⟩
      · simp [hn]
      · simp [hplace]
      · simpa using hlate
      · simp

theorem Tracked.handle {i : ℕ} {fate : Agent.Fate} (h : Tracked sha256 locate content s)
    (hok : TransferOk sha256 locate content s (.handles i fate)) :
    Tracked sha256 locate content (s.handle locate i fate) := by
  unfold Transfers.handle
  split
  case h_2 => exact h
  case h_1 call hcall =>
    obtain ⟨hcall', -⟩ := Option.filter_eq_some_iff.mp hcall
    have hcarried := h.calls call (List.mem_of_getElem? hcall')
    obtain ⟨cmd, hcmd, data, hdata, hlocated, hpiece⟩ := hcarried.chunk
    obtain ⟨place, hplace⟩ := Option.isSome_iff_exists.mp hlocated
    obtain ⟨rfl, hothers⟩ := hok call hcall
    have hsucceeds : Transfers.succeeds locate cmd .done = true := by
      simp [Transfers.succeeds, hdata, hplace]
    have hwritten : Tracked sha256 locate content (s.written locate call cmd .done) :=
      h.written hdata hplace hpiece (hplace ▸ hothers cmd hcmd)
    simp only [hcmd, hsucceeds]
    refine hwritten.updateCall fun call' hcall' => ?_
    have hcarried' := hwritten.calls call' (List.mem_of_getElem? hcall')
    exact { hcarried' with
      result := fun _ => rfl
      answered := fun _ => rfl }

theorem Tracked.expire {i : ℕ} (h : Tracked sha256 locate content s)
    (hok : TransferOk sha256 locate content s (.expires i)) :
    Tracked sha256 locate content (s.expire i) := by
  refine h.updateCall fun call hcall => ?_
  have hcarried := h.calls call (List.mem_of_getElem? hcall)
  exact { hcarried with result := fun _ => hcarried.result (hok call hcall) }

theorem Tracked.answer {i : ℕ} {now : ℤ} (h : Tracked sha256 locate content s) :
    Tracked sha256 locate content (s.answer i now) := by
  unfold Transfers.answer
  split
  case h_2 => exact h
  case h_1 call hcall =>
    have hcarried := h.calls call (List.mem_of_getElem? hcall)
    obtain ⟨cmd, hcmd, -⟩ := hcarried.chunk
    split
    case isFalse => exact h
    case isTrue hanswered =>
      have hresult : call.result.isSome = true :=
        hanswered.resolve_left fun hnone => nomatch hcmd.symm.trans hnone
      refine Tracked.updateFile (h.updateCall fun call' hcall' => ?_) (fun _ => rfl)
        fun f place _ hsettled => ⟨place, { hsettled with }⟩
      obtain rfl : call = call' := Option.some.inj (hcall.symm.trans hcall')
      exact { hcarried with answered := fun _ => hcarried.result hresult }

theorem Tracked.finalize {user transferId : String} {sha256Hash : Option String} {now : ℤ}
    (h : Tracked sha256 locate content s)
    (hok : TransferOk sha256 locate content s (.finalize user transferId sha256Hash now)) :
    Tracked sha256 locate content (s.finalize user transferId sha256Hash now) := by
  unfold Transfers.finalize
  split
  case h_2 => exact h
  case h_1 f hf =>
    obtain ⟨place, hplace, hcomplete⟩ := hok f hf
    obtain ⟨hfile, -⟩ := Option.filter_eq_some_iff.mp hf
    have hkeep : Tracked sha256 locate content { s with
        cluster := s.cluster.updateFile transferId (Cluster.finalized f sha256Hash now) } :=
      h.updateFile (fun _ => rfl) fun f' place' hf' _ => by
        obtain rfl : f = f' := Option.some.inj (hfile.symm.trans hf')
        exact ⟨place, hcomplete.settled hplace h.shows now⟩
    refine ⟨h.calls, h.shows, fun t ht => ?_⟩
    rcases List.mem_cons.mp ht with rfl | ht
    · have hsettled := hcomplete.settled hplace h.shows now
      refine ⟨Cluster.finalized f sha256Hash now f, place, ?_, hsettled.mono rfl rfl⟩
      have hid : ∀ f', (Cluster.finalized f sha256Hash now f').id = f'.id := fun _ => rfl
      rw [file_updateFile hid, hfile, Option.map_some, if_pos (id_of_file hfile)]
    · exact hkeep.settled t ht

/-- **Every step that meets the condition keeps what a transfer promises.** -/
theorem Tracked.step {e : TransferEvent} (h : Tracked sha256 locate content s)
    (hok : TransferOk sha256 locate content s e) :
    Tracked sha256 locate content (transferStep d locate s e) := by
  cases e with
  | initResumable user call body =>
    have hgrown : Grown "" s.cluster.store
        (leaves (Files.initResumable call user d body) s.cluster.store) := grown_initResumable
    exact h.initResumable hgrown
  | chunk user transferId offset dataBase64 online => exact h.chunk hok
  | handles i fate => exact h.handle hok
  | expires i => exact h.expire hok
  | answers i now => exact h.answer
  | finalize user transferId sha256Hash now => exact h.finalize hok

end Runs

namespace TwoNodes

/-- Two bytes for a node. -/
def content (transferId : String) : Bytes := if transferId = "xfer_1" then [0x61, 0x62] else []

/-- SHA-256, of these two bytes too. -/
def hash (bytes : Bytes) : String :=
  if bytes = [0x61, 0x62] then "fb8e20fc2e4c3f248c60c39bd652f3c1347298bb977b8b4d5903b85055620603"
  else knownSha256 bytes

/-- The second byte comes first, and twice. -/
def outOfOrder : List TransferEvent :=
  [.initResumable "alice" ⟨0, "1", 0⟩ ⟨some "a", some 2, none, some "n1", none, none⟩,
    .chunk "alice" "xfer_1" (some 1) (some "Yg==") true, .handles 0 .done, .answers 0 1,
    .chunk "alice" "xfer_1" (some 1) (some "Yg==") true,
    .chunk "alice" "xfer_1" (some 0) (some "YQ==") true, .handles 2 .done, .handles 1 .done,
    .answers 1 2, .answers 2 3, .finalize "alice" "xfer_1" (some (hash [0x61, 0x62])) 4]

/-- The node is offline, and a chunk comes after the end. -/
def offline : List TransferEvent :=
  [.initResumable "alice" ⟨0, "1", 0⟩ ⟨some "a", some 2, none, some "n1", none, none⟩,
    .chunk "alice" "xfer_1" (some 0) (some "YWI=") false, .answers 0 1,
    .finalize "alice" "xfer_1" (some (hash [0x61, 0x62])) 2,
    .chunk "alice" "xfer_1" (some 0) (some "YWI=") false, .answers 1 3]

end TwoNodes

open TwoNodes

end Pcos.Edge.Files
