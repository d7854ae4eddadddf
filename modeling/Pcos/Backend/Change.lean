import Pcos.Backend.System

/-!
# Backend/Change — what a step can do

`Change` says, once and for all requests, what a step can do: which rows it can add, rewrite, move,
trash, restore or delete, and which files it can write or remove along with them.  Every invariant of
the development is proved against `Change`, or against `RowChange`, what remains of it in the table;
`step_change` is the only place where the handlers are opened.
-/

namespace Pcos

open Foundations

/-- The parent, if one is given, is an entry of the user. -/
def ParentOwned (w : World) (user : Uuid) (parent : Option Uuid) : Prop :=
  ∀ p ∈ parent, (w.owned user p).isSome

/-- The row that a request inserts when it writes no file. -/
inductive NewRow (w : World) (e : Event) : FileEntry → Prop
  | createFolder {parent name} (hreq : e.request = .createFolder parent name)
      (hown : ParentOwned w e.call.user parent) : NewRow w e (newFolder e.call parent name)
  | mkcol {path} (hreq : e.request = .mkcol path) :
      NewRow w e (newFolder e.call (resolvePath w e.call.user path).1 (entryName path))
  | copyFolder {path destination name} (hreq : e.request = .webdavCopy path destination) :
      NewRow w e (newFolder e.call (resolvePath w e.call.user path).1 name)
  | transfer {req} (hreq : e.request = .initTransfer req)
      (hquota : withinQuota w e.call.user req.sizeBytes = true) (hsize : 0 ≤ req.sizeBytes)
      (hcol : transferColumns ⊆ w.columns) : NewRow w e (newTransfer e.call req)

/-- The row that a request inserts for a file it has written, the columns it names, and the
content. -/
inductive NewFile (env : Env) (w : World) (e : Event) : FileEntry → List Column → Bytes → Prop
  | upload {parent filename mime data} (hreq : e.request = .uploadFile parent filename mime data)
      (hown : ParentOwned w e.call.user parent)
      (hquota : withinQuota w e.call.user data.length = true) :
      NewFile env w e (newFile e.call parent filename (some mime) data.length
        (some (env.sha256 data)) (filePath e.call.user e.call.newId)) fileColumns data
  | assembled {req data} (hreq : e.request = .completeChunkedUpload req)
      (hown : ParentOwned w e.call.user req.parentId)
      (hquota : withinQuota w e.call.user req.totalSize = true)
      (hread : readChunks (w.chunkDirs e.call.user req.uploadId) (chunkIndexes req.totalChunks) []
        = .ok data) :
      NewFile env w e (newFile e.call req.parentId req.filename (some (mimeOf env req.filename))
        data.length (some (env.sha256 data)) (filePath e.call.user e.call.newId)) fileColumns data
  | put {path contentType data} (hreq : e.request = .webdavPut path contentType data)
      (hnew : (resolvePath w e.call.user path).2 = none) :
      NewFile env w e (putRow env e.call (resolvePath w e.call.user path).1 (entryName path)
        (putMime env contentType (entryName path)) data) fileColumns data
  | object {key contentType data} (hreq : e.request = .putObject key contentType data)
      (hnew : limitOne e.call.scan (liveFiles w e.call.user (entryName key)) = none) :
      NewFile env w e (putRow env e.call none (entryName key)
        (putMime env contentType (entryName key)) data) fileColumns data
  | copy {path destination source src data}
      (hreq : e.request = .webdavCopy path (some destination))
      (hsource : (resolvePath w e.call.user path).2 = some source) (hfile : source.entryType = .file)
      (hsrc : source.storagePath = some src) (hdata : w.blobs src = some data) :
      NewFile env w e (copyRow e.call (resolvePath w e.call.user path).1
        (lastSegment destination.toList) source) copyColumns data

/-- The entry that a `PUT` overwrites, with the new media type and content. -/
inductive Overwrites (env : Env) (w : World) (e : Event) :
    FileEntry → Option String → Bytes → Prop
  | put {path contentType data r} (hreq : e.request = .webdavPut path contentType data)
      (hr : (resolvePath w e.call.user path).2 = some r) :
      Overwrites env w e r (putMime env contentType (entryName path)) data
  | object {key contentType data r} (hreq : e.request = .putObject key contentType data)
      (hr : limitOne e.call.scan (liveFiles w e.call.user (entryName key)) = some r) :
      Overwrites env w e r (putMime env contentType (entryName key)) data

/-- The rows that a request trashes. -/
inductive Trashes (w : World) (e : Event) : (FileEntry → Bool) → Prop
  | item {item ids} (hreq : e.request = .deleteItem item) (hown : (w.owned e.call.user item).isSome)
      (hids : w.entries.descendants e.call.user item = some ids) : Trashes w e fun r => r.id ∈ ids
  | path {path target} (hreq : e.request = .webdavDelete path)
      (htarget : (resolvePath w e.call.user path).2 = some target) :
      Trashes w e fun r => r.id = target.id && r.userId = e.call.user
  | object {key} (hreq : e.request = .deleteObject key) : Trashes w e (objectRows e.call.user key)

/-- The rows that a request deletes, and those whose files it removes. -/
inductive Deletes (w : World) (e : Event) : (FileEntry → Bool) → (FileEntry → Bool) → Prop
  | item {item ids entry} (hreq : e.request = .permanentDelete item)
      (hentry : w.owned e.call.user item = some entry) (htrash : entry.isTrashed = true)
      (hids : w.entries.descendants e.call.user item = some ids) :
      Deletes w e (fun r => r.id ∈ ids) fun r => r.id ∈ ids
  | trash (hreq : e.request = .emptyTrash) :
      Deletes w e (fun r => r.userId = e.call.user && r.isTrashed)
        fun r => r.userId = e.call.user && r.isTrashed
  | purge (hreq : e.request = .purgeTrash) :
      Deletes w e (fun r => r.isTrashed && r.updatedAt < e.call.now - thirtyDays) fun _ => false

/-- The assembly of chunks that a request asks for: upload, file and number of chunks. -/
inductive Assembles (env : Env) (w : World) (e : Event) : Uuid → Uuid → ℤ → Prop
  | complete {req} (hreq : e.request = .completeChunkedUpload req)
      (hown : ParentOwned w e.call.user req.parentId)
      (hquota : withinQuota w e.call.user req.totalSize = true) :
      Assembles env w e req.uploadId e.call.newId req.totalChunks
  | finalize {transferId clientHash file entry chunks}
      (hreq : e.request = .finalizeTransfer transferId clientHash)
      (hfile : transferUuid env transferId = some file)
      (hentry : w.owned e.call.user file = some entry)
      (hchunks : w.chunkDirs e.call.user file = some chunks) :
      Assembles env w e file file chunks.length

/-- The requests that rename an entry or touch its time. -/
def Request.relabels : Request → Bool
  | .renameItem _ _ => true
  | .writeChunk _ _ _ => true
  | .webdavMove _ _ => true
  | _ => false

/-- A rewriting of rows that touches only their name and time. -/
def Relabels (f : FileEntry → FileEntry) : Prop :=
  ∀ r, ∃ name time, f r = { r with name := name, updatedAt := time }

/-- **What a step can do.** -/
inductive Change (env : Env) (w : World) (e : Event) : World → Prop
  | same : Change env w e w
  | chunks (d : Uuid → Uuid → Option (List (ℤ × Bytes))) : Change env w e { w with chunkDirs := d }
  | insert {r t} (hr : NewRow w e r) (ht : w.entries.insert r = some t) :
      Change env w e { w with entries := t }
  | store {r cols data t} (d) (hr : NewFile env w e r cols data)
      (ht : w.entries.insert r = some t) :
      Change env w e { w.putBlob (filePath e.call.user e.call.newId) data with
        entries := t, chunkDirs := d }
  /-- The file is written and its row is refused. -/
  | strand {r cols data} (d) (hr : NewFile env w e r cols data) (hno : ¬ w.Accepts cols r) :
      Change env w e { w.putBlob (filePath e.call.user e.call.newId) data with chunkDirs := d }
  /-- A chunk is missing and the temporary file stays. -/
  | abandon {upload file total part} (h : Assembles env w e upload file total)
      (hread : readChunks (w.chunkDirs e.call.user upload) (chunkIndexes total) [] = .error part) :
      Change env w e (w.putBlob (tmpAsmPath e.call.user file e.call.tmpId) part)
  | overwrite {r mime data t} (hr : Overwrites env w e r mime data)
      (ht : w.entries.update (fun r' => r'.id = r.id && r'.userId = e.call.user)
        (overwritten env e.call r.target mime data) = some t) :
      Change env w e { w.putBlob r.target data with entries := t }
  /-- The file is overwritten and the new metadata is refused. -/
  | overwriteOnly {r mime data} (hr : Overwrites env w e r mime data)
      (ht : w.entries.update (fun r' => r'.id = r.id && r'.userId = e.call.user)
        (overwritten env e.call r.target mime data) = none) :
      Change env w e (w.putBlob r.target data)
  | relabel {p f t} (d) (hreq : e.request.relabels = true) (hf : Relabels f)
      (ht : w.entries.update p f = some t) :
      Change env w e { w with entries := t, chunkDirs := d }
  | move {item target t} (hreq : e.request = .moveItem item target)
      (hown : (w.owned e.call.user item).isSome)
      (htarget : ∀ x ∈ target, ∃ r, w.owned e.call.user x = some r ∧ r.entryType = .folder)
      (hne : target ≠ some item)
      (ht : w.entries.update (fun r => r.id = item)
        (fun r => { r with parentId := target, updatedAt := e.call.now }) = some t) :
      Change env w e { w with entries := t }
  | trash {p t} (hp : Trashes w e p) (time : FileEntry → Option ℤ)
      (ht : w.entries.update p
        (fun r => { r with isTrashed := true, trashedAt := time r, updatedAt := e.call.now })
          = some t) :
      Change env w e { w with entries := t }
  | restore {item ids t} (hreq : e.request = .restoreFromTrash item)
      (hown : (w.owned e.call.user item).isSome)
      (hids : w.entries.descendants e.call.user item = some ids)
      (ht : w.entries.update (fun r => r.id ∈ ids)
        (fun r => { r with isTrashed := false, trashedAt := none, updatedAt := e.call.now })
          = some t) :
      Change env w e { w with entries := t }
  | delete {p q} (hp : Deletes w e p q) (v : List FileVersion) (hv : v ⊆ w.versions) :
      Change env w e { w.dropBlobs (storagePaths w q) with entries := w.entries.delete p, versions := v }
  /-- A transfer without chunks gets a made-up path. -/
  | flatten {transferId clientHash file entry hash size t}
      (hreq : e.request = .finalizeTransfer transferId clientHash)
      (hfile : transferUuid env transferId = some file)
      (hentry : w.owned e.call.user file = some entry)
      (hchunks : w.chunkDirs e.call.user file = none
          ∧ hashMismatch clientHash (entry.sha256Hash.getD "verified") = false
          ∧ size = entry.sizeBytes
        ∨ w.chunkDirs e.call.user file = some [] ∧ size = 0)
      (ht : w.entries.update (fun r => r.id = file)
        (fun r => { r with storagePath := some (flatPath e.call.user file), sha256Hash := hash,
                           sizeBytes := size, updatedAt := e.call.now }) = some t) :
      Change env w e { w with entries := t }
  | finalize {transferId clientHash file entry chunks data t} (d)
      (hreq : e.request = .finalizeTransfer transferId clientHash)
      (hfile : transferUuid env transferId = some file)
      (hentry : w.owned e.call.user file = some entry)
      (hchunks : w.chunkDirs e.call.user file = some chunks)
      (hread : readChunks (some chunks) (chunkIndexes chunks.length) [] = .ok data)
      (ht : w.entries.update (fun r => r.id = file)
        (fun r => { r with storagePath := some (filePath e.call.user file),
                           sha256Hash := some (env.sha256 data), sizeBytes := data.length,
                           updatedAt := e.call.now }) = some t) :
      Change env w e { w.putBlob (filePath e.call.user file) data with
        entries := t, chunkDirs := d }
  /-- The chunks are assembled and the client's hash is another one. -/
  | mismatch {transferId clientHash file entry chunks data} (d)
      (hreq : e.request = .finalizeTransfer transferId clientHash)
      (hfile : transferUuid env transferId = some file)
      (hentry : w.owned e.call.user file = some entry)
      (hchunks : w.chunkDirs e.call.user file = some chunks)
      (hread : readChunks (some chunks) (chunkIndexes chunks.length) [] = .ok data)
      (hhash : hashMismatch clientHash (env.sha256 data) = true) :
      Change env w e { w.putBlob (filePath e.call.user file) data with chunkDirs := d }
  | version {file version v t} (hreq : e.request = .restoreVersion file version)
      (hown : (w.owned e.call.user file).isSome) (hv : v ∈ w.versions) (hvf : v.fileEntryId = file)
      (ht : w.entries.update (fun r => r.id = file)
        (fun r => { r with storagePath := some v.storagePath, sizeBytes := v.sizeBytes,
                           sha256Hash := v.sha256Hash, updatedAt := e.call.now }) = some t) :
      Change env w e { w with entries := t }


/-! ## The handlers, one by one -/

section Handlers

variable {env : Env} {w : World} {e : Event}

@[simp] theorem wp_verifyOwnership {user item : Uuid} {Q : FileEntry → World → Prop}
    {P : World → Prop} : wp (verifyOwnership user item) Q (fun _ => P) w ↔
      (∀ r, w.owned user item = some r → Q r w) ∧ (w.owned user item = none → P w) := by
  simp only [verifyOwnership, wp_bind, wp_get, wp_okOr]

@[simp] theorem wp_verifyParent {user : Uuid} {parent : Option Uuid} {Q : Unit → World → Prop}
    {P : World → Prop} : wp (verifyParent user parent) Q (fun _ => P) w ↔
      (ParentOwned w user parent → Q () w) ∧ (¬ ParentOwned w user parent → P w) := by
  cases parent with
  | none => simp [verifyParent, ParentOwned]
  | some p =>
    simp only [verifyParent, wp_bind, wp_verifyOwnership, wp_pure, ParentOwned, Option.mem_def,
      Option.some.injEq, forall_eq', Option.isSome_iff_exists, forall_exists_index, not_exists,
      Option.eq_none_iff_forall_ne_some, ne_eq]

@[simp] theorem wp_checkStorageQuota {user : Uuid} {incoming : ℤ} {Q : Unit → World → Prop}
    {P : World → Prop} : wp (checkStorageQuota user incoming) Q (fun _ => P) w ↔
      (withinQuota w user incoming = true → Q () w) ∧ (withinQuota w user incoming = false → P w) := by
  simp only [checkStorageQuota, wp_bind, wp_get, wp_ensure]

@[simp] theorem wp_selectDescendants {user item : Uuid} {Q : List Uuid → World → Prop}
    {P : World → Prop} : wp (selectDescendants user item) Q (fun _ => P) w ↔
      (∀ ids, w.entries.descendants user item = some ids → Q ids w)
        ∧ (w.entries.descendants user item = none → P w) := by
  simp only [selectDescendants, wp_bind, wp_get, wp_okOr]

theorem createFolder_change {parent : Option Uuid} {name : String}
    (hreq : e.request = .createFolder parent name) :
    Change env w e (leaves (createFolder e.call parent name) w) := by
  apply wp.leaves
  simp only [createFolder, wp_bind, wp_ensure, wp_get, wp_verifyParent, wp_insertEntry, wp_pure]
  refine ⟨fun _ => ⟨fun hown => ⟨fun _ => ⟨fun t _ ht => ?_, fun _ => .same⟩, fun _ => .same⟩,
    fun _ => .same⟩, fun _ => .same⟩
  exact .insert (.createFolder hreq hown) ht

theorem uploadFile_change {parent : Option Uuid} {filename mime : String} {data : Bytes}
    (hreq : e.request = .uploadFile parent filename mime data) :
    Change env w e (leaves (uploadFile env e.call parent filename mime data) w) := by
  apply wp.leaves
  simp only [uploadFile, admitUpload, storeUpload, storeFile, wp_bind, wp_modify, wp_verifyParent,
    wp_checkStorageQuota, wp_insertEntry, wp_pure]
  refine ⟨fun hown => ⟨fun hq => ⟨fun t _ ht => ?_, fun hno => ?_⟩, fun _ => .same⟩,
    fun _ => .same⟩
  · exact .store w.chunkDirs (.upload hreq hown hq) ht
  · exact .strand w.chunkDirs (.upload hreq hown hq) hno

@[simp] theorem wp_assembleChunks {c : Call} {upload file : Uuid} {total : ℤ} {failed : String}
    {Q : String × String × ℤ → World → Prop} {P : World → Prop} :
    wp (assembleChunks env c upload file total failed) Q (fun _ => P) w ↔
      (∀ data, readChunks (w.chunkDirs c.user upload) (chunkIndexes total) [] = .ok data →
        Q (filePath c.user file, env.sha256 data, data.length)
          ((w.putBlob (filePath c.user file) data).dropChunks c.user upload))
      ∧ ∀ part, readChunks (w.chunkDirs c.user upload) (chunkIndexes total) [] = .error part →
        P (w.putBlob (tmpAsmPath c.user file c.tmpId) part) := by
  simp only [assembleChunks, wp_bind, wp_get]
  cases readChunks (w.chunkDirs c.user upload) (chunkIndexes total) [] with
  | ok data => simp only [wp_bind, wp_set, wp_pure, Except.ok.injEq, forall_eq', reduceCtorEq,
      false_implies, implies_true, and_true]
  | error part => simp only [wp_bind, wp_set, wp_throw, Except.error.injEq, forall_eq',
      reduceCtorEq, false_implies, implies_true, true_and]

theorem completeChunkedUpload_change {req : ChunkedUploadRequest}
    (hreq : e.request = .completeChunkedUpload req) :
    Change env w e (leaves (completeChunkedUpload env e.call req) w) := by
  apply wp.leaves
  simp only [completeChunkedUpload, admitUpload, storeAssembled, wp_bind, wp_verifyParent,
    wp_checkStorageQuota, wp_assembleChunks, wp_insertEntry, wp_pure]
  refine ⟨fun hown => ⟨fun hq => ⟨fun data hread => ⟨fun t _ ht => ?_, fun hno => ?_⟩,
    fun part hread => ?_⟩, fun _ => .same⟩, fun _ => .same⟩
  · exact .store _ (.assembled hreq hown hq hread) ht
  · exact .strand _ (.assembled hreq hown hq hread) hno
  · exact .abandon (.complete hreq hown hq) hread

theorem renameItem_change {item : Uuid} {name : String}
    (hreq : e.request = .renameItem item name) :
    Change env w e (leaves (renameItem e.call item name) w) := by
  apply wp.leaves
  simp only [renameItem, wp_bind, wp_ensure, wp_get, wp_verifyOwnership, wp_updateEntries, wp_pure]
  refine ⟨fun _ => ⟨fun r _ => ⟨fun _ => ⟨fun t ht => ?_, fun _ => .same⟩, fun _ => .same⟩,
    fun _ => .same⟩, fun _ => .same⟩
  exact .relabel w.chunkDirs (by rw [hreq]; rfl) (fun r => ⟨name, e.call.now, rfl⟩) ht

theorem moveItem_change {item : Uuid} {target : Option Uuid}
    (hreq : e.request = .moveItem item target) :
    Change env w e (leaves (moveItem e.call item target) w) := by
  apply wp.leaves
  cases target with
  | none =>
    simp only [moveItem, wp_bind, wp_verifyOwnership, wp_updateEntries, wp_pure]
    refine ⟨fun r hr => ⟨fun t ht => ?_, fun _ => .same⟩, fun _ => .same⟩
    exact .move hreq (by rw [hr]; rfl) (fun x hx => by cases hx) (fun h => by cases h) ht
  | some x =>
    simp only [moveItem, wp_bind, wp_verifyOwnership, wp_ensure, wp_updateEntries, wp_pure]
    refine ⟨fun r hr => ⟨fun f hf => ⟨fun hfolder => ⟨fun hne => ⟨fun t ht => ?_, fun _ => .same⟩,
      fun _ => .same⟩, fun _ => .same⟩, fun _ => .same⟩, fun _ => .same⟩
    refine .move hreq (by rw [hr]; rfl) (fun y hy => ?_) (fun h => ?_) ht
    · obtain rfl := Option.some.inj hy
      exact ⟨f, hf, of_decide_eq_true hfolder⟩
    · exact of_decide_eq_true hne (Option.some.inj h).symm

theorem deleteItem_change {item : Uuid} (hreq : e.request = .deleteItem item) :
    Change env w e (leaves (deleteItem e.call item) w) := by
  apply wp.leaves
  simp only [deleteItem, wp_bind, wp_verifyOwnership, wp_selectDescendants, wp_updateEntries]
  refine ⟨fun r hr => ⟨fun ids hids => ⟨fun t ht => ?_, fun _ => .same⟩, fun _ => .same⟩,
    fun _ => .same⟩
  exact .trash (.item hreq (by rw [hr]; rfl) hids) (fun _ => some e.call.now) ht

theorem restoreFromTrash_change {item : Uuid} (hreq : e.request = .restoreFromTrash item) :
    Change env w e (leaves (restoreFromTrash e.call item) w) := by
  apply wp.leaves
  simp only [restoreFromTrash, wp_bind, wp_verifyOwnership, wp_ensure, wp_selectDescendants,
    wp_updateEntries, wp_pure]
  refine ⟨fun r hr => ⟨fun _ => ⟨fun ids hids => ⟨fun t ht => ?_, fun _ => .same⟩, fun _ => .same⟩,
    fun _ => .same⟩, fun _ => .same⟩
  exact .restore hreq (by rw [hr]; rfl) hids ht

theorem permanentDelete_change {item : Uuid} (hreq : e.request = .permanentDelete item) :
    Change env w e (leaves (permanentDelete e.call item) w) := by
  apply wp.leaves
  simp only [permanentDelete, deleteEntries, wp_bind, wp_verifyOwnership, wp_ensure,
    wp_selectDescendants, wp_modify, wp_get, wp_set, wp_pure]
  refine ⟨fun r hr => ⟨fun htrash => ⟨fun ids hids => ⟨fun ids' hids' => ?_, fun hnone => ?_⟩,
    fun _ => .same⟩, fun _ => .same⟩, fun _ => .same⟩
  · obtain rfl : ids = ids' := Option.some.inj (hids.symm.trans hids')
    exact .delete (.item hreq hr htrash hids) _ (List.filter_subset_self _)
  · -- the second query sees the rows the first one saw
    rw [show (World.dropBlobs w _).entries = w.entries from rfl, hids] at hnone
    cases hnone

theorem emptyTrash_change (hreq : e.request = .emptyTrash) :
    Change env w e (leaves (emptyTrash e.call) w) := by
  apply wp.leaves
  simp only [emptyTrash, deleteEntries, wp_bind, wp_modify, wp_get, wp_set, wp_pure]
  exact .delete (.trash hreq) _ (List.filter_subset_self _)

theorem purgeTrash_change (hreq : e.request = .purgeTrash) :
    Change env w e (leaves (purgeTrash e.call.now) w) := by
  apply wp.leaves
  simp only [purgeTrash, deleteEntries, wp_bind, wp_get, wp_set, wp_pure]
  have h : Change env w e { w.dropBlobs (storagePaths w fun _ => false) with
      entries := w.entries.delete fun r => r.isTrashed && r.updatedAt < e.call.now - thirtyDays
      versions := w.versions.filter fun v => v.fileEntryId ∈ (w.entries.delete fun r =>
        r.isTrashed && r.updatedAt < e.call.now - thirtyDays).rows.map FileEntry.id } :=
    .delete (.purge hreq) _ (List.filter_subset_self _)
  simpa [storagePaths, World.dropBlobs] using h

theorem initTransfer_change {req : ResumableInitRequest} (hreq : e.request = .initTransfer req) :
    Change env w e (leaves (initTransfer e.call req) w) := by
  apply wp.leaves
  simp only [initTransfer, admitTransfer, storeTransfer, wp_bind, wp_ensure, wp_checkStorageQuota,
    wp_insertEntry, wp_pure]
  refine ⟨fun _ => ⟨fun hsize => ⟨fun hq => ⟨fun t hacc ht => ?_, fun _ => .same⟩, fun _ => .same⟩,
    fun _ => .same⟩, fun _ => .same⟩
  exact .insert (.transfer hreq hq (of_decide_eq_true hsize) hacc.1) ht

theorem writeChunk_change {transferId : String} {offset : ℤ} {dataBase64 : String}
    (hreq : e.request = .writeChunk transferId offset dataBase64) :
    Change env w e (leaves (writeChunk env e.call transferId offset dataBase64) w) := by
  apply wp.leaves
  simp only [writeChunk, parseTransferUuid, wp_bind, wp_okOr, wp_get, wp_modify, wp_updateEntries,
    wp_pure]
  refine ⟨fun file _ => ⟨fun r _ => ⟨fun data _ => ⟨fun t ht => ?_, fun _ => .chunks _⟩,
    fun _ => .same⟩, fun _ => .same⟩, fun _ => .same⟩
  exact .relabel _ (by rw [hreq]; rfl) (fun r => ⟨r.name, e.call.now, rfl⟩) ht

theorem restoreVersion_change {file version : Uuid}
    (hreq : e.request = .restoreVersion file version) :
    Change env w e (leaves (restoreVersion e.call file version) w) := by
  apply wp.leaves
  simp only [restoreVersion, wp_bind, wp_get, wp_okOr, wp_updateEntries, wp_pure]
  refine ⟨fun r hr => ⟨fun v hv => ⟨fun t ht => ?_, fun _ => .same⟩, fun _ => .same⟩,
    fun _ => .same⟩
  have hvf := List.find?_some hv
  rw [Bool.and_eq_true, decide_eq_true_eq, decide_eq_true_eq] at hvf
  exact .version hreq (by rw [hr]; rfl) (List.mem_of_find?_eq_some hv) hvf.2 ht

theorem mkcol_change {path : String} (hreq : e.request = .mkcol path) :
    Change env w e (leaves (mkcol e.call path) w) := by
  apply wp.leaves
  simp only [mkcol, wp_bind, wp_get]
  split
  · exact .same
  case h_2 parent hres =>
    simp only [wp_bind, wp_insertEntry, wp_pure]
    refine ⟨fun t _ ht => ?_, fun _ => .same⟩
    obtain rfl : (resolvePath w e.call.user path).1 = parent := by rw [hres]
    exact .insert (.mkcol hreq) ht

@[simp] theorem wp_overwriteEntry {c : Call} {r : FileEntry} {mime : Option String} {data : Bytes}
    {Q : Unit → World → Prop} {P : World → Prop} :
    wp (overwriteEntry env c r mime data) Q (fun _ => P) w ↔
      (∀ t, w.entries.update (fun r' => r'.id = r.id && r'.userId = c.user)
          (overwritten env c r.target mime data) = some t →
        Q () { w.putBlob r.target data with entries := t })
      ∧ (w.entries.update (fun r' => r'.id = r.id && r'.userId = c.user)
          (overwritten env c r.target mime data) = none → P (w.putBlob r.target data)) := by
  simp only [overwriteEntry, wp_bind, wp_modify, wp_updateEntries]
  rfl

@[simp] theorem wp_createEntry {c : Call} {parent : Option Uuid} {name : String}
    {mime : Option String} {data : Bytes} {Q : Unit → World → Prop} {P : World → Prop} :
    wp (createEntry env c parent name mime data) Q (fun _ => P) w ↔
      (∀ t, w.Accepts fileColumns (putRow env c parent name mime data) →
        w.entries.insert (putRow env c parent name mime data) = some t →
        Q () { w.putBlob (filePath c.user c.newId) data with entries := t })
      ∧ (¬ w.Accepts fileColumns (putRow env c parent name mime data) →
          P (w.putBlob (filePath c.user c.newId) data)) := by
  simp only [createEntry, wp_bind, wp_modify, wp_insertEntry]
  rfl

theorem webdavPut_change {path : String} {contentType : Option String} {data : Bytes}
    (hreq : e.request = .webdavPut path contentType data) :
    Change env w e (leaves (webdavPut env e.call path contentType data) w) := by
  apply wp.leaves
  simp only [webdavPut, wp_bind, wp_get, wp_ensure]
  refine ⟨fun _ => ?_, fun _ => .same⟩
  split
  case h_1 r hr =>
    simp only [wp_bind, wp_overwriteEntry, wp_pure]
    exact ⟨fun t ht => .overwrite (.put hreq hr) ht, fun ht => .overwriteOnly (.put hreq hr) ht⟩
  case h_2 hr =>
    simp only [wp_bind, wp_createEntry, wp_pure]
    exact ⟨fun t _ ht => .store w.chunkDirs (.put hreq hr) ht,
      fun hno => .strand w.chunkDirs (.put hreq hr) hno⟩

theorem webdavDelete_change {path : String} (hreq : e.request = .webdavDelete path) :
    Change env w e (leaves (webdavDelete e.call path) w) := by
  apply wp.leaves
  simp only [webdavDelete, wp_bind, wp_get]
  split
  case h_1 target htarget =>
    simp only [wp_bind, wp_updateEntries, wp_pure]
    exact ⟨fun t ht => .trash (.path hreq htarget) FileEntry.trashedAt ht, fun _ => .same⟩
  · exact .same

theorem webdavMove_change {path : String} {destination : Option String}
    (hreq : e.request = .webdavMove path destination) :
    Change env w e (leaves (webdavMove e.call path destination) w) := by
  apply wp.leaves
  simp only [webdavMove, destinationName, wp_bind, wp_okOr, wp_get]
  refine ⟨fun name _ => ?_, fun _ => .same⟩
  split
  · simp only [wp_bind, wp_updateEntries, wp_pure]
    refine ⟨fun t ht => ?_, fun _ => .same⟩
    exact .relabel w.chunkDirs (by rw [hreq]; rfl) (fun r => ⟨name, e.call.now, rfl⟩) ht
  · exact .same

theorem webdavCopy_change {path : String} {destination : Option String}
    (hreq : e.request = .webdavCopy path destination) :
    Change env w e (leaves (webdavCopy e.call path destination) w) := by
  apply wp.leaves
  simp only [webdavCopy, destinationName, wp_bind, wp_okOr, wp_get]
  refine ⟨fun name hname => ?_, fun _ => .same⟩
  obtain ⟨dest, rfl, rfl⟩ := Option.map_eq_some_iff.mp hname
  split
  case h_2 => exact .same
  case h_1 parent source hres =>
    obtain rfl : (resolvePath w e.call.user path).1 = parent := by rw [hres]
    have hsource : (resolvePath w e.call.user path).2 = some source := by rw [hres]
    split
    case h_1 =>
      simp only [wp_bind, wp_insertEntry, wp_pure]
      exact ⟨fun t _ ht => .insert (.copyFolder hreq) ht, fun _ => .same⟩
    case h_2 src hfile hsrc =>
      simp only [wp_bind, wp_okOr, wp_modify, wp_insertEntry, wp_pure]
      refine ⟨fun data hdata => ⟨fun t _ ht => ?_, fun hno => ?_⟩, fun _ => .same⟩
      · exact .store w.chunkDirs (.copy hreq hsource hfile hsrc hdata) ht
      · exact .strand w.chunkDirs (.copy hreq hsource hfile hsrc hdata) hno
    case h_3 =>
      simp only [wp_pure]
      exact .same

theorem putObject_change {key : String} {contentType : Option String} {data : Bytes}
    (hreq : e.request = .putObject key contentType data) :
    Change env w e (leaves (putObject env e.call key contentType data) w) := by
  apply wp.leaves
  simp only [putObject, wp_bind, wp_get, wp_ensure]
  refine ⟨fun _ => ?_, fun _ => .same⟩
  split
  case h_1 r hr =>
    simp only [wp_bind, wp_overwriteEntry, wp_pure]
    exact ⟨fun t ht => .overwrite (.object hreq hr) ht,
      fun ht => .overwriteOnly (.object hreq hr) ht⟩
  case h_2 hr =>
    simp only [wp_bind, wp_createEntry, wp_pure]
    exact ⟨fun t _ ht => .store w.chunkDirs (.object hreq hr) ht,
      fun hno => .strand w.chunkDirs (.object hreq hr) hno⟩

theorem deleteObject_change {key : String} (hreq : e.request = .deleteObject key) :
    Change env w e (leaves (deleteObject e.call key) w) := by
  apply wp.leaves
  simp only [deleteObject, wp_bind, wp_updateEntries, wp_pure]
  exact ⟨fun t ht => .trash (.object hreq) FileEntry.trashedAt ht, fun _ => .same⟩

theorem sha256_ne {data : Bytes} {s : String} (hs : s.length ≠ 64) : env.sha256 data ≠ s := by
  rintro rfl
  exact hs (env.length_sha256 data)

@[simp] theorem finalSha256_sha256 (client : Option String) (data : Bytes) :
    finalSha256 client (env.sha256 data) = env.sha256 data := by
  have h1 : env.sha256 data ≠ "" := sha256_ne (by decide)
  have h2 : env.sha256 data ≠ "empty" := sha256_ne (by decide)
  simp [finalSha256, h1, h2]

theorem finalizeTransfer_change {transferId : String} {clientHash : Option String}
    (hreq : e.request = .finalizeTransfer transferId clientHash) :
    Change env w e (leaves (finalizeTransfer env e.call transferId clientHash) w) := by
  apply wp.leaves
  simp only [finalizeTransfer, parseTransferUuid, finalContent, wp_bind, wp_okOr, wp_get]
  refine ⟨fun file hfile => ⟨fun entry hentry => ?_, fun _ => .same⟩, fun _ => .same⟩
  split
  case h_2 hchunks =>
    simp only [wp_pure, wp_ensure, wp_updateEntries, Bool.not_eq_true']
    refine ⟨fun hhash => ⟨fun t ht => ?_, fun _ => .same⟩, fun _ => .same⟩
    exact .flatten hreq hfile hentry (.inl ⟨hchunks, hhash, rfl⟩) ht
  case h_1 chunks hchunks =>
    split
    case isFalse hlen =>
      simp only [wp_pure, wp_ensure, wp_updateEntries]
      obtain rfl : chunks = [] := List.eq_nil_of_length_eq_zero (Nat.eq_zero_of_not_pos hlen)
      exact ⟨fun _ => ⟨fun t ht => .flatten hreq hfile hentry (.inr ⟨hchunks, rfl⟩) ht, fun _ => .same⟩,
        fun _ => .same⟩
    case isTrue hlen =>
      simp only [wp_assembleChunks, wp_ensure, wp_updateEntries, wp_pure,
        finalSha256_sha256, Bool.not_eq_true', Bool.not_eq_false']
      refine ⟨fun data hread => ⟨fun _ => ⟨fun t ht => ?_, fun hno => ?_⟩, fun hhash => ?_⟩,
        fun part hread => ?_⟩
      · exact .finalize _ hreq hfile hentry hchunks (hchunks ▸ hread) ht
      · -- the new values fit, so the update is not refused
        refine absurd hno (Option.isSome_iff_ne_none.mp (FileTable.update_isSome ?_ ?_ ?_ ?_)) <;>
          intro r
        · rfl
        · rfl
        · rfl
        · intro hr _
          obtain ⟨h1, h2, -⟩ := w.entries.valid.fits r hr
          exact ⟨h1, h2, fun h hh => by obtain rfl := Option.some.inj hh; rw [env.length_sha256]⟩
      · exact .mismatch _ hreq hfile hentry hchunks (hchunks ▸ hread) hhash
      · exact .abandon (.finalize hreq hfile hentry hchunks) hread

end Handlers

/-- **Every step is a change.** -/
theorem step_change (env : Env) (w : World) (e : Event) : Change env w e (step env w e) := by
  unfold step
  split
  case h_1 hreq => exact createFolder_change hreq
  case h_2 hreq => exact uploadFile_change hreq
  case h_3 => exact .chunks _
  case h_4 hreq => exact completeChunkedUpload_change hreq
  case h_5 hreq => exact renameItem_change hreq
  case h_6 hreq => exact moveItem_change hreq
  case h_7 hreq => exact deleteItem_change hreq
  case h_8 hreq => exact restoreFromTrash_change hreq
  case h_9 hreq => exact permanentDelete_change hreq
  case h_10 hreq => exact emptyTrash_change hreq
  case h_11 hreq => exact initTransfer_change hreq
  case h_12 hreq => exact writeChunk_change hreq
  case h_13 hreq => exact finalizeTransfer_change hreq
  case h_14 hreq => exact restoreVersion_change hreq
  case h_15 hreq => exact mkcol_change hreq
  case h_16 hreq => exact webdavPut_change hreq
  case h_17 hreq => exact webdavDelete_change hreq
  case h_18 hreq => exact webdavMove_change hreq
  case h_19 hreq => exact webdavCopy_change hreq
  case h_20 hreq => exact putObject_change hreq
  case h_21 hreq => exact deleteObject_change hreq
  case h_22 hreq => exact purgeTrash_change hreq

/-! ## What remains of it in the table -/

/-- The row is one that the request creates. -/
def Creates (env : Env) (w : World) (e : Event) (r : FileEntry) : Prop :=
  NewRow w e r ∨ ∃ cols data, NewFile env w e r cols data

/-- A rewriting of rows that moves none and trashes none. -/
structure KeepsPlace (f : FileEntry → FileEntry) : Prop where
  id : ∀ r, (f r).id = r.id
  userId : ∀ r, (f r).userId = r.userId
  parentId : ∀ r, (f r).parentId = r.parentId
  entryType : ∀ r, (f r).entryType = r.entryType
  isTrashed : ∀ r, (f r).isTrashed = r.isTrashed

inductive RowChange (env : Env) (w : World) (e : Event) : FileTable → Prop
  | same : RowChange env w e w.entries
  | insert {r t} (hr : Creates env w e r) (ht : w.entries.insert r = some t) : RowChange env w e t
  | rewrite {p f t} (hf : KeepsPlace f) (ht : w.entries.update p f = some t) : RowChange env w e t
  | move {item target t} (hreq : e.request = .moveItem item target)
      (hown : (w.owned e.call.user item).isSome)
      (htarget : ∀ x ∈ target, ∃ r, w.owned e.call.user x = some r ∧ r.entryType = .folder)
      (hne : target ≠ some item)
      (ht : w.entries.update (fun r => r.id = item)
        (fun r => { r with parentId := target, updatedAt := e.call.now }) = some t) :
      RowChange env w e t
  | trash {p t} (hp : Trashes w e p) (time : FileEntry → Option ℤ)
      (ht : w.entries.update p
        (fun r => { r with isTrashed := true, trashedAt := time r, updatedAt := e.call.now })
          = some t) :
      RowChange env w e t
  | restore {item ids t} (hreq : e.request = .restoreFromTrash item)
      (hown : (w.owned e.call.user item).isSome)
      (hids : w.entries.descendants e.call.user item = some ids)
      (ht : w.entries.update (fun r => r.id ∈ ids)
        (fun r => { r with isTrashed := false, trashedAt := none, updatedAt := e.call.now })
          = some t) :
      RowChange env w e t
  | delete {p q} (hp : Deletes w e p q) : RowChange env w e (w.entries.delete p)

theorem Relabels.keepsPlace {f : FileEntry → FileEntry} (hf : Relabels f) : KeepsPlace f := by
  refine ⟨fun r => ?_, fun r => ?_, fun r => ?_, fun r => ?_, fun r => ?_⟩ <;>
    obtain ⟨name, time, h⟩ := hf r <;> rw [h]

section Rows

variable {env : Env} {w w' : World} {e : Event} {r : FileEntry} {t : FileTable}

theorem Change.rows (h : Change env w e w') : RowChange env w e w'.entries := by
  cases h with
  | same => exact .same
  | chunks d => exact .same
  | insert hr ht => exact .insert (.inl hr) ht
  | store d hr ht => exact .insert (.inr ⟨_, _, hr⟩) ht
  | strand d hr hno => exact .same
  | abandon h hread => exact .same
  | overwrite hr ht => exact .rewrite (by constructor <;> exact fun _ => rfl) ht
  | overwriteOnly hr ht => exact .same
  | relabel d hreq hf ht => exact .rewrite hf.keepsPlace ht
  | move hreq hown htarget hne ht => exact .move hreq hown htarget hne ht
  | trash hp time ht => exact .trash hp time ht
  | restore hreq hown hids ht => exact .restore hreq hown hids ht
  | delete hp v hv => exact .delete hp
  | flatten hreq hfile hentry hchunks ht =>
    exact .rewrite (by constructor <;> exact fun _ => rfl) ht
  | finalize d hreq hfile hentry hchunks hread ht =>
    exact .rewrite (by constructor <;> exact fun _ => rfl) ht
  | mismatch d hreq hfile hentry hchunks hread hhash => exact .same
  | version hreq hown hv hvf ht =>
    exact .rewrite (by constructor <;> exact fun _ => rfl) ht

/-- No step changes the schema or the users. -/
theorem Change.columns (h : Change env w e w') : w'.columns = w.columns := by
  cases h <;> rfl

theorem Change.users (h : Change env w e w') : w'.users = w.users := by
  cases h <;> rfl

/-- No step adds a version. -/
theorem Change.versions (h : Change env w e w') (hw : w.versions = []) : w'.versions = [] := by
  cases h with
  | delete hp v hv => exact List.subset_nil.mp (hw ▸ hv)
  | _ => exact hw

/-- The requests that write content. -/
def Request.writesContent : Request → Bool
  | .uploadFile _ _ _ _ => true
  | .completeChunkedUpload _ => true
  | .finalizeTransfer _ _ => true
  | .webdavPut _ _ _ => true
  | .webdavCopy _ _ => true
  | .putObject _ _ _ => true
  | _ => false

/-- The others leave the files alone, or remove those of the rows they delete. -/
theorem Change.blobs (h : Change env w e w') (hreq : e.request.writesContent = false) :
    w'.blobs = w.blobs
      ∨ ∃ p q, Deletes w e p q ∧ w'.blobs = (w.dropBlobs (storagePaths w q)).blobs := by
  cases h with
  | store d hr => cases hr <;> simp [*, Request.writesContent] at hreq
  | strand d hr => cases hr <;> simp [*, Request.writesContent] at hreq
  | abandon ha => cases ha <;> simp [*, Request.writesContent] at hreq
  | overwrite hr => cases hr <;> simp [*, Request.writesContent] at hreq
  | overwriteOnly hr => cases hr <;> simp [*, Request.writesContent] at hreq
  | finalize d hreq' => rw [hreq'] at hreq; cases hreq
  | mismatch d hreq' => rw [hreq'] at hreq; cases hreq
  | delete hp v hv => exact .inr ⟨_, _, hp, rfl⟩
  | _ => exact .inl rfl

/-- A `PUT` overwrites a live entry of the user. -/
theorem Overwrites.spec {mime : Option String} {data : Bytes} (h : Overwrites env w e r mime data) :
    r ∈ w.entries.rows ∧ r.userId = e.call.user ∧ r.isTrashed = false := by
  cases h with
  | put hreq hr => exact resolvePath_target hr
  | object hreq hr =>
    obtain ⟨h1, h2, -, h3, -⟩ := mem_liveFiles.mp (mem_of_limitOne hr)
    exact ⟨h1, h2, h3⟩

/-- A new row is live, has the new id and belongs to the user. -/
theorem Creates.spec (h : Creates env w e r) :
    r.id = e.call.newId ∧ r.userId = e.call.user ∧ r.isTrashed = false := by
  rcases h with h | ⟨cols, data, h⟩ <;> cases h <;> exact ⟨rfl, rfl, rfl⟩

/-- The path of a new file is the one that it was written to. -/
theorem NewFile.spec {cols : List Column} {data : Bytes} (h : NewFile env w e r cols data) :
    r.storagePath = some (filePath e.call.user e.call.newId) ∧ r.entryType = .file := by
  cases h <;> exact ⟨rfl, rfl⟩

/-- The parent that a request names has passed `verify_ownership`, unless it opens a transfer. -/
def NamedParent (w : World) (e : Event) (parent : Option Uuid) : Prop :=
  parent = e.request.parent ∧ (e.request.isInit = false ∧ ParentOwned w e.call.user parent
    ∨ e.request.isInit = true ∧ transferColumns ⊆ w.columns)

/-- **The parent of a new row is the one that the request names, or a live folder of the user.** -/
theorem Creates.parent (h : Creates env w e r) :
    NamedParent w e r.parentId ∨ ∀ x ∈ r.parentId, LiveFolder w e.call.user x := by
  rcases h with h | ⟨cols, data, h⟩
  · cases h with
    | createFolder hreq hown =>
      exact .inl (by rw [NamedParent, hreq]; exact ⟨rfl, .inl ⟨rfl, hown⟩⟩)
    | mkcol hreq => exact .inr fun x hx => resolvePath_parent hx
    | copyFolder hreq => exact .inr fun x hx => resolvePath_parent hx
    | transfer hreq hquota hsize hcol =>
      exact .inl (by rw [NamedParent, hreq]; exact ⟨rfl, .inr ⟨rfl, hcol⟩⟩)
  · cases h with
    | upload hreq hown => exact .inl (by rw [NamedParent, hreq]; exact ⟨rfl, .inl ⟨rfl, hown⟩⟩)
    | assembled hreq hown => exact .inl (by rw [NamedParent, hreq]; exact ⟨rfl, .inl ⟨rfl, hown⟩⟩)
    | put hreq => exact .inr fun x hx => resolvePath_parent hx
    | object hreq => exact .inr fun x hx => by cases hx
    | copy hreq => exact .inr fun x hx => resolvePath_parent hx

/-- …and is not the row itself. -/
theorem Creates.parent_ne (h : Creates env w e r) (hfresh : Fresh w e) : r.parentId ≠ some r.id := by
  rw [h.spec.1]
  rcases h.parent with hp | hp
  · rw [hp.1]
    exact hfresh.2
  · intro heq
    obtain ⟨f, hf, hid, -⟩ := hp _ heq
    exact hfresh.1 f hf hid

end Rows

end Pcos
