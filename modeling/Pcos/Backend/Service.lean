import Pcos.Backend.World

/-!
# Backend/Service — the file and folder handlers (`service.rs`, `storage.rs`, `handlers.rs`)

Folders and uploads are created under a parent that need only exist and belong to the user; moving
checks that the target is a folder.  Trashing, restoring and deleting for good go down the tree with
the recursive query.  The three handlers that check the quota are written in two halves, the checks
(`admit…`) and the writes that follow them, since other requests can come between the two.
-/

namespace Pcos

open Foundations

/-- What the API returns of an entry. -/
structure FileEntryResponse where
  id : Uuid
  parentId : Option Uuid
  name : String
  entryType : EntryType
  mimeType : Option String
  sizeBytes : ℤ
  sha256Hash : Option String
  isTrashed : Bool
  createdAt : ℤ
  updatedAt : ℤ
  deriving DecidableEq

def FileEntry.toResponse (f : FileEntry) : FileEntryResponse :=
  ⟨f.id, f.parentId, f.name, f.entryType, f.mimeType, f.sizeBytes, f.sha256Hash, f.isTrashed,
    f.createdAt, f.updatedAt⟩

/-! ## New rows -/

/-- The columns that a new folder is inserted with. -/
def folderColumns : List Column :=
  [.id, .userId, .parentId, .name, .entryType, .sizeBytes, .isTrashed, .createdAt, .updatedAt]

/-- …and a new file. -/
def fileColumns : List Column :=
  [.id, .userId, .parentId, .name, .entryType, .mimeType, .sizeBytes, .sha256Hash, .storagePath,
    .isTrashed, .createdAt, .updatedAt]

def newFolder (c : Call) (parent : Option Uuid) (name : String) : FileEntry where
  id := c.newId
  userId := c.user
  parentId := parent
  name := name
  entryType := .folder
  mimeType := none
  sizeBytes := 0
  sha256Hash := none
  storagePath := none
  isTrashed := false
  trashedAt := none
  createdAt := c.now
  updatedAt := c.now

def newFile (c : Call) (parent : Option Uuid) (name : String) (mime : Option String) (size : ℤ)
    (hash : Option String) (path : String) : FileEntry where
  id := c.newId
  userId := c.user
  parentId := parent
  name := name
  entryType := .file
  mimeType := mime
  sizeBytes := size
  sha256Hash := hash
  storagePath := some path
  isTrashed := false
  trashedAt := none
  createdAt := c.now
  updatedAt := c.now

/-! ## The storage engine -/

/-- Store file data and return the storage path and the hash. -/
def storeFile (env : Env) (user file : Uuid) (data : Bytes) : Handler (String × String) := do
  modify fun w => w.putBlob (filePath user file) data
  pure (filePath user file, env.sha256 data)

/-- Read the chunks of the given indexes, one after the other; at the first that is missing, what
has been read so far. -/
def readChunks (dir : Option (List (ℤ × Bytes))) : List ℤ → Bytes → Except Bytes Bytes
  | [], acc => .ok acc
  | i :: is, acc =>
    match dir.bind fun chunks => chunks.lookup i with
    | some data => readChunks dir is (acc ++ data)
    | none => .error acc

/-- `0..total_chunks`. -/
def chunkIndexes (total : ℤ) : List ℤ := (List.range total.toNat).map Int.ofNat

/-- Assemble all chunks into a file and remove their directory; storage path, hash and size.  When a
chunk is missing the temporary file stays. -/
def assembleChunks (env : Env) (c : Call) (upload file : Uuid) (total : ℤ) (failed : String) :
    Handler (String × String × ℤ) := do
  let w ← get
  match readChunks (w.chunkDirs c.user upload) (chunkIndexes total) [] with
  | .ok data =>
    set ((w.putBlob (filePath c.user file) data).dropChunks c.user upload)
    pure (filePath c.user file, env.sha256 data, (data.length : ℤ))
  | .error part =>
    set (w.putBlob (tmpAsmPath c.user file c.tmpId) part)
    throw (.error (.internal (failed ++ "No such file or directory (os error 2)")))

/-! ## Creating -/

/-- Verify the item exists and belongs to the user. -/
def verifyOwnership (user item : Uuid) : Handler FileEntry := do
  let w ← get
  okOr (w.owned user item) (.error (.notFound "Item not found"))

/-- …for a parent, if one is given. -/
def verifyParent (user : Uuid) : Option Uuid → Handler Unit
  | some parent => do
    let _ ← verifyOwnership user parent
    pure ()
  | none => pure ()

/-- The user has a live entry of that name under that parent, other than `except`. -/
def nameTaken (w : World) (user : Uuid) (parent : Option Uuid) (name : String)
    (except : Option Uuid) : Bool :=
  w.entries.rows.any fun r =>
    r.userId = user && r.parentId = parent && r.name = name && some r.id ≠ except && !r.isTrashed

def createFolder (c : Call) (parent : Option Uuid) (name : String) : Handler FileEntryResponse := do
  ensure (1 ≤ name.length && name.length ≤ 255)
    (.error (.validation "name: Folder name is required (max 255 chars)"))
  verifyParent c.user parent
  let w ← get
  ensure (!nameTaken w c.user parent name none)
    (.error (.conflict ("An item named '" ++ name ++ "' already exists here")))
  insertEntry .database folderColumns (newFolder c parent name)
  pure (newFolder c parent name).toResponse

/-- 64-bit arithmetic wraps around in a release build. -/
def wrapI64 (x : ℤ) : ℤ := Int.bmod x (2 ^ 64)

/-- The default of `check_storage_quota`: 10 GB. -/
def defaultQuota : ℤ := 10 * 1024 * 1024 * 1024

/-- `SUM(size_bytes)` over the live entries of the user. -/
def sumSizes (w : World) (user : Uuid) : ℤ :=
  ((w.entries.rows.filter fun r => r.userId = user && !r.isTrashed).map FileEntry.sizeBytes).sum

/-- The sum as a `BIGINT`; the error of one that does not fit is taken for 0. -/
def usedBytes (w : World) (user : Uuid) : ℤ :=
  if wrapI64 (sumSizes w user) = sumSizes w user then sumSizes w user else 0

/-- The quota of a user. -/
def quotaLimit (w : World) (user : Uuid) : ℤ := (w.users user).getD defaultQuota

/-- The check on the incoming bytes passes. -/
def withinQuota (w : World) (user : Uuid) (incoming : ℤ) : Bool :=
  wrapI64 (usedBytes w user + incoming) ≤ quotaLimit w user

def checkStorageQuota (user : Uuid) (incoming : ℤ) : Handler Unit := do
  let w ← get
  ensure (withinQuota w user incoming)
    (.error (.validation ("Storage quota exceeded: used " ++ toString (usedBytes w user)
      ++ " bytes + incoming " ++ toString incoming ++ " bytes exceeds quota of "
      ++ toString (quotaLimit w user) ++ " bytes")))

/-- The checks of `upload_file` and `complete_chunked_upload`: on the parent, then on the quota. -/
def admitUpload (c : Call) (parent : Option Uuid) (incoming : ℤ) : Handler Unit := do
  verifyParent c.user parent
  checkStorageQuota c.user incoming

/-- …and the writes of `upload_file`. -/
def storeUpload (env : Env) (c : Call) (parent : Option Uuid) (filename mime : String)
    (data : Bytes) : Handler FileEntryResponse := do
  let (path, hash) ← storeFile env c.user c.newId data
  let r := newFile c parent filename (some mime) data.length (some hash) path
  insertEntry .database fileColumns r
  pure r.toResponse

/-- Upload a file (single request, not chunked). -/
def uploadFile (env : Env) (c : Call) (parent : Option Uuid) (filename mime : String)
    (data : Bytes) : Handler FileEntryResponse := do
  admitUpload c parent data.length
  storeUpload env c parent filename mime data

/-- Store a chunk for chunked upload. -/
def storeChunk (c : Call) (upload : Uuid) (index : ℤ) (data : Bytes) : Handler Unit :=
  modify fun w => w.putChunk c.user upload index data

structure ChunkedUploadRequest where
  uploadId : Uuid
  filename : String
  parentId : Option Uuid
  totalSize : ℤ
  totalChunks : ℤ
  deriving DecidableEq

/-- The media type of a name, or the default. -/
def mimeOf (env : Env) (filename : String) : String :=
  (env.mimeGuess filename).getD "application/octet-stream"

/-- The writes of `complete_chunked_upload`. -/
def storeAssembled (env : Env) (c : Call) (req : ChunkedUploadRequest) :
    Handler FileEntryResponse := do
  let (path, hash, size) ← assembleChunks env c req.uploadId c.newId req.totalChunks
    "Chunk assembly failed: "
  let r := newFile c req.parentId req.filename (some (mimeOf env req.filename)) size (some hash) path
  insertEntry .database fileColumns r
  pure r.toResponse

/-- Complete a chunked upload by assembling chunks. -/
def completeChunkedUpload (env : Env) (c : Call) (req : ChunkedUploadRequest) :
    Handler FileEntryResponse := do
  admitUpload c req.parentId req.totalSize
  storeAssembled env c req

/-! ## Renaming and moving -/

/-- Rename a file or folder. -/
def renameItem (c : Call) (item : Uuid) (name : String) : Handler FileEntryResponse := do
  ensure (1 ≤ name.length && name.length ≤ 255) (.error (.validation "name: Name is required"))
  let entry ← verifyOwnership c.user item
  let w ← get
  ensure (!nameTaken w c.user entry.parentId name (some item))
    (.error (.conflict ("An item named '" ++ name ++ "' already exists")))
  updateEntries .database (fun r => r.id = item) fun r => { r with name := name, updatedAt := c.now }
  pure { entry with name := name, updatedAt := c.now }.toResponse

/-- Move a file or folder to another folder. -/
def moveItem (c : Call) (item : Uuid) (targetFolder : Option Uuid) : Handler FileEntryResponse := do
  let entry ← verifyOwnership c.user item
  match targetFolder with
  | some targetId =>
    let target ← verifyOwnership c.user targetId
    ensure (target.entryType = .folder) (.error (.validation "Target must be a folder"))
    ensure (item ≠ targetId) (.error (.validation "Cannot move a folder into itself"))
  | none => pure ()
  updateEntries .database (fun r => r.id = item)
    fun r => { r with parentId := targetFolder, updatedAt := c.now }
  pure { entry with parentId := targetFolder, updatedAt := c.now }.toResponse

/-! ## Trash -/

/-- The recursive query of the trash handlers. -/
def selectDescendants (user item : Uuid) : Handler (List Uuid) := do
  let w ← get
  okOr (w.entries.descendants user item) .hang

/-- Soft-delete (move to trash). -/
def deleteItem (c : Call) (item : Uuid) : Handler Unit := do
  let _ ← verifyOwnership c.user item
  let ids ← selectDescendants c.user item
  updateEntries .database (fun r => r.id ∈ ids)
    fun r => { r with isTrashed := true, trashedAt := some c.now, updatedAt := c.now }

/-- Restore an item from trash. -/
def restoreFromTrash (c : Call) (item : Uuid) : Handler FileEntryResponse := do
  let entry ← verifyOwnership c.user item
  ensure entry.isTrashed (.error (.validation "Item is not in trash"))
  let ids ← selectDescendants c.user item
  updateEntries .database (fun r => r.id ∈ ids)
    fun r => { r with isTrashed := false, trashedAt := none, updatedAt := c.now }
  pure { entry with isTrashed := false, trashedAt := none, updatedAt := c.now }.toResponse

/-- The storage paths of the rows that match. -/
def storagePaths (w : World) (p : FileEntry → Bool) : List String :=
  (w.entries.rows.filter p).filterMap FileEntry.storagePath

/-- Permanently delete an item from trash. -/
def permanentDelete (c : Call) (item : Uuid) : Handler Unit := do
  let entry ← verifyOwnership c.user item
  ensure entry.isTrashed (.error (.validation "Item must be in trash to permanently delete"))
  let ids ← selectDescendants c.user item
  modify fun w => w.dropBlobs (storagePaths w fun r => r.id ∈ ids)
  let ids ← selectDescendants c.user item
  let _ ← deleteEntries fun r => r.id ∈ ids

/-- Empty the entire trash; how many rows were in it. -/
def emptyTrash (c : Call) : Handler ℕ := do
  modify fun w => w.dropBlobs (storagePaths w fun r => r.userId = c.user && r.isTrashed)
  deleteEntries fun r => r.userId = c.user && r.isTrashed

/-- 30 days, in seconds. -/
def thirtyDays : ℤ := 30 * 24 * 3600

/-- The background task that deletes what has been in the trash for 30 days (`gateway/src/main.rs`). -/
def purgeTrash (now : ℤ) : Handler ℕ :=
  deleteEntries fun r => r.isTrashed && r.updatedAt < now - thirtyDays

/-! ## Listing a folder -/

structure BreadcrumbItem where
  id : Option Uuid
  name : String
  deriving DecidableEq

/-- The loop of `build_breadcrumb`; `none` when it has not ended within `fuel` turns. -/
def breadcrumbLoop (w : World) (user : Uuid) :
    ℕ → Option Uuid → List BreadcrumbItem → Option (List BreadcrumbItem)
  | 0, _, _ => none
  | fuel + 1, current, ancestors =>
    match current with
    | none => some ancestors
    | some cid =>
      match w.owned user cid with
      | some e => breadcrumbLoop w user fuel e.parentId (ancestors ++ [⟨some e.id, e.name⟩])
      | none => some ancestors

/-- Build breadcrumb path from root to the given folder, within `fuel` turns of the loop. -/
def buildBreadcrumb (w : World) (user : Uuid) (folder : Option Uuid) (fuel : ℕ) :
    Option (List BreadcrumbItem) :=
  (breadcrumbLoop w user fuel folder []).map fun ancestors => ⟨none, "Root"⟩ :: ancestors.reverse

end Pcos
