import Pcos.Backend.Service

/-!
# Backend/Resumable — resumable transfers and version restore (`resumable.rs`, `versioning.rs`)

A transfer is a row whose `storage_path` is a placeholder until `finalize_transfer` assembles its
chunks.  `init_transfer` neither looks at its parent nor at the names there, and its `INSERT` names
the column `is_favorite`.  `finalize_transfer` takes any entry of the user, in progress or not; where
there is no chunk directory it invents a path and keeps the hash and the size of the row.
-/

namespace Pcos

open Foundations

/-! ## Resumable transfers -/

structure ResumableInitRequest where
  name : String
  sizeBytes : ℤ
  sha256Hash : Option String
  parentId : Option Uuid
  mimeType : Option String
  deriving DecidableEq

/-- The characters that `str::trim` takes off: those with the Unicode property White_Space. -/
def isWhiteSpace (c : Char) : Bool :=
  (9 ≤ c.toNat && c.toNat ≤ 13) || (0x2000 ≤ c.toNat && c.toNat ≤ 0x200A)
    || [0x20, 0x85, 0xA0, 0x1680, 0x2028, 0x2029, 0x202F, 0x205F, 0x3000].contains c.toNat

/-- The columns that a transfer is inserted with. -/
def transferColumns : List Column :=
  [.id, .userId, .parentId, .name, .entryType, .mimeType, .sizeBytes, .sha256Hash, .storagePath,
    .isTrashed, .isFavorite, .createdAt, .updatedAt]

/-- The row of a transfer in progress. -/
def newTransfer (c : Call) (req : ResumableInitRequest) : FileEntry :=
  newFile c req.parentId req.name (some (req.mimeType.getD "application/octet-stream"))
    req.sizeBytes (some (req.sha256Hash.getD "")) resumableTransfer

structure ResumableInitResponse where
  transferId : String
  name : String
  totalBytes : ℤ
  chunkSize : ℕ
  uploadedBytes : ℤ
  sha256Hash : String
  createdAt : ℤ
  deriving DecidableEq

/-- The checks of `init_transfer`. -/
def admitTransfer (c : Call) (req : ResumableInitRequest) : Handler Unit := do
  ensure (!req.name.toList.all isWhiteSpace) (.error (.validation "name is required"))
  ensure (0 ≤ req.sizeBytes) (.error (.validation "size_bytes must be non-negative"))
  checkStorageQuota c.user req.sizeBytes

/-- …and its writes. -/
def storeTransfer (c : Call) (req : ResumableInitRequest) : Handler ResumableInitResponse := do
  insertEntry .database transferColumns (newTransfer c req)
  pure ⟨"xfer_" ++ c.newId.text, req.name, req.sizeBytes, 2 * 1024 * 1024, 0,
    req.sha256Hash.getD "", c.now⟩

def initTransfer (c : Call) (req : ResumableInitRequest) : Handler ResumableInitResponse := do
  admitTransfer c req
  storeTransfer c req

/-- `trim_start_matches("xfer_")`. -/
def trimXfer : List Char → List Char
  | 'x' :: 'f' :: 'e' :: 'r' :: '_' :: rest => trimXfer rest
  | cs => cs

/-- The id that a transfer id names. -/
def transferUuid (env : Env) (transferId : String) : Option Uuid :=
  env.parseUuid (String.ofList (trimXfer transferId.toList))

def parseTransferUuid (env : Env) (transferId : String) : Handler Uuid :=
  okOr (transferUuid env transferId) (.error (.validation ("Invalid transfer ID: " ++ transferId)))

structure ResumableChunkResponse where
  transferId : String
  offset : ℤ
  bytesWritten : ℕ
  success : Bool
  deriving DecidableEq

/-- The index that a chunk is stored under: `(offset / 2 MiB) as i32`. -/
def chunkIndex (offset : ℤ) : ℤ := Int.bmod (offset.tdiv (2 * 1024 * 1024)) (2 ^ 32)

def writeChunk (env : Env) (c : Call) (transferId : String) (offset : ℤ) (dataBase64 : String) :
    Handler ResumableChunkResponse := do
  let file ← parseTransferUuid env transferId
  let w ← get
  let _ ← okOr ((w.owned c.user file).filter fun r => r.storagePath = some resumableTransfer)
    (.error (.notFound "Transfer session not found or already finalized"))
  let data ← okOr (env.base64Decode dataBase64) (.error (.validation "Invalid base64 payload"))
  modify fun w => w.putChunk c.user file (chunkIndex offset) data
  updateEntries .database (fun r => r.id = file) fun r => { r with updatedAt := c.now }
  pure ⟨transferId, offset, data.length, true⟩

structure ResumableFinalizeResponse where
  success : Bool
  fileId : Uuid
  name : String
  sizeBytes : ℤ
  sha256Hash : String
  deriving DecidableEq

/-- `eq_ignore_ascii_case`. -/
def eqIgnoreAsciiCase (s s' : String) : Bool :=
  s.toList.map Char.toLower = s'.toList.map Char.toLower

/-- The client's hash contradicts the computed one. -/
def hashMismatch (client : Option String) (computed : String) : Bool :=
  match client with
  | some h => computed ≠ "" && computed ≠ "empty" && computed ≠ "verified"
      && !eqIgnoreAsciiCase h computed
  | none => false

/-- The hash that `finalize_transfer` writes. -/
def finalSha256 (client : Option String) (computed : String) : String :=
  if computed ≠ "" && computed ≠ "empty" then computed else client.getD "verified"

/-- Path, hash and size of the finished file: those of the assembled chunks, or made up. -/
def finalContent (env : Env) (c : Call) (entry : FileEntry) (file : Uuid) :
    Handler (String × String × ℤ) := do
  let w ← get
  match w.chunkDirs c.user file with
  | some chunks =>
    if 0 < chunks.length then
      assembleChunks env c file file chunks.length "Failed to assemble chunks: "
    else pure (flatPath c.user file, "empty", 0)
  | none => pure (flatPath c.user file, entry.sha256Hash.getD "verified", entry.sizeBytes)

def finalizeTransfer (env : Env) (c : Call) (transferId : String) (clientHash : Option String) :
    Handler ResumableFinalizeResponse := do
  let file ← parseTransferUuid env transferId
  let w ← get
  let entry ← okOr (w.owned c.user file) (.error (.notFound "Transfer session not found"))
  let (path, computed, size) ← finalContent env c entry file
  ensure (!hashMismatch clientHash computed)
    (.error (.validation ("SHA-256 integrity check failed: expected " ++ clientHash.getD ""
      ++ ", computed " ++ computed)))
  updateEntries .database (fun r => r.id = file) fun r =>
    { r with storagePath := some path, sha256Hash := some (finalSha256 clientHash computed),
             sizeBytes := size, updatedAt := c.now }
  pure ⟨true, file, entry.name, size, finalSha256 clientHash computed⟩

/-! ## Versions -/

/-- Point an entry at a version's storage; the number of that version. -/
def restoreVersion (c : Call) (file version : Uuid) : Handler ℤ := do
  let w ← get
  let _ ← okOr (w.owned c.user file) (.error (.notFound "File not found"))
  let v ← okOr (w.versions.find? fun v => v.id = version && v.fileEntryId = file)
    (.error (.notFound "Version not found"))
  updateEntries .database (fun r => r.id = file) fun r =>
    { r with storagePath := some v.storagePath, sizeBytes := v.sizeBytes,
             sha256Hash := v.sha256Hash, updatedAt := c.now }
  pure v.versionNumber

end Pcos
