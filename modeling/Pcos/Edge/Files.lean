import Pcos.Edge.Accounts

/-!
# Edge/Files — uploads and downloads of the edge worker (`index.ts`)

The bytes of a file are in one of four places: an R2 object under a key made of its user and id, a
blob in its row, a storage node that the presence hub reaches, or nowhere.  An upload chooses by the
deployment, the budget and the size; a download looks in the first three, in this order.
-/

namespace Pcos.Edge.Files

open Foundations Accounts

/-! ## What a deployment has -/

/-- Its bindings and settings: whether there is an R2 bucket, whether the budget is hard, and whether
`users` has the column `storage_quota_bytes`, which `schema.sql` does not create. -/
structure Deployment where
  cacheR2 : Bool
  hardBudget : Bool
  quotaColumn : Bool
  deriving DecidableEq

structure FileEntry where
  id : String
  userId : String
  parentId : Option String
  name : String
  mimeType : String
  sizeBytes : ℕ
  sha256Hash : String
  storagePath : String
  storageNodeId : Option String
  isTrashed : Bool
  dataBlob : Option Bytes
  createdAt : ℤ
  updatedAt : ℤ
  deriving DecidableEq

structure StorageNode where
  id : String
  userId : String
  deviceId : String
  storagePath : String
  deriving DecidableEq

/-- A share link, or a request for files. -/
structure Share where
  id : String
  userId : String
  fileId : String
  shareToken : String
  isPublic : Bool
  isUploadRequest : Bool
  passwordHash : Option String
  expiresAt : Option String
  maxDownloads : Option ℤ
  downloadCount : ℤ
  createdAt : ℤ
  deriving DecidableEq

/-- The two columns of a user's quota. -/
structure QuotaRow where
  storageQuotaBytes : Option ℕ
  quotaBytes : ℕ
  deriving DecidableEq

/-- D1 and R2. -/
structure Store where
  users : List (String × QuotaRow)
  files : List FileEntry
  nodes : List StorageNode
  shares : List Share
  objects : Dict String Bytes

abbrev Handler := EStateM Refusal Store

/-- What a request comes with: the time, a new id, and the day's share of R2 in use. -/
structure Call where
  now : ℤ
  fileId : String
  r2Pct : ℕ

/-! ## Uploads -/

/-- `2 * 1024 * 1024` -/
def twoMiB : ℕ := 2 * 1024 * 1024

structure UploadedFile where
  name : String
  type : String
  bytes : Bytes

structure UploadForm where
  file : Option UploadedFile
  parentId : Option String
  sha256Hash : Option String
  password : Option String

/-- `BudgetGuard.isCloudCachePermitted` -/
def isCloudCachePermitted (d : Deployment) (r2Pct : ℕ) : Bool := !d.hardBudget || r2Pct < 95

/-- `a || b` -/
def orElse (a b : String) : String := if a = "" then b else a

/-- `SELECT COALESCE(SUM(size_bytes), 0) … WHERE user_id = ?1 AND is_trashed = 0` -/
def Store.usedBytes (s : Store) (user : String) : ℕ :=
  ((s.files.filter fun f => f.userId = user && !f.isTrashed).map FileEntry.sizeBytes).sum

/-- The user's quota, if there is one. -/
def Store.quota (s : Store) (user : String) : Option ℕ :=
  ((s.users.lookup user).map fun row =>
    match row.storageQuotaBytes with
    | some (n + 1) => n + 1
    | _ => row.quotaBytes).filter (0 < ·)

/-- The query throws if the column is missing. -/
def checkQuota (d : Deployment) (user : String) (sizeBytes : ℕ) : Handler Unit := do
  ensure d.quotaColumn ⟨500, "File upload failed"⟩
  let s ← get
  ensure (!(s.quota user).any fun quota => quota < s.usedBytes user + sizeBytes)
    ⟨413, "Storage quota exceeded"⟩

/-- Whether the row can be inserted: its id is new, its user is there and so is its parent. -/
def Store.accepts (s : Store) (row : FileEntry) : Bool :=
  s.files.all (fun f => f.id ≠ row.id) && (s.users.lookup row.userId).isSome &&
    row.parentId.all fun parent => s.files.any fun f => f.id = parent

def Store.addFile (s : Store) (row : FileEntry) : Store := { s with files := s.files ++ [row] }

/-- `INSERT INTO file_entries` -/
def insertFile (row : FileEntry) : Handler Unit := do
  let s ← get
  ensure (s.accepts row) thrown
  set (s.addFile row)

/-- The key of a file's object. -/
def r2Key (userId fileId : String) : String := "cache/" ++ userId ++ "/" ++ fileId

/-- The row of an upload. -/
def newFile (c : Call) (userId : String) (parentId : Option String) (name type : String)
    (size : ℕ) (sha256Hash storagePath : String) (dataBlob : Option Bytes) : FileEntry where
  id := c.fileId
  userId := userId
  parentId := parentId
  name := name
  mimeType := orElse type "application/octet-stream"
  sizeBytes := size
  sha256Hash := sha256Hash
  storagePath := storagePath
  storageNodeId := none
  isTrashed := false
  dataBlob := dataBlob
  createdAt := c.now
  updatedAt := c.now

section Upload

variable (d : Deployment) (sha256 : Bytes → String) (c : Call)

/-- Whether an upload goes to R2. -/
def goesToR2 : Bool := d.cacheR2 && isCloudCachePermitted d c.r2Pct

/-- Where an upload of these bytes goes, and the blob of its row. -/
def storagePlace (bytes : Bytes) : String × Option Bytes :=
  if goesToR2 d c then ("r2", none)
  else if bytes.length ≤ twoMiB then ("d1", some bytes)
  else ("metadata_only", none)

/-- The client's hash, or that of the blob. -/
def uploadHash (clientHash : Option String) (dataBlob : Option Bytes) : String :=
  match truthy clientHash with
  | some hash => hash
  | none => dataBlob.elim "" sha256

/-- `POST /api/v1/files/upload` -/
def uploadFile (user : String) (form : UploadForm) : Handler FileEntry := do
  let file ← okOr form.file ⟨400, "No file provided"⟩
  checkQuota d user file.bytes.length
  modify fun s =>
    if goesToR2 d c then { s with objects := s.objects.set (r2Key user c.fileId) file.bytes } else s
  let place := storagePlace d c file.bytes
  let row := newFile c user (truthy form.parentId) (orElse file.name "unnamed_file") file.type
    file.bytes.length (uploadHash sha256 form.sha256Hash place.2) place.1 place.2
  insertFile row
  pure row

end Upload

/-! ## Downloads -/

/-- `parseInt(text, 10)`, of a text without a minus sign. -/
def parseInt (text : List Char) : Option ℕ :=
  let text := text.dropWhile isSpace
  let text := if text.head? = some '+' then text.tail else text
  let digits := text.takeWhile Char.isDigit
  if digits = [] then none else some (digits.foldl (fun n c => 10 * n + (c.toNat - '0'.toNat)) 0)

/-- The bytes that a `Range` header asks for, from start to end. -/
def parseHttpRange (rangeHeader : Option String) (totalSize : ℕ) : Option (ℕ × ℕ) := do
  let header ← rangeHeader
  if !"bytes=".toList.isPrefixOf header.toList then none
  else
    match ((trim isSpace (String.ofList (header.toList.drop 6))).toList.splitOn '-').map parseInt with
    | [none, none] => none
    | [none, some suffix] => if suffix = 0 ∨ totalSize = 0 then none else some (totalSize - suffix, totalSize - 1)
    | [some start, stop] =>
      let stop := stop.getD (totalSize - 1)
      if totalSize ≤ start ∨ stop < start then none else some (start, min stop (totalSize - 1))
    | _ => none

/-- An answer with bytes. -/
structure Content where
  status : ℕ
  bytes : Bytes
  contentType : String
  etag : String
  checksum : String
  deriving DecidableEq

/-- The answer of a storage node that was asked for `length` bytes from `offset`; `none` if it is not
reached, or has none. -/
abbrev FsReadChunk := StorageNode → String → ℕ → ℕ → Option Bytes

def FileEntry.content (f : FileEntry) (status : ℕ) (bytes : Bytes) : Content :=
  ⟨status, bytes, orElse f.mimeType "application/octet-stream", orElse f.sha256Hash f.id,
    f.sha256Hash⟩

/-- All of the bytes, or those of the range. -/
def FileEntry.slice (f : FileEntry) (range : Option (ℕ × ℕ)) (bytes : Bytes) : Content :=
  match range with
  | none => f.content 200 bytes
  | some (start, stop) => f.content 206 ((bytes.take (stop + 1)).drop start)

/-- The path on the node: that of the row, unless it only says where the bytes are. -/
def FileEntry.relPath (f : FileEntry) : String :=
  if f.storagePath ∈ ["", "metadata_only", "local", "d1", "r2"] then f.name else f.storagePath

/-- The most that is read from a node at once. -/
def nodeChunk : ℕ := 10485760

/-- What the node has of a file. -/
def FileEntry.fromNode (f : FileEntry) (read : FsReadChunk) (node : StorageNode)
    (range : Option (ℕ × ℕ)) : Option Content :=
  match range with
  | none =>
    let size := if f.sizeBytes = 0 then nodeChunk else f.sizeBytes
    (read node f.relPath 0 (min size nodeChunk)).map (f.content 200)
  | some (start, stop) =>
    (read node f.relPath start (min (stop - start + 1) nodeChunk)).map (f.content 206)

/-- The range, if the file has a size. -/
def FileEntry.range (f : FileEntry) (rangeHeader : Option String) : Option (ℕ × ℕ) :=
  if 0 < f.sizeBytes then parseHttpRange rangeHeader f.sizeBytes else none

/-- Where a download finds the bytes: in R2, in the row, or on a node of the user's. -/
def Store.find (s : Store) (d : Deployment) (read : FsReadChunk) (f : FileEntry)
    (range : Option (ℕ × ℕ)) : Option Content :=
  let object := if f.storagePath = "r2" ∧ d.cacheR2 then s.objects.get (r2Key f.userId f.id) else none
  let node := f.storageNodeId.bind fun id => s.nodes.find? fun n => n.id = id && n.userId = f.userId
  object.map (f.slice range)
    <|> f.dataBlob.map (f.slice range)
    <|> node.bind fun n => f.fromNode read n range

/-- `GET /api/v1/files/:id/download` -/
def downloadFile (d : Deployment) (read : FsReadChunk) (user fileId : String)
    (rangeHeader : Option String) : Handler Content := do
  let s ← get
  let entry ← okOr ((s.files.find? fun f => f.id = fileId).filter fun f => f.userId = user)
    ⟨404, "File not found or unauthorized"⟩
  let range := entry.range rangeHeader
  ensure (!((truthy rangeHeader).isSome && range.isNone && 0 < entry.sizeBytes))
    ⟨416, "Range not satisfiable"⟩
  okOr (s.find d read entry range)
    ⟨404, "File content resides on your connected local PCOS Storage Node."⟩

end Pcos.Edge.Files
