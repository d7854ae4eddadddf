import Pcos.Edge.Files

/-!
# Edge/Shares — share links of the edge worker (`index.ts`)

A link is created with or without a password, a date of expiry and a limit, to be downloaded from or
to upload to.  Who has its token may download or upload without being signed in; what is checked is
up to each of the two handlers.
-/

namespace Pcos.Edge.Files

open Foundations Accounts

/-! ## Links -/

structure CreateShareBody where
  fileId : Option String
  isPublic : Option Bool
  isUploadRequest : Option Bool
  password : Option String
  expiresAt : Option String
  maxDownloads : Option ℤ

/-- The UUIDs of a new link, and the salt of its password. -/
structure ShareCall where
  now : ℤ
  shareId : Uuid
  shareToken : Uuid
  salt : String

/-- The hash of a password that is not blank, without the space around it. -/
def sharePasswordHash (p : Platform) (salt : String) (password : Option String) : Option String :=
  let trimmed := trim isSpace (password.getD "")
  if trimmed = "" then none else some (p.hashPassword salt trimmed)

/-- The row of a new link. -/
def newShare (p : Platform) (c : ShareCall) (user fileId : String) (body : CreateShareBody) : Share where
  id := "shr_" ++ c.shareId.text
  userId := user
  fileId := fileId
  shareToken := String.ofList ((c.shareToken.text.toList.filter (· ≠ '-')).take 16)
  isPublic := body.isPublic ≠ some false
  isUploadRequest := body.isUploadRequest = some true
  passwordHash := sharePasswordHash p c.salt body.password
  expiresAt := truthy body.expiresAt
  maxDownloads := body.maxDownloads
  downloadCount := 0
  createdAt := c.now

/-- `POST /api/v1/shares`; ids and tokens are unique. -/
def createShare (p : Platform) (c : ShareCall) (user : String) (body : CreateShareBody) :
    Handler Share := do
  let fileId ← okOr (truthy body.fileId) ⟨400, "file_id is required"⟩
  let s ← get
  ensure (s.files.any fun f => f.id = fileId && f.userId = user) ⟨404, "File not found or unauthorized"⟩
  let share := newShare p c user fileId body
  ensure (s.shares.all fun r => r.id ≠ share.id && r.shareToken ≠ share.shareToken) thrown
  set { s with shares := s.shares ++ [share] }
  pure share

/-- A date that does not parse is `NaN`, and before nothing. -/
def Share.expired (p : Platform) (now : ℤ) (share : Share) : Bool :=
  (truthy share.expiresAt).any fun text => (p.parseDate text).any (· < now)

/-- `share.max_downloads && share.download_count >= share.max_downloads` -/
def Share.exhausted (share : Share) : Bool :=
  share.maxDownloads.any fun m => m ≠ 0 && m ≤ share.downloadCount

/-- The password's hash, if there is one, verifies. -/
def Share.opens (p : Platform) (share : Share) (password : String) : Bool :=
  (truthy share.passwordHash).all (p.verifyPassword password)

def Store.share (s : Store) (token : String) : Option Share :=
  s.shares.find? fun r => r.shareToken = token

/-! ## Downloads -/

/-- A download or an upload by token; header and query may have a password. -/
structure ShareRequest where
  token : String
  header : Option String
  query : Option String
  range : Option String

/-- `header || query || ''` -/
def ShareRequest.password (r : ShareRequest) : String := (truthy r.header <|> truthy r.query).getD ""

inductive ShareReply
  | content (content : Content)
  | link (fileId name : String) (sizeBytes : ℕ)
  deriving DecidableEq

/-- The bytes of a reply. -/
def ShareReply.bytes : ShareReply → Option Bytes
  | .content c => some c.bytes
  | .link _ _ _ => none

/-- What is checked of the link before the file is looked up. -/
def checkShare (p : Platform) (now : ℤ) (r : ShareRequest) (found : Option Share) :
    Except Refusal Share :=
  match found with
  | none => .error ⟨404, "Share link not found or revoked"⟩
  | some share =>
    if share.expired p now then .error ⟨410, "Share link has expired"⟩
    else if share.exhausted then .error ⟨403, "Download limit exceeded for this share link"⟩
    else if !share.opens p r.password then
      .error ⟨401, "Password required to download this shared file"⟩
    else .ok share

/-- `UPDATE shares SET download_count = download_count + 1 WHERE id = ?1` -/
def Store.countDownload (s : Store) (id : String) : Store :=
  { s with
    shares := s.shares.map fun r =>
      if r.id = id then { r with downloadCount := r.downloadCount + 1 } else r }

/-- What is answered once the download is counted: the bytes of the row's blob, those of a node, or a
link to the download of the signed-in owner. -/
def Store.deliver (s : Store) (d : Deployment) (read : FsReadChunk) (share : Share) (f : FileEntry)
    (rangeHeader : Option String) : Except Refusal ShareReply :=
  match f.dataBlob with
  | some blob => .ok (.content (f.slice (f.range rangeHeader) blob))
  | none =>
    if f.storagePath ≠ "r2" ∨ ¬ d.cacheR2 then
      .ok (.link share.fileId (orElse f.name "shared_file") f.sizeBytes)
    else
      let node := f.storageNodeId.bind fun id => s.nodes.find? fun n => n.id = id
      match node.bind fun n => f.fromNode read n (f.range rangeHeader) with
      | some content => .ok (.content content)
      | none => .error ⟨404, "File content currently unavailable"⟩

def ofExcept {α : Type} (x : Except Refusal α) : Handler α :=
  match x with
  | .ok a => pure a
  | .error e => throw e

/-- `GET /s/:token/download` -/
def downloadShare (d : Deployment) (p : Platform) (read : FsReadChunk) (now : ℤ) (r : ShareRequest) :
    Handler ShareReply := do
  let s ← get
  let share ← ofExcept (checkShare p now r (s.share r.token))
  let file ← okOr (s.files.find? fun f => f.id = share.fileId) ⟨404, "Shared file not found"⟩
  modify fun s => s.countDownload share.id
  ofExcept (s.deliver d read share file r.range)

/-! ## Uploads -/

/-- `header || form || query || ''` -/
def ShareRequest.uploadPassword (r : ShareRequest) (form : UploadForm) : String :=
  (truthy r.header <|> truthy form.password <|> truthy r.query).getD ""

/-- `POST /s/:token/upload` -/
def uploadShare (p : Platform) (c : Call) (r : ShareRequest) (form : UploadForm) :
    Handler FileEntry := do
  let s ← get
  let share ← okOr (s.share r.token) ⟨404, "Share not found"⟩
  ensure share.isUploadRequest ⟨400, "This share link does not accept file uploads"⟩
  ensure (!share.expired p c.now) ⟨410, "Upload request link has expired"⟩
  ensure (share.opens p (r.uploadPassword form))
    ⟨401, "Password required to upload to this shared drop folder"⟩
  let file ← okOr form.file ⟨400, "No file provided"⟩
  let dataBlob := if file.bytes.length ≤ twoMiB then some file.bytes else none
  let row := newFile c share.userId (some share.fileId) (orElse file.name "uploaded_file") file.type
    file.bytes.length (dataBlob.elim "" p.sha256) "d1" dataBlob
  insertFile row
  pure row

end Pcos.Edge.Files
