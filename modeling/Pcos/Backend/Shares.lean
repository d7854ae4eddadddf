import Pcos.Backend.Auth

/-!
# Backend/Shares — share links (`sharing`)

A link has a permission, and may have a password, a date of expiry and a limit.  Who has its token
may download the file, or upload next to it, without being signed in.  A download goes through four
queries; `downloadShared` runs them in one go.
-/

namespace Pcos.Shares

open Foundations Auth

/-! ## Links -/

structure ShareLink where
  id : Uuid
  userId : Uuid
  fileEntryId : Uuid
  token : String
  permission : String
  passwordHash : Option String
  expiresAt : Option ℤ
  maxDownloads : Option ℤ
  downloadCount : ℤ
  isActive : Bool
  createdAt : ℤ
  updatedAt : ℤ
  deriving DecidableEq

/-- The table of links beside the other tables and the files. -/
structure Shared where
  world : World
  links : List ShareLink

inductive ShareError
  | notFound (message : String)
  | forbidden (message : String)
  | unauthorized (message : String)
  | validation (message : String)
  | internal (message : String)
  | database
  | panicked
  | upload (failure : Failure)
  deriving DecidableEq, Repr

abbrev Handler := EStateM ShareError Shared

/-- A handler of the files, run here. -/
def inWorld {α : Type} (h : Pcos.Handler α) : Handler α := fun s =>
  match h s.world with
  | .ok a w => .ok a { s with world := w }
  | .error e w => .error (.upload e) { s with world := w }

def ofExcept {α : Type} (x : Except ShareError α) : Handler α :=
  match x with
  | .ok a => pure a
  | .error e => throw e

structure CreateShareRequest where
  fileEntryId : Uuid
  permission : String
  password : Option String
  expiresInHours : Option ℤ
  maxDownloads : Option ℤ

/-- What a new link comes with: the time, its id, its token and the salt of its password. -/
structure ShareCall where
  now : ℤ
  id : Uuid
  token : String
  salt : String

/-- The permissions that the table's check allows. -/
def permissions : List String := ["view", "download", "upload"]

/-- The hash of the password, if there is one. -/
def hashSharePassword (x : Crates) (salt : String) :
    Option String → Except ShareError (Option String)
  | none => .ok none
  | some password =>
    match x.hashPassword salt password with
    | .ok hash => .ok (some hash)
    | .error e => .error (.internal e)

def createShare (x : Crates) (c : ShareCall) (user : Uuid) (req : CreateShareRequest) :
    Handler ShareLink := do
  let s ← get
  ensure (s.world.entries.rows.any fun f => f.id = req.fileEntryId && f.userId = user)
    (.notFound "File not found")
  let passwordHash ← ofExcept (hashSharePassword x c.salt req.password)
  let expiresAt := req.expiresInHours.map fun h => c.now + 3600 * h
  ensure (expiresAt.all isDateTime) .panicked
  let link : ShareLink := ⟨c.id, user, req.fileEntryId, c.token, req.permission, passwordHash,
    expiresAt, req.maxDownloads, 0, true, c.now, c.now⟩
  ensure (req.permission ∈ permissions && s.links.all fun l => l.id ≠ c.id && l.token ≠ c.token)
    .database
  set { s with links := s.links ++ [link] }
  pure link

structure UpdateShareRequest where
  permission : Option String
  password : Option String
  expiresInHours : Option ℤ
  maxDownloads : Option ℤ
  isActive : Option Bool

/-- The row of a link after a change. -/
def ShareLink.updated (l : ShareLink) (now : ℤ) (req : UpdateShareRequest)
    (passwordHash : Option String) : ShareLink :=
  { l with
    permission := req.permission.getD l.permission
    passwordHash := passwordHash <|> l.passwordHash
    expiresAt := (req.expiresInHours.map fun h => now + 3600 * h) <|> l.expiresAt
    maxDownloads := req.maxDownloads <|> l.maxDownloads
    isActive := req.isActive.getD l.isActive
    updatedAt := now }

def updateShare (x : Crates) (c : ShareCall) (user id : Uuid) (req : UpdateShareRequest) :
    Handler ShareLink := do
  let s ← get
  let share ← okOr (s.links.find? fun l => l.id = id && l.userId = user) (.notFound "Share not found")
  let passwordHash ← ofExcept (hashSharePassword x c.salt req.password)
  ensure ((req.expiresInHours.map fun h => c.now + 3600 * h).all isDateTime) .panicked
  let updated := share.updated c.now req passwordHash
  ensure (updated.permission ∈ permissions) .database
  set { s with links := s.links.map fun l : ShareLink => if l.id = id then updated else l }
  pure updated

/-! ## What is checked of a link -/

def ShareLink.expired (l : ShareLink) (now : ℤ) : Bool := l.expiresAt.any (· < now)

def ShareLink.exhausted (l : ShareLink) : Bool := l.maxDownloads.any (· ≤ l.downloadCount)

/-- A request to the public routes: the link's token, and the password in the query or header. -/
structure ShareRequest where
  token : String
  query : Option String
  header : Option String

/-- The query's password goes before the header's. -/
def ShareRequest.password (r : ShareRequest) : Option String := r.query <|> r.header

def checkPassword (x : Crates) (l : ShareLink) (password : Option String) : Except ShareError Unit :=
  match l.passwordHash, password with
  | none, _ => .ok ()
  | some _, none => .error (.unauthorized "Password required to download this shared file")
  | some hash, some pass =>
    match x.verifyPassword pass hash with
    | .error e => .error (.internal e)
    | .ok true => .ok ()
    | .ok false => .error (.unauthorized "Invalid share password")

/-- `SELECT * FROM share_links WHERE token = $1 AND is_active = true AND permission IN (…)`. -/
def Shared.active (s : Shared) (token : String) (granting : List String) : Option ShareLink :=
  s.links.find? fun l => l.token = token && l.isActive && l.permission ∈ granting

/-- What a download checks before it looks up the file. -/
def checkDownload (x : Crates) (now : ℤ) (r : ShareRequest) (s : Shared) :
    Except ShareError ShareLink :=
  match s.active r.token ["download"] with
  | none => .error (.notFound "Share not found or no download permission")
  | some share =>
    if share.expired now then .error (.forbidden "Share link expired")
    else if share.exhausted then .error (.forbidden "Download limit reached")
    else (checkPassword x share r.password).map fun _ => share

/-! ## Downloads -/

/-- The file and its path in storage. -/
def sharedFile (share : ShareLink) (s : Shared) : Except ShareError (FileEntry × String) :=
  match s.world.entries.find? share.fileEntryId with
  | none => .error .database
  | some file =>
    match file.storagePath with
    | none => .error (.internal "File has no storage path")
    | some path => .ok (file, path)

def readShared (path : String) (s : Shared) : Except ShareError Bytes :=
  match s.world.blobs path with
  | none => .error (.internal "Failed to read file")
  | some data => .ok data

/-- `UPDATE share_links SET download_count = download_count + 1 WHERE id = $1`. -/
def Shared.countDownload (s : Shared) (id : Uuid) : Shared :=
  { s with
    links := s.links.map fun l =>
      if l.id = id then { l with downloadCount := l.downloadCount + 1 } else l }

structure Download where
  contentType : String
  contentDisposition : String
  contentLength : ℕ
  data : Bytes
  deriving DecidableEq

def sharedContent (file : FileEntry) (data : Bytes) : Download where
  contentType := file.mimeType.getD "application/octet-stream"
  contentDisposition := "attachment; filename=\"" ++ file.name ++ "\""
  contentLength := data.length
  data := data

def downloadShared (x : Crates) (now : ℤ) (r : ShareRequest) : Handler Download := do
  let s ← get
  let share ← ofExcept (checkDownload x now r s)
  let (file, path) ← ofExcept (sharedFile share s)
  let data ← ofExcept (readShared path s)
  modify fun s => s.countDownload share.id
  pure (sharedContent file data)

/-! ## Uploads -/

/-- A field of a multipart body. -/
structure Field where
  name : Option String
  fileName : Option String
  contentType : Option String
  data : Bytes

/-- Where an upload goes: into the shared folder, or next to the shared file. -/
def destination (target : FileEntry) : Option Uuid :=
  if target.entryType = .folder then some target.id else target.parentId

def uploadShared (env : Env) (c : Call) (r : ShareRequest) (fields : List Field) :
    Handler FileEntryResponse := do
  let s ← get
  let share ← okOr (s.active r.token ["upload", "view_upload"])
    (.notFound "Share link not found or does not permit uploads")
  ensure (!share.expired c.now) (.forbidden "Share link expired")
  let target ← okOr (s.world.entries.find? share.fileEntryId)
    (.notFound "Shared destination folder not found")
  let field ← okOr (fields.find? fun f => f.name = some "file")
    (.validation "No file provided in upload")
  inWorld (uploadFile env { c with user := share.userId } (destination target)
    (field.fileName.getD "unnamed_upload") (field.contentType.getD "application/octet-stream")
    field.data)

end Pcos.Shares
