import Pcos.Backend.Service

/-!
# Backend/WebDav — the WebDAV and S3 gateways (`webdav.rs`, `s3_compat.rs`)

A WebDAV path is resolved folder by folder through the live entries of the user.  When a folder on
the way is missing, the walk stops, and a new file goes into the last folder that was found.  S3 keys
are flat: the last segment of the key is looked up among all live files of the user, and a new object
goes to the root.  Neither gateway checks the quota, and both trash one row at a time.
-/

namespace Pcos

open Foundations

/-! ## Paths -/

/-- `trim_matches('/')`. -/
def trimSlashes (cs : List Char) : List Char :=
  ((cs.dropWhile (· = '/')).reverse.dropWhile (· = '/')).reverse

/-- `rsplit('/').next()`: what comes after the last slash. -/
def lastSegment (cs : List Char) : String := String.ofList ((cs.splitOn '/').getLastD [])

/-- The segments of a WebDAV path. -/
def segments (rawPath : String) : List String :=
  (((trimSlashes rawPath.toList).splitOn '/').filter (· ≠ [])).map String.ofList

/-- The name a new entry gets. -/
def entryName (rawPath : String) : String := lastSegment (trimSlashes rawPath.toList)

/-- The live entry of that name under that parent; the unique key leaves at most one. -/
def liveChild (w : World) (user : Uuid) (parent : Option Uuid) (name : String) : Option FileEntry :=
  w.entries.rows.find? fun r => r.userId = user && r.name = name && !r.isTrashed && r.parentId = parent

/-- …and the live folder. -/
def liveFolder (w : World) (user : Uuid) (parent : Option Uuid) (name : String) :
    Option FileEntry :=
  w.entries.rows.find? fun r =>
    r.userId = user && r.name = name && r.entryType = .folder && !r.isTrashed && r.parentId = parent

def resolveSegments (w : World) (user : Uuid) :
    Option Uuid → List String → Option Uuid × Option FileEntry
  | parent, [] => (parent, none)
  | parent, [name] => (parent, liveChild w user parent name)
  | parent, name :: rest =>
    match liveFolder w user parent name with
    | some folder => resolveSegments w user (some folder.id) rest
    | none => (parent, none)

/-- Parent folder and target entry of a WebDAV path. -/
def resolvePath (w : World) (user : Uuid) (rawPath : String) : Option Uuid × Option FileEntry :=
  resolveSegments w user none (segments rawPath)

theorem mem_of_liveChild {w : World} {user : Uuid} {parent : Option Uuid} {name : String}
    {r : FileEntry} (h : liveChild w user parent name = some r) :
    r ∈ w.entries.rows ∧ r.userId = user ∧ r.isTrashed = false := by
  have hr := List.find?_some h
  simp only [Bool.and_eq_true, decide_eq_true_eq, Bool.not_eq_true'] at hr
  exact ⟨List.mem_of_find?_eq_some h, hr.1.1.1, hr.1.2⟩

theorem mem_of_liveFolder {w : World} {user : Uuid} {parent : Option Uuid} {name : String}
    {r : FileEntry} (h : liveFolder w user parent name = some r) :
    r ∈ w.entries.rows ∧ r.userId = user ∧ r.entryType = .folder ∧ r.isTrashed = false := by
  have hr := List.find?_some h
  simp only [Bool.and_eq_true, decide_eq_true_eq, Bool.not_eq_true'] at hr
  exact ⟨List.mem_of_find?_eq_some h, hr.1.1.1.1, hr.1.1.2, hr.1.2⟩

/-- The user has this live folder. -/
def LiveFolder (w : World) (user folder : Uuid) : Prop :=
  ∃ f ∈ w.entries.rows, f.id = folder ∧ f.userId = user ∧ f.entryType = .folder ∧ f.isTrashed = false

/-- **A path resolves to a live entry of the user, in a live folder of the user.** -/
theorem resolveSegments_spec {w : World} {user : Uuid} {parent : Option Uuid} {names : List String}
    (hparent : ∀ x ∈ parent, LiveFolder w user x) :
    (∀ x ∈ (resolveSegments w user parent names).1, LiveFolder w user x)
      ∧ ∀ r ∈ (resolveSegments w user parent names).2,
        r ∈ w.entries.rows ∧ r.userId = user ∧ r.isTrashed = false := by
  induction parent, names using resolveSegments.induct w user with
  | case1 parent => exact ⟨hparent, fun r hr => by cases hr⟩
  | case2 parent name => exact ⟨hparent, fun r hr => mem_of_liveChild hr⟩
  | case3 parent name rest hrest folder hfolder ih =>
    rw [resolveSegments, hfolder]
    · refine ih fun x hx => ?_
      obtain rfl := Option.some.inj hx
      obtain ⟨h1, h2, h3, h4⟩ := mem_of_liveFolder hfolder
      exact ⟨folder, h1, rfl, h2, h3, h4⟩
    · exact hrest
  | case4 parent name rest hrest hfolder =>
    rw [resolveSegments, hfolder]
    · exact ⟨hparent, fun r hr => by cases hr⟩
    · exact hrest

theorem resolvePath_parent {w : World} {user : Uuid} {path : String} {x : Uuid}
    (h : (resolvePath w user path).1 = some x) : LiveFolder w user x :=
  (resolveSegments_spec (fun _ h => by cases h)).1 x h

theorem resolvePath_target {w : World} {user : Uuid} {path : String} {r : FileEntry}
    (h : (resolvePath w user path).2 = some r) :
    r ∈ w.entries.rows ∧ r.userId = user ∧ r.isTrashed = false :=
  (resolveSegments_spec (fun _ h => by cases h)).2 r h

/-! ## WebDAV -/

/-- Status and `ETag` of a response. -/
structure DavResponse where
  status : ℕ
  etag : Option String
  deriving DecidableEq

def mkcol (c : Call) (rawPath : String) : Handler ℕ := do
  let w ← get
  match resolvePath w c.user rawPath with
  | (_, some _) => pure 405
  | (parent, none) =>
    insertEntry .internalSql folderColumns (newFolder c parent (entryName rawPath))
    pure 201

/-- The content of a file, as the gateways read it. -/
def contentOf (w : World) (r : FileEntry) : Option Bytes :=
  match r.entryType with
  | .file => r.storagePath.bind w.blobs
  | .folder => none

/-- Download file content over WebDAV; a folder is listed instead. -/
def webdavGet (w : World) (user : Uuid) (rawPath : String) : Option Bytes :=
  (resolvePath w user rawPath).2.bind (contentOf w)

/-- The limit on the body of a `PUT`. -/
def maxBody : ℕ := 10 * 1024 * 1024 * 1024

/-- The file that a `PUT` to an entry writes. -/
def FileEntry.target (r : FileEntry) : String := r.storagePath.getD (filePath r.userId r.id)

/-- The content type of a `PUT`: the header, or a guess from the name. -/
def putMime (env : Env) (contentType : Option String) (filename : String) : Option String :=
  contentType.or (env.mimeGuess filename)

/-- What a `PUT` sets in the row it overwrites. -/
def overwritten (env : Env) (c : Call) (path : String) (mime : Option String) (data : Bytes)
    (r : FileEntry) : FileEntry :=
  { r with sizeBytes := data.length, sha256Hash := some (env.sha256 data), storagePath := some path,
           mimeType := mime, updatedAt := c.now }

/-- Overwrite an existing file. -/
def overwriteEntry (env : Env) (c : Call) (existing : FileEntry) (mime : Option String)
    (data : Bytes) : Handler Unit := do
  modify fun w => w.putBlob existing.target data
  updateEntries .internalSql (fun r => r.id = existing.id && r.userId = c.user)
    (overwritten env c existing.target mime data)

/-- The row of a file created by a `PUT`. -/
def putRow (env : Env) (c : Call) (parent : Option Uuid) (filename : String) (mime : Option String)
    (data : Bytes) : FileEntry :=
  newFile c parent filename mime data.length (some (env.sha256 data)) (filePath c.user c.newId)

/-- Create new file. -/
def createEntry (env : Env) (c : Call) (parent : Option Uuid) (filename : String)
    (mime : Option String) (data : Bytes) : Handler Unit := do
  modify fun w => w.putBlob (filePath c.user c.newId) data
  insertEntry .internalSql fileColumns (putRow env c parent filename mime data)

def webdavPut (env : Env) (c : Call) (rawPath : String) (contentType : Option String)
    (data : Bytes) : Handler DavResponse := do
  let w ← get
  let (parent, existing) := resolvePath w c.user rawPath
  ensure (data.length ≤ maxBody)
    (.error (.validation "Upload body read failed: length limit exceeded"))
  let mime := putMime env contentType (entryName rawPath)
  match existing with
  | some r =>
    overwriteEntry env c r mime data
    pure ⟨204, some (env.sha256 data)⟩
  | none =>
    createEntry env c parent (entryName rawPath) mime data
    pure ⟨201, some (env.sha256 data)⟩

/-- Delete a file or folder (move to trash). -/
def webdavDelete (c : Call) (rawPath : String) : Handler ℕ := do
  let w ← get
  match (resolvePath w c.user rawPath).2 with
  | some target =>
    updateEntries .internalSql (fun r => r.id = target.id && r.userId = c.user)
      fun r => { r with isTrashed := true, updatedAt := c.now }
    pure 204
  | none => pure 404

/-- The name that a `Destination` header asks for. -/
def destinationName (destination : Option String) : Handler String :=
  okOr (destination.map fun d => lastSegment d.toList)
    (.error (.validation "Missing Destination header"))

/-- `MOVE` renames within the folder. -/
def webdavMove (c : Call) (rawPath : String) (destination : Option String) : Handler ℕ := do
  let name ← destinationName destination
  let w ← get
  match (resolvePath w c.user rawPath).2 with
  | some target =>
    updateEntries .internalSql (fun r => r.id = target.id && r.userId = c.user)
      fun r => { r with name := name, updatedAt := c.now }
    pure 201
  | none => pure 404

/-- The columns that a copied file is inserted with: no hash. -/
def copyColumns : List Column :=
  [.id, .userId, .parentId, .name, .entryType, .mimeType, .sizeBytes, .storagePath, .isTrashed,
    .createdAt, .updatedAt]

/-- The row of a copy. -/
def copyRow (c : Call) (parent : Option Uuid) (name : String) (source : FileEntry) : FileEntry :=
  newFile c parent name source.mimeType source.sizeBytes none (filePath c.user c.newId)

/-- Duplicate file entry and storage content. -/
def webdavCopy (c : Call) (rawPath : String) (destination : Option String) : Handler ℕ := do
  let name ← destinationName destination
  let w ← get
  match resolvePath w c.user rawPath with
  | (parent, some source) =>
    match source.entryType, source.storagePath with
    | .folder, _ => insertEntry .internalSql folderColumns (newFolder c parent name)
    | .file, some src =>
      let data ← okOr (w.blobs src) (.error (.internal "No such file or directory (os error 2)"))
      modify fun w => w.putBlob (filePath c.user c.newId) data
      insertEntry .internalSql copyColumns (copyRow c parent name source)
    | .file, none => pure ()
    pure 201
  | (_, none) => pure 404

/-! ## S3 -/

/-- `LIMIT 1`: one of the matching rows, whichever the scan comes to first. -/
def limitOne (scan : ℕ) (l : List FileEntry) : Option FileEntry := (l.drop scan).head?.or l.head?

/-- The live files of that name, anywhere in the tree. -/
def liveFiles (w : World) (user : Uuid) (name : String) : List FileEntry :=
  w.entries.rows.filter fun r =>
    r.userId = user && r.name = name && !r.isTrashed && r.entryType = .file

theorem mem_of_limitOne {scan : ℕ} {l : List FileEntry} {r : FileEntry}
    (h : limitOne scan l = some r) : r ∈ l := by
  rcases Option.or_eq_some_iff.mp h with h | ⟨-, h⟩
  · exact List.mem_of_mem_drop (List.mem_of_mem_head? h)
  · exact List.mem_of_mem_head? h

theorem mem_liveFiles {w : World} {user : Uuid} {name : String} {r : FileEntry} :
    r ∈ liveFiles w user name ↔ r ∈ w.entries.rows ∧ r.userId = user ∧ r.name = name
      ∧ r.isTrashed = false ∧ r.entryType = .file := by
  simp only [liveFiles, List.mem_filter, Bool.and_eq_true, decide_eq_true_eq, Bool.not_eq_true']
  tauto

def getObject (w : World) (c : Call) (key : String) : Option Bytes :=
  (limitOne c.scan (liveFiles w c.user (lastSegment key.toList))).bind (contentOf w)

def putObject (env : Env) (c : Call) (key : String) (contentType : Option String) (data : Bytes) :
    Handler DavResponse := do
  ensure (data.length ≤ maxBody)
    (.error (.validation "Upload body read failed: length limit exceeded"))
  let mime := putMime env contentType (entryName key)
  let w ← get
  match limitOne c.scan (liveFiles w c.user (entryName key)) with
  | some r => overwriteEntry env c r mime data
  | none => createEntry env c none (entryName key) mime data
  pure ⟨200, some (env.sha256 data)⟩

/-- The rows that `DeleteObject` trashes: every live entry of that name. -/
def objectRows (user : Uuid) (key : String) (r : FileEntry) : Bool :=
  r.userId = user && r.name = lastSegment key.toList && !r.isTrashed

def deleteObject (c : Call) (key : String) : Handler ℕ := do
  updateEntries .internalSql (objectRows c.user key)
    fun r => { r with isTrashed := true, updatedAt := c.now }
  pure 204

end Pcos
