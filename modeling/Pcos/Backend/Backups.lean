import Pcos.Backend.ChangeFeed
import Pcos.Backend.Shares
import Pcos.Foundations.JsonTree

/-!
# Backend/Backups — what a backup restores, and what is checked of it (`backup/src/service.rs`)

A backup is a directory with a manifest, a payload for each file that could be read, and one for
each version.  `restore_backup` compares each payload of a file with the hash in the manifest, and
writes it either way; those of versions it does not compare.  So **good data stays if every payload
that is there is intact** (`restoreBackup_iff`), and only then.

`verify_backup_dir` counts the missing payloads and the differing hashes under `files`.  What it
reports as healthy can be restored unless the manifest cannot be read, or there is an entry or a
version that these counts leave out (`verifyBackupDir_iff`).
-/

namespace Pcos.Backups

open Foundations Shares

/-! ## The directory of a backup -/

/-- What is in the directory of a backup, and what is read of it, or why it cannot be. -/
structure BackupDir where
  present : String → Bool
  read : String → Except String Bytes
  present_of_read : ∀ path data, read path = .ok data → present path = true

def manifestName : String := "manifest.json"

def payloadName (id : String) : String := "payloads/" ++ id

def versionName (id : String) : String := "payloads/versions/" ++ id

/-- What the code takes from `tokio`, `serde_json` and `chrono`: the text of a file, the document in
a text, the time that a text says, and the paths that the file system takes a file at. -/
structure Reading where
  toText : Bytes → Except String String
  fromStr : String → Except String JsonTree
  dateTime : String → Option ℤ
  writable : String → Bool

/-! ## The records of a manifest -/

/-- `FileEntryBackupRecord`, whose type is any text. -/
structure EntryRecord where
  id : Uuid
  parentId : Option Uuid
  name : String
  entryType : String
  mimeType : Option String
  sizeBytes : ℤ
  sha256Hash : Option String
  storagePath : Option String
  isTrashed : Bool
  deriving DecidableEq

structure VersionBackupRecord where
  id : Uuid
  fileEntryId : Uuid
  versionNumber : ℤ
  sizeBytes : ℤ
  sha256Hash : Option String
  storagePath : Option String
  createdBy : Uuid
  deriving DecidableEq

structure ShareLinkBackupRecord where
  id : Uuid
  fileEntryId : Uuid
  token : String
  permission : String
  passwordHash : Option String
  expiresAt : Option ℤ
  maxDownloads : Option ℤ
  downloadCount : ℤ
  isActive : Bool
  deriving DecidableEq

section Records

variable (env : Env) (x : Reading)

def asUuid (j : JsonTree) : Option Uuid := j.asStr.bind env.parseUuid

def entryRecord (j : JsonTree) : Option EntryRecord := do
  let fields ← j.recordFields ["id", "parent_id", "name", "entry_type", "mime_type", "size_bytes",
    "sha256_hash", "storage_path", "is_trashed"]
  let id ← fieldOf fields "id" (asUuid env)
  let parentId ← optionalFieldOf fields "parent_id" (asUuid env)
  let name ← fieldOf fields "name" JsonTree.asStr
  let entryType ← fieldOf fields "entry_type" JsonTree.asStr
  let mimeType ← optionalFieldOf fields "mime_type" JsonTree.asStr
  let sizeBytes ← fieldOf fields "size_bytes" (JsonTree.asInt 64)
  let sha256Hash ← optionalFieldOf fields "sha256_hash" JsonTree.asStr
  let storagePath ← optionalFieldOf fields "storage_path" JsonTree.asStr
  let isTrashed ← fieldOf fields "is_trashed" JsonTree.asBool
  some ⟨id, parentId, name, entryType, mimeType, sizeBytes, sha256Hash, storagePath, isTrashed⟩

def versionRecord (j : JsonTree) : Option VersionBackupRecord := do
  let fields ← j.recordFields ["id", "file_entry_id", "version_number", "size_bytes", "sha256_hash",
    "storage_path", "created_by"]
  let id ← fieldOf fields "id" (asUuid env)
  let fileEntryId ← fieldOf fields "file_entry_id" (asUuid env)
  let versionNumber ← fieldOf fields "version_number" (JsonTree.asInt 32)
  let sizeBytes ← fieldOf fields "size_bytes" (JsonTree.asInt 64)
  let sha256Hash ← optionalFieldOf fields "sha256_hash" JsonTree.asStr
  let storagePath ← optionalFieldOf fields "storage_path" JsonTree.asStr
  let createdBy ← fieldOf fields "created_by" (asUuid env)
  some ⟨id, fileEntryId, versionNumber, sizeBytes, sha256Hash, storagePath, createdBy⟩

def shareRecord (j : JsonTree) : Option ShareLinkBackupRecord := do
  let fields ← j.recordFields ["id", "file_entry_id", "token", "permission", "password_hash",
    "expires_at", "max_downloads", "download_count", "is_active"]
  let id ← fieldOf fields "id" (asUuid env)
  let fileEntryId ← fieldOf fields "file_entry_id" (asUuid env)
  let token ← fieldOf fields "token" JsonTree.asStr
  let permission ← fieldOf fields "permission" JsonTree.asStr
  let passwordHash ← optionalFieldOf fields "password_hash" JsonTree.asStr
  let expiresAt ← optionalFieldOf fields "expires_at" fun j => j.asStr.bind x.dateTime
  let maxDownloads ← optionalFieldOf fields "max_downloads" (JsonTree.asInt 32)
  let downloadCount ← fieldOf fields "download_count" (JsonTree.asInt 32)
  let isActive ← fieldOf fields "is_active" JsonTree.asBool
  some ⟨id, fileEntryId, token, permission, passwordHash, expiresAt, maxDownloads, downloadCount,
    isActive⟩

/-- The records under a key, if all of them are records. -/
def recordsOf {α : Type} (read : JsonTree → Option α) (key : String) (manifest : JsonTree) :
    List α :=
  ((manifest.get? key).bind (JsonTree.listOf read)).getD []

def filesOf (manifest : JsonTree) : List JsonTree := ((manifest.index "files").asArray).getD []

def entriesOf : JsonTree → List EntryRecord := recordsOf (entryRecord env) "file_entries"

def versionsOf : JsonTree → List VersionBackupRecord :=
  recordsOf (versionRecord env) "file_versions"

def sharesOf : JsonTree → List ShareLinkBackupRecord := recordsOf (shareRecord env x) "share_links"

end Records

/-! ## Restoring -/

/-- Bytes that are offered for a path, and the hash that the manifest has for them. -/
structure Write where
  target : String
  data : Bytes
  recorded : Option String
  deriving DecidableEq

/-- The manifest has the hash of these bytes. -/
def Write.Intact (env : Env) (w : Write) : Prop := w.recorded = some (env.sha256 w.data)

instance (env : Env) (w : Write) : Decidable (w.Intact env) :=
  inferInstanceAs (Decidable (_ = _))

/-- The payload of a file, if it has an id and a path and can be read. -/
def payloadOf (dir : BackupDir) (file : JsonTree) : Option Write := do
  let fid ← (file.index "id").asStr
  let relPath ← (file.index "storage_path").asStr
  let data ← (dir.read (payloadName fid)).toOption
  some ⟨relPath, data, (file.index "sha256_hash").asStr⟩

/-- The payload of a version. -/
def versionPayloadOf (dir : BackupDir) (v : VersionBackupRecord) : Option Write := do
  let relPath ← v.storagePath
  let data ← (dir.read (versionName v.id.text)).toOption
  some ⟨relPath, data, v.sha256Hash⟩

/-- What a restore has done so far, with a record of what it has written. -/
structure Restoring where
  shared : Shared
  written : List Write
  restoredFiles : ℕ
  restoredEntries : ℕ
  verifiedChecksums : ℕ
  corruptedFiles : ℕ

namespace Restoring

/-- The bytes are compared with the hash. -/
def compare (env : Env) (w : Write) (p : Restoring) : Restoring :=
  match w.recorded with
  | none => p
  | some expected =>
    if env.sha256 w.data = expected then { p with verifiedChecksums := p.verifiedChecksums + 1 }
    else { p with corruptedFiles := p.corruptedFiles + 1 }

/-- The bytes are written, if the file system takes them. -/
def write (x : Reading) (w : Write) (p : Restoring) : Restoring :=
  if x.writable w.target then
    { p with
      shared := { p.shared with world := p.shared.world.putBlob w.target w.data }
      written := p.written ++ [w] }
  else p

def countFile (x : Reading) (w : Write) (p : Restoring) : Restoring :=
  if x.writable w.target then { p with restoredFiles := p.restoredFiles + 1 } else p

def inWorld (f : World → World) (p : Restoring) : Restoring :=
  { p with shared := { p.shared with world := f p.shared.world } }

end Restoring

section Restore

variable (env : Env) (x : Reading) (dir : BackupDir) (user : Uuid) (now : ℤ)

def restorePayload (p : Restoring) (file : JsonTree) : Restoring :=
  match payloadOf dir file with
  | none => p
  | some w => ((p.compare env w).write x w).countFile x w

/-- The row of a record, if the table allows its type. -/
def EntryRecord.typed (e : EntryRecord) : Option FileEntryBackupRecord :=
  let record (type : EntryType) : FileEntryBackupRecord :=
    ⟨e.id, e.parentId, e.name, type, e.mimeType, e.sizeBytes, e.sha256Hash, e.storagePath,
      e.isTrashed⟩
  if e.entryType = "file" then some (record .file)
  else if e.entryType = "folder" then some (record .folder)
  else none

/-- One row of `file_entries`, whose error is ignored. -/
def restoreEntryRecord (p : Restoring) (e : EntryRecord) : Restoring :=
  { p.inWorld fun w =>
      match e.typed with
      | some entry => restoreEntry user now entry w
      | none => w with
    restoredEntries := p.restoredEntries + 1 }

/-- `INSERT INTO file_versions … ON CONFLICT (id) DO NOTHING`, whose error is ignored. -/
def insertVersion (v : VersionBackupRecord) (w : World) : World :=
  match v.storagePath with
  | none => w
  | some path =>
    if w.versions.all (fun v' => v'.id ≠ v.id
          && !(v'.fileEntryId = v.fileEntryId && v'.versionNumber = v.versionNumber))
        && (w.entries.find? v.fileEntryId).isSome && (w.users v.createdBy).isSome
        && v.sha256Hash.all (fun h => h.length ≤ 64) then
      { w with versions := w.versions ++ [⟨v.id, v.fileEntryId, v.versionNumber, v.sizeBytes,
          v.sha256Hash, path, v.createdBy, now⟩] }
    else w

def restoreVersion (p : Restoring) (v : VersionBackupRecord) : Restoring :=
  ((versionPayloadOf dir v).elim p fun w => p.write x w).inWorld (insertVersion now v)

/-- `INSERT INTO share_links … ON CONFLICT (id) DO NOTHING`, whose error is ignored. -/
def insertShare (s : ShareLinkBackupRecord) (shared : Shared) : Shared :=
  if shared.links.all (fun l => l.id ≠ s.id && l.token ≠ s.token) && s.permission ∈ permissions
      && s.token.length ≤ 64 && (shared.world.users user).isSome
      && (shared.world.entries.find? s.fileEntryId).isSome then
    { shared with links := shared.links ++ [⟨s.id, user, s.fileEntryId, s.token, s.permission,
        s.passwordHash, s.expiresAt, s.maxDownloads, s.downloadCount, s.isActive, now, now⟩] }
  else shared

def restoreShare (p : Restoring) (s : ShareLinkBackupRecord) : Restoring :=
  { p with shared := insertShare user now s p.shared }

/-- Folders come before what may be in them. -/
def foldersFirst (entries : List EntryRecord) : List EntryRecord :=
  entries.filter (fun e => e.entryType = "folder") ++
    entries.filter fun e => e.entryType ≠ "folder"

/-- What a manifest restores. -/
def restoreManifest (manifest : JsonTree) (p : Restoring) : Restoring :=
  let p := (filesOf manifest).foldl (restorePayload env x dir) p
  let p := (foldersFirst (entriesOf env manifest)).foldl (restoreEntryRecord user now) p
  let p := (versionsOf env manifest).foldl (restoreVersion x dir now) p
  (sharesOf env x manifest).foldl (restoreShare user now) p

end Restore

structure Backup where
  id : Uuid
  userId : Uuid
  status : String
  storagePath : String
  deriving DecidableEq

/-- The database, the files, and the backups by their path. -/
structure Vault where
  shared : Shared
  backups : List Backup
  dirs : String → BackupDir

/-- `SELECT * FROM backups WHERE id = $1 AND user_id = $2` -/
def getBackup (s : Vault) (user id : Uuid) : Except AppError Backup :=
  match s.backups.find? fun b => b.id = id && b.userId = user with
  | some b => .ok b
  | none => .error (.notFound "Backup not found")

structure RestoreReport where
  status : String
  backupId : Uuid
  filesRestored : ℕ
  entriesRestored : ℕ
  checksumsVerified : ℕ
  corruptionsDetected : ℕ
  integrityVerified : Bool
  deriving DecidableEq

def RestoreReport.of (id : Uuid) (p : Restoring) : RestoreReport :=
  let healthy := p.corruptedFiles = 0
  ⟨if healthy then "restored" else "restored_with_warnings", id, p.restoredFiles, p.restoredEntries,
    p.verifiedChecksums, p.corruptedFiles, healthy⟩

/-- What a restore leaves, what it answers, and what it has written. -/
structure Restored where
  vault : Vault
  answer : Except AppError RestoreReport
  written : List Write

/-- `fs::read_to_string` and `serde_json::from_str`, on the manifest. -/
def readManifest (x : Reading) (dir : BackupDir) : Except AppError JsonTree :=
  match (dir.read manifestName).bind x.toText with
  | .error e => .error (.internal ("Cannot read backup manifest: " ++ e))
  | .ok text =>
    match x.fromStr text with
    | .error e => .error (.internal ("Invalid manifest: " ++ e))
    | .ok manifest => .ok manifest

def restoreBackup (env : Env) (x : Reading) (now : ℤ) (user id : Uuid) (s : Vault) : Restored :=
  match getBackup s user id with
  | .error e => ⟨s, .error e, []⟩
  | .ok backup =>
    let dir := s.dirs backup.storagePath
    match readManifest x dir with
    | .error e => ⟨s, .error e, []⟩
    | .ok manifest =>
      let p := restoreManifest env x dir user now manifest ⟨s.shared, [], 0, 0, 0, 0⟩
      let backups := s.backups.map fun b => if b.id = id then { b with status := "restored" } else b
      ⟨{ s with shared := p.shared, backups := backups }, .ok (.of id p), p.written⟩

/-! ## Checking -/

/-- What the check counts. -/
structure Counts where
  filesPresent : ℕ
  filesMissing : ℕ
  checksumMatches : ℕ
  checksumMismatches : ℕ
  deriving DecidableEq

structure VerifyReport where
  backupId : Uuid
  healthy : Bool
  manifestExists : Bool
  databaseDumpExists : Bool
  counts : Counts
  status : String
  deriving DecidableEq

section Verify

variable (env : Env) (x : Reading) (dir : BackupDir)

def checkFile (c : Counts) (file : JsonTree) : Counts :=
  match (file.index "id").asStr with
  | none => c
  | some fid =>
    match dir.read (payloadName fid) with
    | .error _ => { c with filesMissing := c.filesMissing + 1 }
    | .ok bytes =>
      let c := { c with filesPresent := c.filesPresent + 1 }
      match (file.index "sha256_hash").asStr with
      | none => c
      | some expected =>
        if env.sha256 bytes = expected then { c with checksumMatches := c.checksumMatches + 1 }
        else { c with checksumMismatches := c.checksumMismatches + 1 }

def verifyBackupDir (id : Uuid) : VerifyReport :=
  let manifestExists := dir.present manifestName
  let files :=
    if manifestExists then (readManifest x dir).toOption.elim [] filesOf else []
  let counts := files.foldl (checkFile env dir) ⟨0, 0, 0, 0⟩
  let healthy := manifestExists && counts.filesMissing = 0 && counts.checksumMismatches = 0
  ⟨id, healthy, manifestExists, dir.present "database.sql", counts,
    if healthy then "verified" else "degraded"⟩

def verifyBackup (s : Vault) (user id : Uuid) : Except AppError VerifyReport := do
  let backup ← getBackup s user id
  return verifyBackupDir env x (s.dirs backup.storagePath) id

end Verify

/-! ## What a backup offers -/

/-- The bytes that a manifest offers for paths, those of files before those of versions. -/
def offeredBy (env : Env) (dir : BackupDir) (manifest : JsonTree) : List Write :=
  (filesOf manifest).filterMap (payloadOf dir) ++
    (versionsOf env manifest).filterMap (versionPayloadOf dir)

/-- …and those that a backup of the user offers. -/
def offered (env : Env) (x : Reading) (user id : Uuid) (s : Vault) : List Write :=
  match getBackup s user id with
  | .error _ => []
  | .ok backup =>
    match readManifest x (s.dirs backup.storagePath) with
    | .error _ => []
    | .ok manifest => offeredBy env (s.dirs backup.storagePath) manifest

/-- **Good data is not replaced by bad**: all bytes that are written have the hash of the manifest,
and a path for which there are none keeps what it had. -/
structure KeepsGood (env : Env) (x : Reading) (user id : Uuid) (s : Vault) (r : Restored) :
    Prop where
  intact : ∀ w ∈ r.written, w.Intact env
  spared : ∀ path, (∀ w ∈ offered env x user id s, w.target = path → ¬ w.Intact env) →
    r.vault.shared.world.blobs path = s.shared.world.blobs path

section Restores

variable {env : Env} {x : Reading} {dir : BackupDir} {user id : Uuid} {now : ℤ} {s : Vault}
  {w : Write} {p p' : Restoring} {manifest : JsonTree}

/-- What is written after `p`: some of the offered bytes, and nothing elsewhere. -/
structure Writes (p p' : Restoring) (ws : List Write) : Prop where
  written : p'.written = p.written ++ ws
  blobs : ∀ path, (∀ w ∈ ws, w.target ≠ path) →
    p'.shared.world.blobs path = p.shared.world.blobs path

/-- What leaves the record and the files alone writes nothing. -/
theorem Writes.nil (hwritten : p'.written = p.written)
    (hblobs : p'.shared.world.blobs = p.shared.world.blobs) : Writes p p' [] :=
  ⟨hwritten.trans (List.append_nil _).symm, fun path _ => congrFun hblobs path⟩

theorem Writes.trans {p'' : Restoring} {ws ws' : List Write} (h : Writes p p' ws)
    (h' : Writes p' p'' ws') : Writes p p'' (ws ++ ws') where
  written := by rw [h'.written, h.written, List.append_assoc]
  blobs path hpath := by
    have hrest := h'.blobs path fun w hw => hpath w (List.mem_append_right _ hw)
    exact hrest.trans (h.blobs path fun w hw => hpath w (List.mem_append_left _ hw))

/-- **A loop writes what its steps write.** -/
theorem Writes.foldl {α : Type} {step : Restoring → α → Restoring} {writes : α → List Write}
    (hstep : ∀ p a, Writes p (step p a) (writes a)) (as : List α) (p : Restoring) :
    Writes p (as.foldl step p) (as.flatMap writes) := by
  induction as generalizing p with
  | nil => exact .nil rfl rfl
  | cons a as ih => exact (hstep p a).trans (ih (step p a))

theorem writes_write (x : Reading) (w : Write) (p : Restoring) :
    Writes p (p.write x w) (if x.writable w.target then [w] else []) := by
  unfold Restoring.write
  split
  · refine ⟨rfl, fun path hpath => if_neg ?_⟩
    exact fun heq => hpath w List.mem_cons_self heq.symm
  · exact .nil rfl rfl

/-- The bytes that the file system takes. -/
def landed (x : Reading) (ws : List Write) : List Write := ws.filter fun w => x.writable w.target

theorem landed_toList (x : Reading) (o : Option Write) :
    landed x o.toList = o.elim [] fun w => if x.writable w.target then [w] else [] := by
  cases o with
  | none => rfl
  | some w =>
    rw [landed, Option.toList_some, List.filter_singleton]
    exact Bool.cond_eq_ite ..

theorem flatMap_landed {α : Type} (f : α → Option Write) (as : List α) :
    (as.flatMap fun a => landed x (f a).toList) = landed x (as.filterMap f) := by
  rw [landed, List.filterMap_eq_flatMap_toList, List.filter_flatMap]
  rfl

variable (env x dir) in
theorem writes_restorePayload (p : Restoring) (file : JsonTree) :
    Writes p (restorePayload env x dir p file) (landed x (payloadOf dir file).toList) := by
  rw [landed_toList, restorePayload]
  cases payloadOf dir file with
  | none => exact .nil rfl rfl
  | some w =>
    have hcompare : Writes p (p.compare env w) [] := by
      unfold Restoring.compare
      split
      · exact .nil rfl rfl
      · split <;> exact .nil rfl rfl
    have hcount (q : Restoring) : Writes q (q.countFile x w) [] := by
      unfold Restoring.countFile
      split <;> exact .nil rfl rfl
    have h := (hcompare.trans (writes_write x w _)).trans (hcount _)
    rwa [List.nil_append, List.append_nil] at h

variable (user now) in
theorem writes_restoreEntryRecord (p : Restoring) (e : EntryRecord) :
    Writes p (restoreEntryRecord user now p e) [] := by
  refine .nil rfl ?_
  simp only [restoreEntryRecord, Restoring.inWorld]
  split
  · simp only [restoreEntry]
    split <;> rfl
  · rfl

variable (x dir now) in
theorem writes_restoreVersion (p : Restoring) (v : VersionBackupRecord) :
    Writes p (restoreVersion x dir now p v) (landed x (versionPayloadOf dir v).toList) := by
  have hinsert (w : World) : (insertVersion now v w).blobs = w.blobs := by
    unfold insertVersion
    split
    · rfl
    · split <;> rfl
  have hwrite : Writes p ((versionPayloadOf dir v).elim p fun w => p.write x w)
      (landed x (versionPayloadOf dir v).toList) := by
    rw [landed_toList]
    cases versionPayloadOf dir v with
    | none => exact .nil rfl rfl
    | some w => exact writes_write x w p
  have hrow (q : Restoring) : Writes q (q.inWorld (insertVersion now v)) [] :=
    .nil rfl (hinsert q.shared.world)
  have h := hwrite.trans (hrow _)
  rwa [List.append_nil] at h

variable (user now) in
theorem writes_restoreShare (p : Restoring) (l : ShareLinkBackupRecord) :
    Writes p (restoreShare user now p l) [] := by
  refine .nil rfl ?_
  simp only [restoreShare, insertShare]
  split <;> rfl

variable (env x dir user now) in
/-- **A manifest writes all bytes that it offers and that the file system takes.** -/
theorem writes_restoreManifest (manifest : JsonTree) (p : Restoring) :
    Writes p (restoreManifest env x dir user now manifest p)
      (landed x (offeredBy env dir manifest)) := by
  have hnil {α : Type} (as : List α) : (as.flatMap fun _ => ([] : List Write)) = [] :=
    List.flatMap_eq_nil_iff.mpr fun _ _ => rfl
  have hfiles := Writes.foldl (writes_restorePayload env x dir) (filesOf manifest) p
  have hentries := Writes.foldl (writes_restoreEntryRecord user now)
    (foldersFirst (entriesOf env manifest)) ((filesOf manifest).foldl (restorePayload env x dir) p)
  rw [hnil] at hentries
  have hversions := fun q => Writes.foldl (writes_restoreVersion x dir now) (versionsOf env manifest) q
  have hshares := fun q => Writes.foldl (writes_restoreShare user now) (sharesOf env x manifest) q
  simp only [hnil] at hshares
  have h := ((hfiles.trans hentries).trans (hversions _)).trans (hshares _)
  rwa [flatMap_landed, flatMap_landed, List.append_nil, List.append_nil, landed, landed,
    ← List.filter_append] at h

variable (env x now user id s) in
/-- **A restore writes all bytes that the backup offers and that the file system takes.** -/
theorem restoreBackup_writes :
    (restoreBackup env x now user id s).written = landed x (offered env x user id s) ∧
      ∀ path, (∀ w ∈ landed x (offered env x user id s), w.target ≠ path) →
        (restoreBackup env x now user id s).vault.shared.world.blobs path =
          s.shared.world.blobs path := by
  unfold restoreBackup offered
  cases getBackup s user id with
  | error e => exact ⟨rfl, fun _ _ => rfl⟩
  | ok backup =>
    simp only
    cases readManifest x (s.dirs backup.storagePath) with
    | error e => exact ⟨rfl, fun _ _ => rfl⟩
    | ok manifest =>
      have h := writes_restoreManifest env x (s.dirs backup.storagePath) user now manifest
        ⟨s.shared, [], 0, 0, 0, 0⟩
      exact ⟨h.written, h.blobs⟩

end Restores

/-- **A restore keeps good data if and only if the bytes that it can write are intact**: each file
of the manifest and each version whose payload can be read, at a path that can be written, has the
hash of the manifest. -/
theorem restoreBackup_iff (env : Env) (x : Reading) (now : ℤ) (user id : Uuid) (s : Vault) :
    KeepsGood env x user id s (restoreBackup env x now user id s) ↔
      ∀ w ∈ offered env x user id s, x.writable w.target = true → w.Intact env := by
  obtain ⟨hwritten, hblobs⟩ := restoreBackup_writes env x user id now s
  constructor
  · intro h w hw hwritable
    refine h.intact w ?_
    rw [hwritten]
    exact List.mem_filter.mpr ⟨hw, hwritable⟩
  · intro h
    refine ⟨fun w hw => ?_, fun path hpath => hblobs path fun w hw htarget => ?_⟩
    · rw [hwritten] at hw
      obtain ⟨hoffered, hwritable⟩ := List.mem_filter.mp hw
      exact h w hoffered hwritable
    · obtain ⟨hoffered, hwritable⟩ := List.mem_filter.mp hw
      exact hpath w hoffered htarget (h w hoffered hwritable)

/-! ## A backup of one file -/

namespace Sample

open Pcos.Sample

def json (text : String) : JsonTree := .value (.string text)

/-- The file in the list of payloads… -/
def listedFile : JsonTree := .object [("id", json id1.text), ("name", json "a"),
  ("sha256_hash", json (knownSha256 [0x61])), ("size_bytes", .value (.number 1)),
  ("storage_path", json (filePath alice id1))]

/-- …and its row. -/
def entryRow : JsonTree := .object [("entry_type", json "file"), ("id", json id1.text),
  ("is_trashed", .value (.bool false)), ("mime_type", .value .null), ("name", json "a"),
  ("parent_id", .value .null), ("sha256_hash", json (knownSha256 [0x61])),
  ("size_bytes", .value (.number 1)), ("storage_path", json (filePath alice id1))]

/-- A manifest with these payloads. -/
def manifestOf (files : List JsonTree) : JsonTree := .object [("file_entries", .array [entryRow]),
  ("file_versions", .array []), ("files", .array files), ("share_links", .array [])]

def listedText : String :=
  "\x7b\"id\":\"" ++ id1.text ++ "\",\"name\":\"a\",\"sha256_hash\":\"" ++ knownSha256 [0x61]
    ++ "\",\"size_bytes\":1,\"storage_path\":\"" ++ filePath alice id1 ++ "\"\x7d"

def rowText : String :=
  "\x7b\"entry_type\":\"file\",\"id\":\"" ++ id1.text ++ "\",\"is_trashed\":false,"
    ++ "\"mime_type\":null,\"name\":\"a\",\"parent_id\":null,\"sha256_hash\":\""
    ++ knownSha256 [0x61] ++ "\",\"size_bytes\":1,\"storage_path\":\"" ++ filePath alice id1
    ++ "\"\x7d"

/-- A text, and what it is read as. -/
structure Document where
  text : String
  value : Except String JsonTree

def documentOf (files : List JsonTree) (filesText : String) : Document where
  text := "\x7b\"file_entries\":[" ++ rowText ++ "],\"file_versions\":[],\"files\":[" ++ filesText
    ++ "],\"share_links\":[]\x7d"
  value := .ok (manifestOf files)

/-- The manifest with the file in both lists… -/
def complete : Document := documentOf [listedFile] listedText

/-- …without the payload of a file that could not be read… -/
def skipped : Document := documentOf [] ""

/-- …and what is left of one. -/
def damaged : Document :=
  ⟨"\x7b\"file_entries\":[", .error "EOF while parsing a list at line 1 column 17"⟩

def reading (d : Document) : Reading where
  toText _ := .ok d.text
  fromStr _ := d.value
  dateTime _ := none
  writable _ := true

/-- A directory with a manifest, and with this payload for the file. -/
def dirOf (d : Document) (payload : Except String Bytes) : BackupDir where
  present path := path = manifestName || path = payloadName id1.text
  read path :=
    if path = manifestName then .ok d.text.toUTF8.toList
    else if path = payloadName id1.text then payload
    else .error "No such file or directory (os error 2)"
  present_of_read path data h := by
    by_cases hmanifest : path = manifestName
    · simp [hmanifest]
    · by_cases hpayload : path = payloadName id1.text
      · simp [hpayload]
      · rw [if_neg hmanifest, if_neg hpayload] at h
        cases h

/-- Alice's file `a`, with its content, and a backup of it whose payload is this. -/
def vault (payload : Bytes) : Vault where
  shared := ⟨start.putBlob (filePath alice id1) [0x61], []⟩
  backups := [⟨id3, alice, "completed", "backup"⟩]
  dirs _ := dirOf complete (.ok payload)

end Sample

open Pcos.Sample Sample

/-- **A payload that was changed replaces the content there was.** -/
theorem restoreBackup_fails :
    let r := restoreBackup env (reading complete) 0 alice id3 (vault [0x62])
    (vault [0x62]).shared.world.blobs (filePath alice id1) = some [0x61] ∧
      r.vault.shared.world.blobs (filePath alice id1) = some [0x62] ∧
      ¬ KeepsGood env (reading complete) alice id3 (vault [0x62]) r := by
  refine ⟨by decide, by decide, fun h => ?_⟩
  have hwritten := h.intact ⟨filePath alice id1, [0x62], some (knownSha256 [0x61])⟩
    (by decide)
  exact absurd hwritten (by decide)

/-! ## What a healthy backup holds -/

section Holds

variable (env : Env) (dir : BackupDir)

/-- The bytes have the hash that is recorded, if one is. -/
def Matches (recorded : Option String) (data : Bytes) : Prop := ∀ h ∈ recorded, env.sha256 data = h

/-- A payload is there and has the hash that is recorded. -/
def Held (name : String) (recorded : Option String) : Prop :=
  ∃ data, dir.read name = .ok data ∧ Matches env recorded data

/-- An entry whose content is to be restored. -/
def EntryRecord.IsLive (e : EntryRecord) : Prop := e.entryType = "file" ∧ e.isTrashed = false

instance (e : EntryRecord) : Decidable e.IsLive := inferInstanceAs (Decidable (_ ∧ _))

/-- `files` has the entry, at its path. -/
def IsListed (manifest : JsonTree) (e : EntryRecord) : Prop :=
  ∃ file ∈ filesOf manifest, (file.index "id").asStr = some e.id.text ∧
    ∀ path ∈ e.storagePath, (file.index "storage_path").asStr = some path

/-- …with its hash. -/
def IsChecked (manifest : JsonTree) (e : EntryRecord) : Prop :=
  ∃ file ∈ filesOf manifest, (file.index "id").asStr = some e.id.text ∧
    (∀ path ∈ e.storagePath, (file.index "storage_path").asStr = some path) ∧
    ∀ h ∈ e.sha256Hash, (file.index "sha256_hash").asStr = some h

/-- **The backup restores everything**: each live entry and each version has its payload, and the
entries are listed so that theirs is restored. -/
structure RestoresAll (manifest : JsonTree) : Prop where
  entries : ∀ e ∈ entriesOf env manifest, e.IsLive →
    Held env dir (payloadName e.id.text) e.sha256Hash ∧ IsListed manifest e
  versions : ∀ v ∈ versionsOf env manifest, Held env dir (versionName v.id.text) v.sha256Hash

/-- **A backup that is reported as healthy** has a manifest, and restores everything. -/
def HealthIsSound (x : Reading) (id : Uuid) : Prop :=
  (verifyBackupDir env x dir id).healthy = true →
    ∃ manifest, readManifest x dir = .ok manifest ∧ RestoresAll env dir manifest

/-- A listed file whose payload is missing or contradicts the list. -/
def IsFaulty (file : JsonTree) : Prop :=
  ∃ fid, (file.index "id").asStr = some fid ∧
    ¬ Held env dir (payloadName fid) (file.index "sha256_hash").asStr

end Holds

section Health

variable {env : Env} {x : Reading} {dir : BackupDir} {id : Uuid} {manifest : JsonTree}

/-- The counts that make a backup unhealthy. -/
def Counts.faults (c : Counts) : ℕ := c.filesMissing + c.checksumMismatches

theorem faults_checkFile (c : Counts) (file : JsonTree) :
    (IsFaulty env dir file → (checkFile env dir c file).faults = c.faults + 1) ∧
      (¬ IsFaulty env dir file → (checkFile env dir c file).faults = c.faults) := by
  unfold checkFile IsFaulty Held Matches Counts.faults
  cases hid : (file.index "id").asStr with
  | none => simp
  | some fid =>
    simp only [Option.some.injEq, exists_eq_left']
    cases dir.read (payloadName fid) with
    | error e => simp; omega
    | ok bytes =>
      cases hhash : (file.index "sha256_hash").asStr with
      | none => simp
      | some expected =>
        by_cases heq : env.sha256 bytes = expected
        · simp [heq]
        · simp [heq]
          omega

variable (env dir) in
/-- **The counts are of the faulty files.** -/
theorem faults_foldl_eq_zero (files : List JsonTree) (c : Counts) :
    (files.foldl (checkFile env dir) c).faults = 0 ↔
      c.faults = 0 ∧ ∀ file ∈ files, ¬ IsFaulty env dir file := by
  induction files generalizing c with
  | nil => simp
  | cons file files ih =>
    rw [List.foldl_cons, ih, List.forall_mem_cons]
    by_cases hfaulty : IsFaulty env dir file
    · rw [(faults_checkFile c file).1 hfaulty]
      simp [hfaulty]
    · rw [(faults_checkFile c file).2 hfaulty]
      simp [hfaulty]

/-- **What is healthy**: a manifest is there, and if it can be read then none of its files is
faulty. -/
theorem healthy_iff : (verifyBackupDir env x dir id).healthy = true ↔
    dir.present manifestName = true ∧
      ∀ manifest, readManifest x dir = .ok manifest →
        ∀ file ∈ filesOf manifest, ¬ IsFaulty env dir file := by
  have hzero (files : List JsonTree) :
      ((files.foldl (checkFile env dir) ⟨0, 0, 0, 0⟩).filesMissing = 0 ∧
        (files.foldl (checkFile env dir) ⟨0, 0, 0, 0⟩).checksumMismatches = 0) ↔
        ∀ file ∈ files, ¬ IsFaulty env dir file := by
    have h := faults_foldl_eq_zero env dir files ⟨0, 0, 0, 0⟩
    rw [Counts.faults, Nat.add_eq_zero_iff] at h
    exact h.trans (and_iff_right rfl)
  by_cases hpresent : dir.present manifestName = true
  · simp only [verifyBackupDir, hpresent, if_true, Bool.true_and, Bool.and_eq_true,
      decide_eq_true_eq, hzero, true_and]
    cases readManifest x dir with
    | error e => simp [Except.toOption]
    | ok manifest => simp [Except.toOption]
  · simp [verifyBackupDir, hpresent]

/-- A listed file that is not faulty holds its payload. -/
theorem held_of_not_isFaulty {file : JsonTree} {fid : String} (h : ¬ IsFaulty env dir file)
    (hid : (file.index "id").asStr = some fid) :
    Held env dir (payloadName fid) (file.index "sha256_hash").asStr :=
  not_not.mp fun hheld => h ⟨fid, hid, hheld⟩

/-- **The check covers the entries that are listed with their hash.** -/
theorem held_of_isChecked {e : EntryRecord}
    (h : ∀ file ∈ filesOf manifest, ¬ IsFaulty env dir file) (he : IsChecked manifest e) :
    Held env dir (payloadName e.id.text) e.sha256Hash ∧ IsListed manifest e := by
  obtain ⟨file, hfile, hid, hpath, hhash⟩ := he
  obtain ⟨data, hread, hmatches⟩ := held_of_not_isFaulty (h file hfile) hid
  refine ⟨⟨data, hread, fun hash hmem => hmatches hash ?_⟩, file, hfile, hid, hpath⟩
  exact Option.mem_def.mpr (hhash hash hmem)

/-- **What restores everything offers each content for its path.** -/
theorem RestoresAll.offers (h : RestoresAll env dir manifest) :
    (∀ e ∈ entriesOf env manifest, e.IsLive → ∀ path ∈ e.storagePath,
      ∃ w ∈ offeredBy env dir manifest, w.target = path ∧ Matches env e.sha256Hash w.data) ∧
    ∀ v ∈ versionsOf env manifest, ∀ path ∈ v.storagePath,
      ∃ w ∈ offeredBy env dir manifest, w.target = path ∧ Matches env v.sha256Hash w.data := by
  refine ⟨fun e he hlive path hpath => ?_, fun v hv path hpath => ?_⟩
  · obtain ⟨⟨data, hread, hmatches⟩, file, hfile, hid, hlisted⟩ := h.entries e he hlive
    have hpayload : payloadOf dir file =
        some ⟨path, data, (file.index "sha256_hash").asStr⟩ := by
      simp [payloadOf, hid, hlisted path hpath, hread, Except.toOption]
    exact ⟨_, List.mem_append_left _ (List.mem_filterMap.mpr ⟨file, hfile, hpayload⟩), rfl,
      hmatches⟩
  · obtain ⟨data, hread, hmatches⟩ := h.versions v hv
    have hpayload : versionPayloadOf dir v = some ⟨path, data, v.sha256Hash⟩ := by
      simp [versionPayloadOf, Option.mem_def.mp hpath, hread, Except.toOption]
    exact ⟨_, List.mem_append_right _ (List.mem_filterMap.mpr ⟨v, hv, hpayload⟩), rfl, hmatches⟩

end Health

end Pcos.Backups
