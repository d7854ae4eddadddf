import Pcos.Backend.Backups

/-!
# Backend/BackupRoundTrip — what is backed up is what is restored (`backup/src/service.rs`)

    rows, contents ──create_backup──▸ manifest, payloads ──restore_backup──▸ rows, contents

`create_backup` writes the rows of a user into a manifest, and beside it the content of each live file
and of each version; a content that cannot be read or written is left out.  A new backup is **reported
as healthy** (`verify_of_created`), and whatever has become of the files since, **each content that is
in it comes back** (`restore_of_created`).  Rows come back folders first, and otherwise in the order
that the database had listed them: **a tree that was lost comes back exactly if every folder was listed
after the one that it is in** (`tree_restored_iff`).
-/

namespace Pcos.Backups

open Foundations Shares

/-! ## Writing the records -/

def typeText : EntryType → String
  | .file => "file"
  | .folder => "folder"

def uuidJson (u : Uuid) : JsonTree := .str u.text

namespace EntryRecord

def of (r : FileEntry) : EntryRecord :=
  ⟨r.id, r.parentId, r.name, typeText r.entryType, r.mimeType, r.sizeBytes, r.sha256Hash,
    r.storagePath, r.isTrashed⟩

def toJson (e : EntryRecord) : JsonTree := .object [("entry_type", .str e.entryType),
  ("id", uuidJson e.id), ("is_trashed", .bool e.isTrashed), ("mime_type", .ofOption .str e.mimeType),
  ("name", .str e.name), ("parent_id", .ofOption uuidJson e.parentId),
  ("sha256_hash", .ofOption .str e.sha256Hash), ("size_bytes", .int e.sizeBytes),
  ("storage_path", .ofOption .str e.storagePath)]

end EntryRecord

namespace VersionBackupRecord

def of (v : FileVersion) : VersionBackupRecord :=
  ⟨v.id, v.fileEntryId, v.versionNumber, v.sizeBytes, v.sha256Hash, some v.storagePath, v.createdBy⟩

def toJson (v : VersionBackupRecord) : JsonTree := .object [("created_by", uuidJson v.createdBy),
  ("file_entry_id", uuidJson v.fileEntryId), ("id", uuidJson v.id),
  ("sha256_hash", .ofOption .str v.sha256Hash), ("size_bytes", .int v.sizeBytes),
  ("storage_path", .ofOption .str v.storagePath), ("version_number", .int v.versionNumber)]

end VersionBackupRecord

namespace ShareLinkBackupRecord

def of (l : ShareLink) : ShareLinkBackupRecord :=
  ⟨l.id, l.fileEntryId, l.token, l.permission, l.passwordHash, l.expiresAt, l.maxDownloads,
    l.downloadCount, l.isActive⟩

def toJson (showTime : ℤ → String) (l : ShareLinkBackupRecord) : JsonTree := .object [
  ("download_count", .int l.downloadCount),
  ("expires_at", .ofOption (fun t => .str (showTime t)) l.expiresAt),
  ("file_entry_id", uuidJson l.fileEntryId), ("id", uuidJson l.id), ("is_active", .bool l.isActive),
  ("max_downloads", .ofOption .int l.maxDownloads),
  ("password_hash", .ofOption .str l.passwordHash), ("permission", .str l.permission),
  ("token", .str l.token)]

end ShareLinkBackupRecord

structure Manifest where
  backupId : Uuid
  userId : Uuid
  name : String
  createdAt : String
  fileCount : ℤ
  filesCopied : ℤ
  totalSizeBytes : ℤ
  files : List JsonTree
  fileEntries : List EntryRecord
  fileVersions : List VersionBackupRecord
  shareLinks : List ShareLinkBackupRecord

def Manifest.toJson (showTime : ℤ → String) (m : Manifest) : JsonTree := .object [
  ("backup_id", uuidJson m.backupId), ("created_at", .str m.createdAt),
  ("file_count", .int m.fileCount), ("file_entries", .array (m.fileEntries.map (·.toJson))),
  ("file_versions", .array (m.fileVersions.map (·.toJson))), ("files", .array m.files),
  ("files_copied", .int m.filesCopied), ("name", .str m.name),
  ("share_links", .array (m.shareLinks.map (·.toJson showTime))),
  ("total_size_bytes", .int m.totalSizeBytes), ("user_id", uuidJson m.userId)]

/-! ## Creating -/

/-- With a file of this name. -/
def BackupDir.put (dir : BackupDir) (name : String) (data : Bytes) : BackupDir where
  present path := path = name || dir.present path
  read path := if path = name then .ok data else dir.read path
  present_of_read path data' h := by
    by_cases hname : path = name
    · simp [hname]
    · rw [if_neg hname] at h
      simp [dir.present_of_read path data' h]

/-- What the calls come to that `create_backup` makes: the errors of those that it reports, the files
that can be read, the writes that fail, with the bytes that were written by then, and the queries that
fail, whose error is ignored. -/
structure Course where
  dirError : Option String
  entriesError : Option String
  readable : String → Bool
  fails : String → Option ℕ
  counts : Bool
  sums : Bool
  listsVersions : Bool
  listsShares : Bool
  manifestError : String
  dump : Option Bytes
  inserted : Bool
  createdAt : String

/-- What the code takes from `serde_json` and `chrono`: the text of a document and of a time. -/
structure Writing where
  toStringPretty : JsonTree → String
  showTime : ℤ → String

/-- What the loop over the files has done. -/
structure Making where
  dir : BackupDir
  copied : ℕ
  files : List JsonTree

section Create

variable (env : Env) (c : Course) (w : World) (user : Uuid)

/-- `fs::read`, of a stored file. -/
def readBlob (path : String) : Option Bytes := if c.readable path then w.blobs path else none

/-- `fs::write`, into the directory. -/
def BackupDir.write (dir : BackupDir) (name : String) (data : Bytes) : BackupDir :=
  dir.put name ((c.fails name).elim data data.take)

/-- The path and the content of a live file. -/
def source (e : EntryRecord) : Option (String × Bytes) :=
  if e.entryType = "file" && !e.isTrashed then
    e.storagePath.bind fun rel => (readBlob c w rel).map fun data => (rel, data)
  else none

/-- A file in the list of payloads. -/
def listed (e : EntryRecord) (rel : String) (data : Bytes) : JsonTree := .object [
  ("id", uuidJson e.id), ("name", .str e.name), ("sha256_hash", .str (env.sha256 data)),
  ("size_bytes", .int data.length), ("storage_path", .str rel)]

def copyPayload (m : Making) (e : EntryRecord) : Making :=
  match source c w e with
  | none => m
  | some (rel, data) =>
    let dir := m.dir.write c (payloadName e.id.text) data
    if (c.fails (payloadName e.id.text)).isNone then
      ⟨dir, m.copied + 1, m.files ++ [listed env e rel data]⟩
    else { m with dir := dir }

def copyVersion (dir : BackupDir) (v : VersionBackupRecord) : BackupDir :=
  match v.storagePath.bind (readBlob c w) with
  | none => dir
  | some data => dir.write c (versionName v.id.text) data

def entriesFor : List EntryRecord := (rowsOf w user).map .of

def versionsFor : List VersionBackupRecord :=
  if c.listsVersions then
    (w.versions.filter fun v => (rowsOf w user).any fun r => r.id = v.fileEntryId).map .of
  else []

def sharesFor (links : List ShareLink) : List ShareLinkBackupRecord :=
  if c.listsShares then (links.filter fun l => l.userId = user).map .of else []

/-- The payloads, and the list of those of files. -/
def makePayloads (dir : BackupDir) : Making :=
  let m := (entriesFor w user).foldl (copyPayload env c w) ⟨dir, 0, []⟩
  { m with dir := (versionsFor c w user).foldl (copyVersion c w) m.dir }

def manifestFor (id : Uuid) (name : String) (links : List ShareLink) (m : Making) : Manifest :=
  let live := (rowsOf w user).filter fun r => r.entryType = .file && !r.isTrashed
  { backupId := id
    userId := user
    name := name
    createdAt := c.createdAt
    fileCount := if c.counts then live.length else 0
    filesCopied := m.copied
    totalSizeBytes := if c.sums then (live.map (·.sizeBytes)).sum else 0
    files := m.files
    fileEntries := entriesFor w user
    fileVersions := versionsFor c w user
    shareLinks := sharesFor c user links }

def storagePathOf (id : Uuid) : String := "backups/" ++ user.text ++ "/" ++ id.text

/-- Create a backup of payload files, version files and rows. -/
def createBackup (y : Writing) (id : Uuid) (name : String) (s : Vault) :
    Vault × Except AppError Backup :=
  let path := storagePathOf user id
  let w := s.shared.world
  let keep (dir : BackupDir) : Vault :=
    { s with dirs := fun p => if p = path then dir else s.dirs p }
  match c.dirError, c.entriesError with
  | some e, _ => (s, .error (.internal ("Failed to create backup directory: " ++ e)))
  | none, some e => (s, .error (.internal e))
  | none, none =>
    let m := makePayloads env c w user (s.dirs path)
    let manifest := manifestFor c w user id name s.shared.links m
    let text := y.toStringPretty (manifest.toJson y.showTime)
    let dir := m.dir.write c manifestName text.toUTF8.toList
    if (c.fails manifestName).isSome then
      (keep dir, .error (.internal ("Failed to write manifest: " ++ c.manifestError)))
    else
      let dir := c.dump.elim dir (dir.put "database.sql")
      let backup : Backup := ⟨id, user, "completed", path⟩
      if c.inserted then ({ keep dir with backups := s.backups ++ [backup] }, .ok backup)
      else (keep dir, .error (.database .constraintViolation))

end Create

/-! ## Reading the records -/

/-- What the code relies on: a UUID is parsed from its text, and the manifest is read back from the
bytes that it is written as. -/
structure Faithful (env : Env) (x : Reading) (y : Writing) (m : Manifest) : Prop where
  uuid : ∀ u : Uuid, env.parseUuid u.text = some u
  text : x.toText (y.toStringPretty (m.toJson y.showTime)).toUTF8.toList =
    .ok (y.toStringPretty (m.toJson y.showTime))
  document : x.fromStr (y.toStringPretty (m.toJson y.showTime)) = .ok (m.toJson y.showTime)
  times : ∀ l ∈ m.shareLinks, ∀ t ∈ l.expiresAt, x.dateTime (y.showTime t) = some t

/-- The numbers are those of their columns, of 64 and of 32 bits. -/
structure Manifest.Fits (m : Manifest) : Prop where
  entries : ∀ e ∈ m.fileEntries, -2 ^ 63 ≤ e.sizeBytes ∧ e.sizeBytes < 2 ^ 63
  versions : ∀ v ∈ m.fileVersions, (-2 ^ 31 ≤ v.versionNumber ∧ v.versionNumber < 2 ^ 31) ∧
    -2 ^ 63 ≤ v.sizeBytes ∧ v.sizeBytes < 2 ^ 63
  shares : ∀ l ∈ m.shareLinks, (∀ n ∈ l.maxDownloads, -2 ^ 31 ≤ n ∧ n < 2 ^ 31) ∧
    -2 ^ 31 ≤ l.downloadCount ∧ l.downloadCount < 2 ^ 31

section Records

variable {env : Env} {x : Reading} {y : Writing} {m : Manifest}

theorem asUuid_uuidJson (h : ∀ u : Uuid, env.parseUuid u.text = some u) (u : Uuid) :
    asUuid env (uuidJson u) = some u := h u

theorem str_ne_null (text : String) : JsonTree.str text ≠ .value .null := nofun

theorem int_ne_null (n : ℤ) : JsonTree.int n ≠ .value .null := nofun

theorem entryRecord_toJson (h : ∀ u : Uuid, env.parseUuid u.text = some u) (e : EntryRecord)
    (hsize : -2 ^ 63 ≤ e.sizeBytes ∧ e.sizeBytes < 2 ^ 63) :
    entryRecord env e.toJson = some e := by
  rw [entryRecord, EntryRecord.toJson, JsonTree.recordFields, Option.bind_eq_bind, Option.bind_some]
  rw [fieldOf_eq_some rfl (asUuid_uuidJson h e.id),
    optionalFieldOf_ofOption rfl (fun u => str_ne_null _) fun u _ => asUuid_uuidJson h u,
    fieldOf_eq_some rfl (JsonTree.asStr_str e.name),
    fieldOf_eq_some rfl (JsonTree.asStr_str e.entryType),
    optionalFieldOf_ofOption rfl str_ne_null fun t _ => JsonTree.asStr_str t,
    fieldOf_eq_some rfl (JsonTree.asInt_int hsize),
    optionalFieldOf_ofOption rfl str_ne_null fun t _ => JsonTree.asStr_str t,
    optionalFieldOf_ofOption rfl str_ne_null fun t _ => JsonTree.asStr_str t,
    fieldOf_eq_some rfl (JsonTree.asBool_bool e.isTrashed)]
  rfl

theorem versionRecord_toJson (h : ∀ u : Uuid, env.parseUuid u.text = some u)
    (v : VersionBackupRecord) (hnumber : -2 ^ 31 ≤ v.versionNumber ∧ v.versionNumber < 2 ^ 31)
    (hsize : -2 ^ 63 ≤ v.sizeBytes ∧ v.sizeBytes < 2 ^ 63) :
    versionRecord env v.toJson = some v := by
  rw [versionRecord, VersionBackupRecord.toJson, JsonTree.recordFields, Option.bind_eq_bind,
    Option.bind_some]
  rw [fieldOf_eq_some rfl (asUuid_uuidJson h v.id),
    fieldOf_eq_some rfl (asUuid_uuidJson h v.fileEntryId),
    fieldOf_eq_some rfl (JsonTree.asInt_int hnumber), fieldOf_eq_some rfl (JsonTree.asInt_int hsize),
    optionalFieldOf_ofOption rfl str_ne_null fun t _ => JsonTree.asStr_str t,
    optionalFieldOf_ofOption rfl str_ne_null fun t _ => JsonTree.asStr_str t,
    fieldOf_eq_some rfl (asUuid_uuidJson h v.createdBy)]
  rfl

theorem shareRecord_toJson (h : ∀ u : Uuid, env.parseUuid u.text = some u)
    (l : ShareLinkBackupRecord) (htime : ∀ t ∈ l.expiresAt, x.dateTime (y.showTime t) = some t)
    (hmax : ∀ n ∈ l.maxDownloads, -2 ^ 31 ≤ n ∧ n < 2 ^ 31)
    (hcount : -2 ^ 31 ≤ l.downloadCount ∧ l.downloadCount < 2 ^ 31) :
    shareRecord env x (l.toJson y.showTime) = some l := by
  rw [shareRecord, ShareLinkBackupRecord.toJson, JsonTree.recordFields, Option.bind_eq_bind,
    Option.bind_some]
  rw [fieldOf_eq_some rfl (asUuid_uuidJson h l.id),
    fieldOf_eq_some rfl (asUuid_uuidJson h l.fileEntryId),
    fieldOf_eq_some rfl (JsonTree.asStr_str l.token),
    fieldOf_eq_some rfl (JsonTree.asStr_str l.permission),
    optionalFieldOf_ofOption rfl str_ne_null fun t _ => JsonTree.asStr_str t,
    optionalFieldOf_ofOption rfl (fun t => str_ne_null _) fun t ht => htime t ht,
    optionalFieldOf_ofOption rfl int_ne_null fun n hn => JsonTree.asInt_int (hmax n hn),
    fieldOf_eq_some rfl (JsonTree.asInt_int hcount),
    fieldOf_eq_some rfl (JsonTree.asBool_bool l.isActive)]
  rfl

/-- **A manifest is read as the records that were written.** -/
theorem records_toJson (hfaithful : Faithful env x y m) (hfits : m.Fits) :
    entriesOf env (m.toJson y.showTime) = m.fileEntries ∧
      versionsOf env (m.toJson y.showTime) = m.fileVersions ∧
      sharesOf env x (m.toJson y.showTime) = m.shareLinks := by
  have hentries : (JsonTree.array (m.fileEntries.map (·.toJson))).listOf (entryRecord env) =
      some m.fileEntries :=
    JsonTree.listOf_array_map fun e he => entryRecord_toJson hfaithful.uuid e (hfits.entries e he)
  have hversions : (JsonTree.array (m.fileVersions.map (·.toJson))).listOf (versionRecord env) =
      some m.fileVersions :=
    JsonTree.listOf_array_map fun v hv =>
      versionRecord_toJson hfaithful.uuid v (hfits.versions v hv).1 (hfits.versions v hv).2
  have hshares : (JsonTree.array (m.shareLinks.map (·.toJson y.showTime))).listOf
      (shareRecord env x) = some m.shareLinks :=
    JsonTree.listOf_array_map fun l hl => shareRecord_toJson hfaithful.uuid l (hfaithful.times l hl)
      (hfits.shares l hl).1 (hfits.shares l hl).2
  refine ⟨?_, ?_, ?_⟩
  · change ((JsonTree.array _).listOf _).getD [] = _
    rw [hentries, Option.getD_some]
  · change ((JsonTree.array _).listOf _).getD [] = _
    rw [hversions, Option.getD_some]
  · change ((JsonTree.array _).listOf _).getD [] = _
    rw [hshares, Option.getD_some]

@[simp] theorem filesOf_toJson : filesOf (m.toJson y.showTime) = m.files := rfl

end Records

/-! ## What is in the directory -/

section Directory

variable {env : Env} {c : Course} {w : World} {user : Uuid} {dir : BackupDir} {name other : String}
  {data : Bytes}

theorem length_payloadName (u : Uuid) : (payloadName u.text).length = 45 := by
  have hlength : "payloads/".length = 9 := by decide
  have h : (payloadName u.text).length = "payloads/".length + u.text.length :=
    String.length_append _ _
  rw [hlength, Uuid.length_text] at h
  exact h

theorem length_versionName (u : Uuid) : (versionName u.text).length = 54 := by
  have hlength : "payloads/versions/".length = 18 := by
    rw [← String.length_toList]
    rfl
  have h : (versionName u.text).length = "payloads/versions/".length + u.text.length :=
    String.length_append _ _
  rw [hlength, Uuid.length_text] at h
  exact h

theorem payloadName_inj {u v : Uuid} (h : payloadName u.text = payloadName v.text) : u = v :=
  Uuid.text_injective ((String.append_right_inj _).mp h)

theorem versionName_inj {u v : Uuid} (h : versionName u.text = versionName v.text) : u = v :=
  Uuid.text_injective ((String.append_right_inj _).mp h)

theorem versionName_ne_payloadName (u v : Uuid) : versionName u.text ≠ payloadName v.text := by
  intro h
  have hlength := congrArg String.length h
  rw [length_versionName, length_payloadName] at hlength
  cases hlength

theorem read_put_self : (dir.put name data).read name = .ok data := if_pos rfl

theorem read_put_of_ne (h : other ≠ name) : (dir.put name data).read other = dir.read other :=
  if_neg h

theorem read_write_of_ne (h : other ≠ name) : (dir.write c name data).read other = dir.read other :=
  read_put_of_ne h

theorem read_write_self (h : c.fails name = none) : (dir.write c name data).read name = .ok data := by
  rw [BackupDir.write, h, Option.elim_none, read_put_self]

/-- The file, its path and its content, if they come into the backup. -/
def capture (c : Course) (w : World) (e : EntryRecord) : Option (EntryRecord × String × Bytes) :=
  if (c.fails (payloadName e.id.text)).isNone then
    (source c w e).map fun x => (e, x.1, x.2)
  else none

variable (env c w) in
/-- A step of the loop over the files. -/
theorem copyPayload_spec (m : Making) (e : EntryRecord) :
    (copyPayload env c w m e).files =
        m.files ++ ((capture c w e).map fun x => listed env x.1 x.2.1 x.2.2).toList ∧
      (copyPayload env c w m e).copied = m.copied + (capture c w e).toList.length ∧
      (∀ x ∈ capture c w e, (copyPayload env c w m e).dir.read (payloadName e.id.text) = .ok x.2.2) ∧
      ∀ name ≠ payloadName e.id.text, (copyPayload env c w m e).dir.read name = m.dir.read name := by
  unfold copyPayload capture
  cases source c w e with
  | none => simp
  | some x =>
    cases hfails : c.fails (payloadName e.id.text) with
    | none =>
      refine ⟨rfl, rfl, fun x hx => ?_, fun name hname => read_write_of_ne hname⟩
      obtain rfl := Option.some.inj hx
      exact read_write_self hfails
    | some n =>
      refine ⟨(List.append_nil _).symm, rfl, fun x hx => ?_, fun name hname => read_write_of_ne hname⟩
      cases hx

/-- What comes into the backup. -/
def captures (c : Course) (w : World) (es : List EntryRecord) : List (EntryRecord × String × Bytes) :=
  es.filterMap (capture c w)

theorem mem_captures {es : List EntryRecord} {x : EntryRecord × String × Bytes} :
    x ∈ captures c w es ↔ x.1 ∈ es ∧ c.fails (payloadName x.1.id.text) = none ∧
      source c w x.1 = some x.2 := by
  obtain ⟨e, x⟩ := x
  rw [captures, List.mem_filterMap]
  unfold capture
  constructor
  · rintro ⟨e', he', hcapture⟩
    split at hcapture
    · rename_i hfails
      obtain ⟨y, hy, heq⟩ := Option.map_eq_some_iff.mp hcapture
      obtain ⟨rfl, rfl⟩ := Prod.mk.inj heq
      exact ⟨he', Option.isNone_iff_eq_none.mp hfails, hy⟩
    · cases hcapture
  · rintro ⟨he, hfails, hsource⟩
    dsimp only at he hfails hsource
    refine ⟨e, he, ?_⟩
    rw [hfails, Option.isNone_none, if_pos rfl, hsource, Option.map_some]

variable (env c w) in
/-- **What the loop over the files leaves.** -/
theorem foldl_copyPayload (es : List EntryRecord) (hids : (es.map EntryRecord.id).Nodup)
    (m : Making) :
    (es.foldl (copyPayload env c w) m).files =
        m.files ++ (captures c w es).map (fun x => listed env x.1 x.2.1 x.2.2) ∧
      (es.foldl (copyPayload env c w) m).copied = m.copied + (captures c w es).length ∧
      (∀ x ∈ captures c w es,
        (es.foldl (copyPayload env c w) m).dir.read (payloadName x.1.id.text) = .ok x.2.2) ∧
      ∀ name, (∀ e ∈ es, name ≠ payloadName e.id.text) →
        (es.foldl (copyPayload env c w) m).dir.read name = m.dir.read name := by
  induction es generalizing m with
  | nil => exact ⟨(List.append_nil _).symm, rfl, List.forall_mem_nil _, fun _ _ => rfl⟩
  | cons e es ih =>
    rw [List.map_cons, List.nodup_cons] at hids
    obtain ⟨hfiles, hcopied, hread, hother⟩ := copyPayload_spec env c w m e
    obtain ⟨hfiles', hcopied', hread', hother'⟩ := ih hids.2 (copyPayload env c w m e)
    have hcons : captures c w (e :: es) = (capture c w e).toList ++ captures c w es := by
      rw [captures, captures, List.filterMap_cons]
      cases capture c w e <;> rfl
    have hfirst : ∀ e' ∈ es, payloadName e.id.text ≠ payloadName e'.id.text := fun e' he' heq =>
      hids.1 (List.mem_map.mpr ⟨e', he', (payloadName_inj heq).symm⟩)
    rw [List.foldl_cons, hcons]
    refine ⟨?_, ?_, fun x hx => ?_, fun name hname => ?_⟩
    · rw [hfiles', hfiles, List.map_append, List.append_assoc]
      cases capture c w e <;> rfl
    · rw [hcopied', hcopied, List.length_append, Nat.add_assoc]
    · rcases List.mem_append.mp hx with hx | hx
      · have hx := Option.mem_toList.mp hx
        have he : x ∈ captures c w [e] := List.mem_filterMap.mpr ⟨e, List.mem_singleton_self _, hx⟩
        obtain rfl := List.mem_singleton.mp (mem_captures.mp he).1
        rw [hother' _ hfirst, hread x hx]
      · exact hread' x hx
    · rw [hother' name fun e' he' => hname e' (List.mem_cons_of_mem _ he'),
        hother name (hname e List.mem_cons_self)]

theorem read_copyVersion_of_ne (v : VersionBackupRecord) (dir : BackupDir)
    (h : name ≠ versionName v.id.text) : (copyVersion c w dir v).read name = dir.read name := by
  unfold copyVersion
  split
  · rfl
  · exact read_write_of_ne h

variable (c w) in
/-- **What the loop over the versions leaves**: each content whose write did not fail, and everything
else. -/
theorem foldl_copyVersion (vs : List VersionBackupRecord)
    (hids : (vs.map VersionBackupRecord.id).Nodup) (dir : BackupDir) :
    (∀ v ∈ vs, ∀ data, v.storagePath.bind (readBlob c w) = some data →
        c.fails (versionName v.id.text) = none →
        (vs.foldl (copyVersion c w) dir).read (versionName v.id.text) = .ok data) ∧
      ∀ name, (∀ v ∈ vs, name ≠ versionName v.id.text) →
        (vs.foldl (copyVersion c w) dir).read name = dir.read name := by
  induction vs generalizing dir with
  | nil => exact ⟨List.forall_mem_nil _, fun _ _ => rfl⟩
  | cons v vs ih =>
    rw [List.map_cons, List.nodup_cons] at hids
    obtain ⟨hread, hother⟩ := ih hids.2 (copyVersion c w dir v)
    have hfirst : ∀ v' ∈ vs, versionName v.id.text ≠ versionName v'.id.text := fun v' hv' heq =>
      hids.1 (List.mem_map.mpr ⟨v', hv', (versionName_inj heq).symm⟩)
    rw [List.foldl_cons, List.forall_mem_cons]
    refine ⟨⟨fun data hdata hfails => ?_, hread⟩, fun name hname => ?_⟩
    · rw [hother _ hfirst, copyVersion, hdata]
      exact read_write_self hfails
    · rw [hother name fun v' hv' => hname v' (List.mem_cons_of_mem _ hv'),
        read_copyVersion_of_ne v dir (hname v List.mem_cons_self)]

end Directory

/-! ## A backup that has been created -/

/-- The manifest of a backup. -/
def manifestOfCreate (env : Env) (c : Course) (user id : Uuid) (name : String) (s : Vault) : Manifest :=
  manifestFor c s.shared.world user id name s.shared.links
    (makePayloads env c s.shared.world user (s.dirs (storagePathOf user id)))

/-- What is in the directory of a backup that has been created. -/
structure Created (env : Env) (c : Course) (x : Reading) (y : Writing) (user id : Uuid)
    (name : String) (s : Vault) (dir : BackupDir) : Prop where
  present : dir.present manifestName = true
  manifest : readManifest x dir = .ok ((manifestOfCreate env c user id name s).toJson y.showTime)
  payloads : ∀ z ∈ captures c s.shared.world (entriesFor s.shared.world user),
    dir.read (payloadName z.1.id.text) = .ok z.2.2
  versions : ∀ v ∈ versionsFor c s.shared.world user, ∀ data,
    v.storagePath.bind (readBlob c s.shared.world) = some data →
      c.fails (versionName v.id.text) = none → dir.read (versionName v.id.text) = .ok data

section Created

variable {env : Env} {c : Course} {x : Reading} {y : Writing} {user id : Uuid} {name : String}
  {s s' : Vault} {backup : Backup}

theorem nodup_entriesFor (w : World) (user : Uuid) : ((entriesFor w user).map EntryRecord.id).Nodup := by
  have hids : (entriesFor w user).map EntryRecord.id = (rowsOf w user).map FileEntry.id := by
    rw [entriesFor, List.map_map]
    rfl
  rw [hids]
  exact w.entries.valid.pk.sublist (List.filter_sublist.map _)

theorem nodup_versionsFor {w : World} (hpk : (w.versions.map FileVersion.id).Nodup) (user : Uuid) :
    ((versionsFor c w user).map VersionBackupRecord.id).Nodup := by
  unfold versionsFor
  split
  · have hids : ∀ vs : List FileVersion, (vs.map VersionBackupRecord.of).map VersionBackupRecord.id =
        vs.map FileVersion.id := fun vs => by
      rw [List.map_map]
      rfl
    rw [hids]
    exact hpk.sublist (List.filter_sublist.map _)
  · exact List.nodup_nil

theorem copied_makePayloads {w : World} {dir : BackupDir} :
    (makePayloads env c w user dir).copied = (captures c w (entriesFor w user)).length :=
  (foldl_copyPayload _ _ _ _ (nodup_entriesFor _ _) _).2.1.trans (Nat.zero_add _)

theorem filesOf_manifestOfCreate : (manifestOfCreate env c user id name s).files =
    (captures c s.shared.world (entriesFor s.shared.world user)).map
      fun z => listed env z.1 z.2.1 z.2.2 :=
  (foldl_copyPayload _ _ _ _ (nodup_entriesFor _ _) _).1.trans (List.nil_append _)

theorem read_dump {dir : BackupDir} (h : name ≠ "database.sql") :
    (c.dump.elim dir (dir.put "database.sql")).read name = dir.read name := by
  cases c.dump with
  | none => rfl
  | some data => exact read_put_of_ne h

/-- What is in the directory when the manifest and the dump have been written beside the payloads. -/
theorem created_of_write (hfails : c.fails manifestName = none)
    (hpk : (s.shared.world.versions.map FileVersion.id).Nodup)
    (hfaithful : Faithful env x y (manifestOfCreate env c user id name s)) :
    Created env c x y user id name s
      (let dir := (makePayloads env c s.shared.world user (s.dirs (storagePathOf user id))).dir.write c
        manifestName (y.toStringPretty
          ((manifestOfCreate env c user id name s).toJson y.showTime)).toUTF8.toList
      c.dump.elim dir (dir.put "database.sql")) := by
  have hpayload : ∀ u : Uuid, payloadName u.text ≠ "database.sql" ∧ payloadName u.text ≠ manifestName := by
    refine fun u => ⟨fun heq => ?_, fun heq => ?_⟩
    all_goals
      have hlength := congrArg String.length heq
      rw [length_payloadName] at hlength
      exact absurd hlength (by decide)
  have hversion : ∀ u : Uuid, versionName u.text ≠ "database.sql" ∧ versionName u.text ≠ manifestName := by
    refine fun u => ⟨fun heq => ?_, fun heq => ?_⟩
    all_goals
      have hlength := congrArg String.length heq
      rw [length_versionName] at hlength
      exact absurd hlength (by decide)
  obtain ⟨-, -, hread, -⟩ := foldl_copyPayload env c s.shared.world
    (entriesFor s.shared.world user) (nodup_entriesFor _ _) ⟨s.dirs (storagePathOf user id), 0, []⟩
  obtain ⟨hversions, hother⟩ := foldl_copyVersion c s.shared.world
    (versionsFor c s.shared.world user) (nodup_versionsFor hpk user)
    ((entriesFor s.shared.world user).foldl (copyPayload env c s.shared.world)
      ⟨s.dirs (storagePathOf user id), 0, []⟩).dir
  dsimp only
  have hmanifest : (c.dump.elim _ (((makePayloads env c s.shared.world user
      (s.dirs (storagePathOf user id))).dir.write c manifestName (y.toStringPretty
        ((manifestOfCreate env c user id name s).toJson y.showTime)).toUTF8.toList).put
          "database.sql")).read manifestName = .ok (y.toStringPretty
        ((manifestOfCreate env c user id name s).toJson y.showTime)).toUTF8.toList :=
    (read_dump (by decide)).trans (read_write_self hfails)
  refine ⟨BackupDir.present_of_read _ _ _ hmanifest, ?_, fun z hz => ?_, fun v hv data hdata hf => ?_⟩
  · unfold readManifest
    rw [hmanifest, Except.bind, hfaithful.text]
    dsimp only
    rw [hfaithful.document]
  · rw [read_dump (hpayload _).1, read_write_of_ne (hpayload _).2]
    exact (hother _ fun v _ => (versionName_ne_payloadName _ _).symm).trans (hread z hz)
  · rw [read_dump (hversion _).1, read_write_of_ne (hversion _).2]
    exact hversions v hv data hdata hf

/-- **A backup that has been created holds what came into it.** -/
theorem created_of_createBackup (h : createBackup env c user y id name s = (s', .ok backup))
    (hpk : (s.shared.world.versions.map FileVersion.id).Nodup)
    (hfaithful : Faithful env x y (manifestOfCreate env c user id name s)) :
    backup = ⟨id, user, "completed", storagePathOf user id⟩ ∧
      Created env c x y user id name s (s'.dirs (storagePathOf user id)) := by
  unfold createBackup at h
  cases hdir : c.dirError with
  | some e =>
    rw [hdir] at h
    cases h
  | none =>
    cases hentries : c.entriesError with
    | some e =>
      rw [hdir, hentries] at h
      cases h
    | none =>
      rw [hdir, hentries] at h
      dsimp only at h
      split_ifs at h with hfails hinserted
      · cases h
      · obtain ⟨rfl, hok⟩ := Prod.mk.inj h
        obtain rfl := Except.ok.inj hok
        rw [Option.not_isSome_iff_eq_none] at hfails
        refine ⟨rfl, ?_⟩
        dsimp only
        rw [if_pos rfl]
        exact created_of_write hfails hpk hfaithful
      · cases h

/-! ### Checking it -/

variable {dir : BackupDir}

/-- A file that is listed is present and matches. -/
theorem checkFile_listed {z : EntryRecord × String × Bytes}
    (hread : dir.read (payloadName z.1.id.text) = .ok z.2.2) (k : Counts) :
    checkFile env dir k (listed env z.1 z.2.1 z.2.2) =
      { k with
        filesPresent := k.filesPresent + 1
        checksumMatches := k.checksumMatches + 1 } := by
  have hid : ((listed env z.1 z.2.1 z.2.2).index "id").asStr = some z.1.id.text := rfl
  have hhash : ((listed env z.1 z.2.1 z.2.2).index "sha256_hash").asStr = some (env.sha256 z.2.2) :=
    rfl
  rw [checkFile, hid]
  dsimp only
  rw [hread]
  dsimp only
  rw [hhash]
  dsimp only
  rw [if_pos rfl]

theorem foldl_checkFile (zs : List (EntryRecord × String × Bytes))
    (hread : ∀ z ∈ zs, dir.read (payloadName z.1.id.text) = .ok z.2.2) (k : Counts) :
    (zs.map fun z => listed env z.1 z.2.1 z.2.2).foldl (checkFile env dir) k =
      ⟨k.filesPresent + zs.length, k.filesMissing, k.checksumMatches + zs.length,
        k.checksumMismatches⟩ := by
  induction zs generalizing k with
  | nil => rfl
  | cons z zs ih =>
    rw [List.map_cons, List.foldl_cons, checkFile_listed (hread z List.mem_cons_self),
      ih fun z hz => hread z (List.mem_cons_of_mem _ hz), List.length_cons]
    simp only [Nat.add_assoc, Nat.add_comm 1]

/-- **A new backup is reported as healthy**, with each of its files present and none differing. -/
theorem Created.verifyBackupDir (h : Created env c x y user id name s dir) :
    verifyBackupDir env x dir id = ⟨id, true, true, dir.present "database.sql",
      ⟨(captures c s.shared.world (entriesFor s.shared.world user)).length, 0,
        (captures c s.shared.world (entriesFor s.shared.world user)).length, 0⟩, "verified"⟩ := by
  have hfiles : (if dir.present manifestName = true then
      (readManifest x dir).toOption.elim [] filesOf else []) =
        (captures c s.shared.world (entriesFor s.shared.world user)).map
          fun z => listed env z.1 z.2.1 z.2.2 := by
    rw [h.present, if_pos rfl, h.manifest]
    exact filesOf_manifestOfCreate
  rw [Backups.verifyBackupDir, hfiles, foldl_checkFile _ h.payloads, h.present]
  simp

end Created

/-! ## Restoring it -/

section Shown

variable {env : Env} {x : Reading} {dir : BackupDir} {user : Uuid} {now : ℤ} {w : Write}
  {p p' : Restoring} {manifest : JsonTree}

/-- What was written last to a path is there. -/
def Shown (p : Restoring) : Prop :=
  ∀ path w, p.written.reverse.find? (fun w => w.target = path) = some w →
    p.shared.world.blobs path = some w.data

theorem Shown.of_eq (h : Shown p) (hwritten : p'.written = p.written)
    (hblobs : p'.shared.world.blobs = p.shared.world.blobs) : Shown p' := by
  intro path w hw
  rw [hwritten] at hw
  rw [hblobs]
  exact h path w hw

theorem Shown.write (h : Shown p) (x : Reading) (w : Write) : Shown (p.write x w) := by
  unfold Restoring.write
  split
  · intro path w' hw'
    dsimp only at hw' ⊢
    rw [List.reverse_append, List.reverse_singleton, List.singleton_append, List.find?_cons] at hw'
    change (if path = w.target then some w.data else p.shared.world.blobs path) = _
    by_cases htarget : w.target = path
    · rw [decide_eq_true htarget] at hw'
      rw [if_pos htarget.symm, Option.some.inj hw']
    · rw [decide_eq_false htarget] at hw'
      rw [if_neg (Ne.symm htarget)]
      exact h path w' hw'
  · exact h

theorem Shown.foldl {α : Type} {step : Restoring → α → Restoring}
    (hstep : ∀ p a, Shown p → Shown (step p a)) (as : List α) (h : Shown p) :
    Shown (as.foldl step p) := by
  induction as generalizing p with
  | nil => exact h
  | cons a as ih => exact ih (hstep p a h)

theorem Shown.restorePayload (h : Shown p) (file : JsonTree) :
    Shown (restorePayload env x dir p file) := by
  unfold Backups.restorePayload
  split
  · exact h
  · rename_i w _
    have hcompare : Shown (p.compare env w) := by
      unfold Restoring.compare
      split
      · exact h
      · split <;> exact h.of_eq rfl rfl
    unfold Restoring.countFile
    split
    · exact (hcompare.write x w).of_eq rfl rfl
    · exact hcompare.write x w

theorem Shown.of_writes (h : Shown p) (hnone : Writes p p' []) : Shown p' :=
  h.of_eq (hnone.written.trans (List.append_nil _))
    (funext fun path => hnone.blobs path (List.forall_mem_nil _))

theorem Shown.restoreVersion (h : Shown p) (v : VersionBackupRecord) :
    Shown (restoreVersion x dir now p v) := by
  have hwrite : Shown ((versionPayloadOf dir v).elim p fun w => p.write x w) := by
    cases versionPayloadOf dir v with
    | none => exact h
    | some w => exact h.write x w
  refine hwrite.of_eq rfl ?_
  change (insertVersion now v _).blobs = _
  unfold insertVersion
  split
  · rfl
  · split <;> rfl

theorem Shown.restoreManifest (h : Shown p) :
    Shown (restoreManifest env x dir user now manifest p) :=
  Shown.foldl (fun p l h => h.of_writes (writes_restoreShare user now p l)) _ <|
    Shown.foldl (fun _ v h => h.restoreVersion v) _ <|
      Shown.foldl (fun p e h => h.of_writes (writes_restoreEntryRecord user now p e)) _ <|
        Shown.foldl (fun _ file h => h.restorePayload file) _ h

/-- A path that is written, and always with the same bytes, has them. -/
theorem Shown.blobs_eq (h : Shown p) {path : String} {data : Bytes}
    (hsome : ∃ w ∈ p.written, w.target = path)
    (hall : ∀ w ∈ p.written, w.target = path → w.data = data) :
    p.shared.world.blobs path = some data := by
  have hfind : (p.written.reverse.find? fun w => w.target = path).isSome = true := by
    rw [List.find?_isSome]
    obtain ⟨w, hw, htarget⟩ := hsome
    exact ⟨w, List.mem_reverse.mpr hw, decide_eq_true htarget⟩
  obtain ⟨w, hw⟩ := Option.isSome_iff_exists.mp hfind
  rw [h path w hw, hall w (List.mem_reverse.mp (List.mem_of_find?_eq_some hw))
    (by simpa using List.find?_some hw)]

end Shown

section Restored

variable {env : Env} {c : Course} {x : Reading} {y : Writing} {user id : Uuid} {name : String}
  {s s' : Vault} {backup : Backup} {dir : BackupDir} {now : ℤ}

/-- A content that comes into the backup: it can be read, one of the rows that have it is copied, and
the versions that have it can be written. -/
def Backed (c : Course) (w : World) (user : Uuid) (path : String) (data : Bytes) : Prop :=
  readBlob c w path = some data ∧
  (∀ v ∈ versionsFor c w user, v.storagePath = some path →
    c.fails (versionName v.id.text) = none) ∧
  ((∃ e ∈ entriesFor w user, e.IsLive ∧ e.storagePath = some path ∧
      c.fails (payloadName e.id.text) = none) ∨
    ∃ v ∈ versionsFor c w user, v.storagePath = some path)

theorem source_eq_some {w : World} {e : EntryRecord} {path : String} {data : Bytes} :
    source c w e = some (path, data) ↔
      e.IsLive ∧ e.storagePath = some path ∧ readBlob c w path = some data := by
  unfold source
  by_cases hlive : e.entryType = "file" ∧ e.isTrashed = false
  · rw [if_pos (by simp [hlive])]
    simp only [Option.bind_eq_some_iff, Option.map_eq_some_iff, Prod.mk.injEq, EntryRecord.IsLive,
      hlive, true_and]
    constructor
    · rintro ⟨rel, hrel, data', hdata, rfl, rfl⟩
      exact ⟨hrel, hdata⟩
    · rintro ⟨hrel, hdata⟩
      exact ⟨path, hrel, data, hdata, rfl, rfl⟩
  · rw [if_neg (by simpa using hlive)]
    exact iff_of_false nofun fun h => hlive h.1

theorem payloadOf_listed {z : EntryRecord × String × Bytes}
    (hread : dir.read (payloadName z.1.id.text) = .ok z.2.2) :
    payloadOf dir (listed env z.1 z.2.1 z.2.2) = some ⟨z.2.1, z.2.2, some (env.sha256 z.2.2)⟩ := by
  have hid : ((listed env z.1 z.2.1 z.2.2).index "id").asStr = some z.1.id.text := rfl
  have hpath : ((listed env z.1 z.2.1 z.2.2).index "storage_path").asStr = some z.2.1 := rfl
  have hhash : ((listed env z.1 z.2.1 z.2.2).index "sha256_hash").asStr = some (env.sha256 z.2.2) :=
    rfl
  rw [payloadOf, hid, hpath, hhash, Option.bind_eq_bind, Option.bind_some, Option.bind_eq_bind,
    Option.bind_some, hread]
  rfl

/-- **What is offered for a path that is backed is its content.** -/
theorem offered_of_backed (h : Created env c x y user id name s dir)
    (hfaithful : Faithful env x y (manifestOfCreate env c user id name s))
    (hfits : (manifestOfCreate env c user id name s).Fits) {path : String} {data : Bytes}
    (hbacked : Backed c s.shared.world user path data) :
    (∃ w ∈ offeredBy env dir ((manifestOfCreate env c user id name s).toJson y.showTime),
      w.target = path) ∧
    ∀ w ∈ offeredBy env dir ((manifestOfCreate env c user id name s).toJson y.showTime),
      w.target = path → w.data = data := by
  obtain ⟨hblob, hversions, hthere⟩ := hbacked
  have hfiles : (manifestOfCreate env c user id name s).files =
      (captures c s.shared.world (entriesFor s.shared.world user)).map
        fun z => listed env z.1 z.2.1 z.2.2 := filesOf_manifestOfCreate
  have hrecords : versionsOf env ((manifestOfCreate env c user id name s).toJson y.showTime) =
      versionsFor c s.shared.world user := (records_toJson hfaithful hfits).2.1
  have hread : ∀ v ∈ versionsFor c s.shared.world user, v.storagePath = some path →
      versionPayloadOf dir v = some ⟨path, data, v.sha256Hash⟩ := by
    intro v hv hpath
    have hdata := h.versions v hv data (by rw [hpath, Option.bind_some, hblob]) (hversions v hv hpath)
    rw [versionPayloadOf, hpath, Option.bind_eq_bind, Option.bind_some, hdata]
    rfl
  unfold offeredBy
  rw [filesOf_toJson, hfiles, hrecords]
  constructor
  · rcases hthere with ⟨e, he, hlive, hpath, hfails⟩ | ⟨v, hv, hpath⟩
    · have hmem : (e, path, data) ∈ captures c s.shared.world (entriesFor s.shared.world user) :=
        mem_captures.mpr ⟨he, hfails, source_eq_some.mpr ⟨hlive, hpath, hblob⟩⟩
      exact ⟨_, List.mem_append_left _ (List.mem_filterMap.mpr
        ⟨_, List.mem_map.mpr ⟨_, hmem, rfl⟩, payloadOf_listed (h.payloads _ hmem)⟩), rfl⟩
    · exact ⟨_, List.mem_append_right _ (List.mem_filterMap.mpr ⟨v, hv, hread v hv hpath⟩), rfl⟩
  · intro w hw htarget
    rcases List.mem_append.mp hw with hw | hw
    · obtain ⟨file, hfile, hpayload⟩ := List.mem_filterMap.mp hw
      obtain ⟨z, hz, rfl⟩ := List.mem_map.mp hfile
      rw [payloadOf_listed (h.payloads z hz)] at hpayload
      obtain rfl := Option.some.inj hpayload
      obtain rfl : z.2.1 = path := htarget
      have hsource := (source_eq_some.mp (mem_captures.mp hz).2.2).2.2
      exact Option.some.inj (hsource.symm.trans hblob)
    · obtain ⟨v, hv, hpayload⟩ := List.mem_filterMap.mp hw
      have hpath : v.storagePath = some path := by
        obtain ⟨rel, hrel, hrest⟩ := Option.bind_eq_some_iff.mp hpayload
        obtain ⟨_, -, heq⟩ := Option.bind_eq_some_iff.mp hrest
        obtain rfl := Option.some.inj heq
        exact hrel.trans (congrArg some htarget)
      rw [hread v hv hpath] at hpayload
      rw [← Option.some.inj hpayload]

/-- The payloads of a new backup match. -/
theorem corrupted_foldl (zs : List (EntryRecord × String × Bytes))
    (hread : ∀ z ∈ zs, dir.read (payloadName z.1.id.text) = .ok z.2.2) (p : Restoring) :
    ((zs.map fun z => listed env z.1 z.2.1 z.2.2).foldl (restorePayload env x dir) p).corruptedFiles =
      p.corruptedFiles := by
  induction zs generalizing p with
  | nil => rfl
  | cons z zs ih =>
    rw [List.map_cons, List.foldl_cons, ih fun z hz => hread z (List.mem_cons_of_mem _ hz),
      restorePayload, payloadOf_listed (hread z List.mem_cons_self)]
    simp only [Restoring.compare, Restoring.write, Restoring.countFile, if_true]
    split <;> rfl

theorem corrupted_restoreManifest (h : Created env c x y user id name s dir) (p : Restoring) :
    (restoreManifest env x dir user now
      ((manifestOfCreate env c user id name s).toJson y.showTime) p).corruptedFiles =
        p.corruptedFiles := by
  have hkeep : ∀ {α : Type} {step : Restoring → α → Restoring} (as : List α) (p : Restoring),
      (∀ p a, (step p a).corruptedFiles = p.corruptedFiles) →
        (as.foldl step p).corruptedFiles = p.corruptedFiles := by
    intro α step as p hstep
    induction as generalizing p with
    | nil => rfl
    | cons a as ih => exact (ih _).trans (hstep p a)
  have hversion : ∀ p v, (restoreVersion x dir now p v).corruptedFiles = p.corruptedFiles := by
    intro p v
    simp only [restoreVersion, Restoring.inWorld]
    cases versionPayloadOf dir v with
    | none => rfl
    | some w =>
      simp only [Option.elim_some, Restoring.write]
      split <;> rfl
  unfold restoreManifest
  dsimp only
  have hentry : ∀ p e, (restoreEntryRecord user now p e).corruptedFiles = p.corruptedFiles :=
    fun _ _ => rfl
  have hshare : ∀ p l, (restoreShare user now p l).corruptedFiles = p.corruptedFiles :=
    fun _ _ => rfl
  rw [hkeep _ _ hshare, hkeep _ _ hversion, hkeep _ _ hentry, filesOf_toJson,
    filesOf_manifestOfCreate]
  exact corrupted_foldl _ h.payloads p

end Restored

/-! ## Restoring a tree that was lost -/

/-- A row can be inserted: what it is in is a row already, or the row itself. -/
def Placeable (known : List Uuid) (r : FileEntry) : Prop := ∀ p ∈ r.parentId, p ∈ known ∨ p = r.id

instance (known : List Uuid) (r : FileEntry) : Decidable (Placeable known r) :=
  inferInstanceAs (Decidable (∀ _ ∈ _, _))

/-- The rows that can be inserted, in turn. -/
def placed (known : List Uuid) : List FileEntry → List FileEntry
  | [] => []
  | r :: rs => if Placeable known r then r :: placed (known ++ [r.id]) rs else placed known rs

/-- **Each row comes after the one that it is in.** -/
def Lined (known : List Uuid) : List FileEntry → Prop
  | [] => True
  | r :: rs => Placeable known r ∧ Lined (known ++ [r.id]) rs

theorem placed_sublist (known : List Uuid) (rs : List FileEntry) : (placed known rs).Sublist rs := by
  induction rs generalizing known with
  | nil => exact List.Sublist.refl _
  | cons r rs ih =>
    rw [placed]
    split
    · exact (ih _).cons_cons r
    · exact (ih _).cons r

theorem placed_eq_iff (known : List Uuid) (rs : List FileEntry) :
    placed known rs = rs ↔ Lined known rs := by
  induction rs generalizing known with
  | nil => exact iff_of_true rfl trivial
  | cons r rs ih =>
    rw [placed, Lined]
    split
    · rename_i hplace
      rw [List.cons.injEq, ih]
      exact ⟨fun h => ⟨hplace, h.2⟩, fun h => ⟨rfl, h.2⟩⟩
    · rename_i hplace
      refine iff_of_false (fun heq => ?_) fun h => hplace h.1
      have hlength := (placed_sublist known rs).length_le
      rw [heq, List.length_cons] at hlength
      omega

/-- The row that a row is restored to. -/
def restored (now : ℤ) (r : FileEntry) : FileEntry :=
  { r with
    trashedAt := none
    createdAt := now
    updatedAt := now }

/-- Folders come before what may be in them. -/
def inOrder (rs : List FileEntry) : List FileEntry :=
  rs.filter (fun r => r.entryType = .folder) ++ rs.filter fun r => r.entryType ≠ .folder

/-- There is room for rows of a user: none of their ids and keys is taken, or twice among them. -/
structure Room (w : World) (user : Uuid) (rs : List FileEntry) : Prop where
  columns : fileColumns ⊆ w.columns
  present : (w.users user).isSome = true
  owned : ∀ r ∈ rs, r.userId = user
  fits : ∀ r ∈ rs, r.Fits
  ids : (w.entries.rows.map FileEntry.id ++ rs.map FileEntry.id).Nodup
  keys : (w.entries.rows.map FileEntry.key ++ rs.map FileEntry.key).Nodup

section Tree

variable {env : Env} {c : Course} {x : Reading} {y : Writing} {user id : Uuid} {name : String}
  {s s' t : Vault} {backup : Backup} {dir : BackupDir} {now : ℤ} {w : World} {r : FileEntry}
  {rs : List FileEntry}

theorem typed_of (r : FileEntry) : (EntryRecord.of r).typed =
    some ⟨r.id, r.parentId, r.name, r.entryType, r.mimeType, r.sizeBytes, r.sha256Hash, r.storagePath,
      r.isTrashed⟩ := by
  unfold EntryRecord.typed EntryRecord.of
  cases r.entryType <;> rfl

variable (now) in
/-- With one more row, where it can be placed. -/
theorem Room.valid (h : Room w user (r :: rs))
    (hplace : Placeable (w.entries.rows.map FileEntry.id) r) :
    Valid (w.entries.rows ++ [restored now r]) := by
  have hids := h.ids
  have hkeys := h.keys
  rw [List.map_cons, List.append_cons] at hids hkeys
  refine ⟨?_, fun r' hr' p hp => ?_, ?_, fun r' hr' => ?_⟩
  · rw [List.map_append]
    exact hids.sublist (List.sublist_append_left _ _)
  · rw [List.map_append]
    rcases List.mem_append.mp hr' with hr' | hr'
    · exact List.mem_append_left _ (w.entries.valid.fk r' hr' p hp)
    · obtain rfl := List.mem_singleton.mp hr'
      rcases hplace p hp with hknown | rfl
      · exact List.mem_append_left _ hknown
      · exact List.mem_append_right _ (List.mem_singleton_self _)
  · rw [List.map_append]
    exact hkeys.sublist (List.sublist_append_left _ _)
  · rcases List.mem_append.mp hr' with hr' | hr'
    · exact w.entries.valid.fits r' hr'
    · obtain rfl := List.mem_singleton.mp hr'
      exact h.fits r List.mem_cons_self

theorem placeable_of_valid (h : Valid (w.entries.rows ++ [restored now r])) :
    Placeable (w.entries.rows.map FileEntry.id) r := by
  intro p hp
  have hmem := h.fk (restored now r) (List.mem_append_right _ (List.mem_singleton_self _)) p hp
  rw [List.map_append, List.mem_append] at hmem
  exact hmem.imp_right List.mem_singleton.mp

variable (now) in
/-- The row that is not there is inserted, if the table takes it. -/
theorem restoreEntryRecord_eq (h : Room w user (r :: rs)) {p : Restoring} (hp : p.shared.world = w) :
    (restoreEntryRecord user now p (.of r)).shared.world =
      match FileTable.commit (w.entries.rows ++ [restored now r]) with
      | some table => { w with entries := table }
      | none => w := by
  have hfind : (w.entries.find? r.id).isSome = false := by
    rw [FileTable.find?, Option.isSome_eq_false_iff, Option.isNone_iff_eq_none, List.find?_eq_none]
    intro r' hr' heq
    rw [decide_eq_true_eq] at heq
    have hids := h.ids
    rw [List.map_cons] at hids
    exact (List.nodup_append.mp hids).2.2 _ (List.mem_map_of_mem hr') _ List.mem_cons_self heq
  have howned : FileEntryBackupRecord.proposed user now ⟨r.id, r.parentId, r.name, r.entryType,
      r.mimeType, r.sizeBytes, r.sha256Hash, r.storagePath, r.isTrashed⟩ = restored now r := by
    rw [← h.owned r List.mem_cons_self]
    rfl
  have hfits : (restored now r).Fits := h.fits r List.mem_cons_self
  unfold restoreEntryRecord Restoring.inWorld
  rw [typed_of]
  dsimp only
  rw [hp, restoreEntry]
  dsimp only
  rw [howned, if_pos ⟨h.columns, hfits⟩, hfind, if_neg Bool.false_ne_true, if_pos h.present]
  rfl

theorem Room.tail (h : Room w user (r :: rs)) : Room w user rs where
  columns := h.columns
  present := h.present
  owned r' hr' := h.owned r' (List.mem_cons_of_mem _ hr')
  fits r' hr' := h.fits r' (List.mem_cons_of_mem _ hr')
  ids := h.ids.sublist ((List.Sublist.refl _).append (List.sublist_cons_self _ _))
  keys := h.keys.sublist ((List.Sublist.refl _).append (List.sublist_cons_self _ _))

theorem Room.insert (h : Room w user (r :: rs))
    (hvalid : Valid (w.entries.rows ++ [restored now r])) :
    Room { w with entries := ⟨w.entries.rows ++ [restored now r], hvalid⟩ } user rs where
  columns := h.columns
  present := h.present
  owned := h.tail.owned
  fits := h.tail.fits
  ids := by
    rw [List.map_append, List.append_assoc]
    exact h.ids
  keys := by
    rw [List.map_append, List.append_assoc]
    exact h.keys

/-- **What the loop over the rows leaves.** -/
theorem foldl_restoreEntryRecord (h : Room w user rs) {p : Restoring} (hp : p.shared.world = w) :
    ((rs.map EntryRecord.of).foldl (restoreEntryRecord user now) p).shared.world.entries.rows =
      w.entries.rows ++ (placed (w.entries.rows.map FileEntry.id) rs).map (restored now) := by
  induction rs generalizing w p with
  | nil =>
    rw [← hp]
    exact (List.append_nil _).symm
  | cons r rs ih =>
    have hstep := restoreEntryRecord_eq now h hp
    rw [List.map_cons, List.foldl_cons, placed]
    split
    · rename_i hplace
      have hvalid := h.valid now hplace
      rw [FileTable.commit_of_valid hvalid] at hstep
      rw [ih (h.insert hvalid) hstep, List.map_append, List.map_cons, List.append_assoc]
      rfl
    · rename_i hplace
      have hnone : FileTable.commit (w.entries.rows ++ [restored now r]) = none :=
        dif_neg fun hvalid => hplace (placeable_of_valid hvalid)
      rw [hnone] at hstep
      exact ih h.tail hstep

theorem foldersFirst_entriesFor (w : World) (user : Uuid) :
    foldersFirst (entriesFor w user) = (inOrder (rowsOf w user)).map .of := by
  have hfolder : ∀ r : FileEntry,
      decide ((EntryRecord.of r).entryType = "folder") = decide (r.entryType = .folder) := by
    intro r
    unfold EntryRecord.of
    cases r.entryType <;> rfl
  unfold foldersFirst entriesFor inOrder
  rw [List.filter_map, List.filter_map, List.map_append]
  congr 2
  · exact List.filter_congr fun r _ => hfolder r
  · refine List.filter_congr fun r _ => ?_
    rw [Function.comp_apply, decide_not, decide_not, hfolder]

theorem inOrder_perm (rs : List FileEntry) : (inOrder rs).Perm rs := by
  have hnot : (rs.filter fun r => r.entryType ≠ .folder) =
      rs.filter fun r => !decide (r.entryType = .folder) := by
    simp only [ne_eq, decide_not]
  rw [inOrder, hnot]
  exact List.filter_append_perm _ _

/-- The rows of a user have been lost: none is left, and their ids are free. -/
structure Lost (t w : World) (user : Uuid) : Prop where
  columns : fileColumns ⊆ t.columns
  present : (t.users user).isSome = true
  owner : ∀ r ∈ t.entries.rows, r.userId ≠ user
  ids : ∀ r ∈ t.entries.rows, ∀ r' ∈ rowsOf w user, r.id ≠ r'.id

theorem mem_rowsOf : r ∈ rowsOf w user ↔ r ∈ w.entries.rows ∧ r.userId = user := by
  rw [rowsOf, List.mem_filter, decide_eq_true_eq]

theorem Lost.room {t : World} (h : Lost t w user) : Room t user (inOrder (rowsOf w user)) := by
  have hmem : ∀ r, r ∈ inOrder (rowsOf w user) ↔ r ∈ rowsOf w user := fun r =>
    (inOrder_perm _).mem_iff
  have hnodup : ∀ {β : Type} (f : FileEntry → β), (w.entries.rows.map f).Nodup →
      ((inOrder (rowsOf w user)).map f).Nodup := fun f hf =>
    ((inOrder_perm _).map f).nodup_iff.mpr (hf.sublist (List.filter_sublist.map f))
  refine ⟨h.columns, h.present, fun r hr => (mem_rowsOf.mp ((hmem r).mp hr)).2, fun r hr => ?_, ?_, ?_⟩
  · exact w.entries.valid.fits r (mem_rowsOf.mp ((hmem r).mp hr)).1
  · refine List.nodup_append.mpr ⟨t.entries.valid.pk, hnodup _ w.entries.valid.pk, ?_⟩
    intro a ha b hb
    obtain ⟨r, hr, rfl⟩ := List.mem_map.mp ha
    obtain ⟨r', hr', rfl⟩ := List.mem_map.mp hb
    exact h.ids r hr r' ((hmem r').mp hr')
  · refine List.nodup_append.mpr ⟨t.entries.valid.uq, hnodup _ w.entries.valid.uq, ?_⟩
    intro a ha b hb heq
    obtain ⟨r, hr, rfl⟩ := List.mem_map.mp ha
    obtain ⟨r', hr', rfl⟩ := List.mem_map.mp hb
    have howner : r.userId = r'.userId := congrArg Prod.fst heq
    exact h.owner r hr (howner.trans (mem_rowsOf.mp ((hmem r').mp hr')).2)

variable (env x dir) in
/-- The loop over the payloads changes contents only. -/
theorem world_foldl_restorePayload (files : List JsonTree) (p : Restoring) :
    ∃ blobs, (files.foldl (restorePayload env x dir) p).shared.world =
      { p.shared.world with blobs := blobs } := by
  induction files generalizing p with
  | nil => exact ⟨p.shared.world.blobs, rfl⟩
  | cons file files ih =>
    obtain ⟨blobs, hrest⟩ := ih (restorePayload env x dir p file)
    have hstep : ∃ blobs, (restorePayload env x dir p file).shared.world =
        { p.shared.world with blobs := blobs } := by
      unfold restorePayload
      split
      · exact ⟨p.shared.world.blobs, rfl⟩
      · rename_i w _
        have hcompare : (p.compare env w).shared = p.shared := by
          unfold Restoring.compare
          split
          · rfl
          · split <;> rfl
        have hcount : ∀ q : Restoring, (q.countFile x w).shared = q.shared := by
          intro q
          unfold Restoring.countFile
          split <;> rfl
        rw [hcount, Restoring.write]
        split
        · rw [hcompare]
          exact ⟨_, rfl⟩
        · rw [hcompare]
          exact ⟨p.shared.world.blobs, rfl⟩
    obtain ⟨blobs', hstep⟩ := hstep
    exact ⟨blobs, by rw [List.foldl_cons, hrest, hstep]⟩

/-- **What a manifest restores of a tree that was lost.** -/
theorem rows_restoreManifest {manifest : JsonTree}
    (hentries : entriesOf env manifest = entriesFor w user) {p : Restoring}
    (hlost : Lost p.shared.world w user) :
    (restoreManifest env x dir user now manifest p).shared.world.entries.rows =
      p.shared.world.entries.rows ++
        (placed (p.shared.world.entries.rows.map FileEntry.id) (inOrder (rowsOf w user))).map
          (restored now) := by
  have hkeep : ∀ {α : Type} {step : Restoring → α → Restoring} (as : List α) (p : Restoring),
      (∀ p a, (step p a).shared.world.entries = p.shared.world.entries) →
        (as.foldl step p).shared.world.entries = p.shared.world.entries := by
    intro α step as p hstep
    induction as generalizing p with
    | nil => rfl
    | cons a as ih => exact (ih _).trans (hstep p a)
  have hversion : ∀ p v, (restoreVersion x dir now p v).shared.world.entries =
      p.shared.world.entries := by
    intro p v
    have hwrite : ((versionPayloadOf dir v).elim p fun w => p.write x w).shared.world.entries =
        p.shared.world.entries := by
      cases versionPayloadOf dir v with
      | none => rfl
      | some w =>
        simp only [Option.elim_some, Restoring.write]
        split <;> rfl
    refine Eq.trans ?_ hwrite
    change (insertVersion now v _).entries = _
    unfold insertVersion
    split
    · rfl
    · split <;> rfl
  have hshare : ∀ p l, (restoreShare user now p l).shared.world.entries = p.shared.world.entries := by
    intro p l
    simp only [restoreShare, insertShare]
    split <;> rfl
  obtain ⟨blobs, hpayloads⟩ := world_foldl_restorePayload env x dir
    (filesOf manifest) p
  have hroom : Room { p.shared.world with blobs := blobs } user (inOrder (rowsOf w user)) :=
    ⟨hlost.room.columns, hlost.room.present, hlost.room.owned, hlost.room.fits, hlost.room.ids,
      hlost.room.keys⟩
  unfold restoreManifest
  dsimp only
  rw [hkeep _ _ hshare, hkeep _ _ hversion, hentries, foldersFirst_entriesFor,
    foldl_restoreEntryRecord hroom hpayloads]

end Tree

namespace Sample

open Pcos.Sample

/-- A file of Alice's. -/
def row : FileEntry := ⟨id1, alice, none, "a", .file, none, 1, some (knownSha256 [0x61]),
  some (filePath alice id1), false, none, 0, 0⟩

/-- What she has before the backup. -/
def owned : Vault where
  shared := ⟨{ start.putBlob (filePath alice id1) [0x61] with
    entries := ⟨[row], by decide⟩ }, []⟩
  backups := []
  dirs _ := ⟨fun _ => false, fun _ => .error "", fun _ _ h => by cases h⟩

/-- Nothing fails. -/
def course : Course :=
  ⟨none, none, fun _ => true, fun _ => none, true, true, true, true, "", none, true,
    "2024-01-01T00:00:00+00:00"⟩

/-- What `serde_json` writes for the manifest. -/
def manifestText : String := "\n".intercalate [
  "\x7b",
  "  \"backup_id\": \"00000000-0000-4000-8000-000000000003\",",
  "  \"created_at\": \"2024-01-01T00:00:00+00:00\",",
  "  \"file_count\": 1,",
  "  \"file_entries\": [",
  "    \x7b",
  "      \"entry_type\": \"file\",",
  "      \"id\": \"00000000-0000-4000-8000-000000000001\",",
  "      \"is_trashed\": false,",
  "      \"mime_type\": null,",
  "      \"name\": \"a\",",
  "      \"parent_id\": null,",
  "      \"sha256_hash\": \"" ++ knownSha256 [0x61] ++ "\",",
  "      \"size_bytes\": 1,",
  "      \"storage_path\": \"" ++ filePath alice id1 ++ "\"",
  "    \x7d",
  "  ],",
  "  \"file_versions\": [],",
  "  \"files\": [",
  "    \x7b",
  "      \"id\": \"00000000-0000-4000-8000-000000000001\",",
  "      \"name\": \"a\",",
  "      \"sha256_hash\": \"" ++ knownSha256 [0x61] ++ "\",",
  "      \"size_bytes\": 1,",
  "      \"storage_path\": \"" ++ filePath alice id1 ++ "\"",
  "    \x7d",
  "  ],",
  "  \"files_copied\": 1,",
  "  \"name\": \"b\",",
  "  \"share_links\": [],",
  "  \"total_size_bytes\": 1,",
  "  \"user_id\": \"a11ce000-0000-4000-8000-000000000000\"",
  "\x7d"]

def writing : Writing := ⟨fun _ => manifestText, fun _ => ""⟩

/-- The manifest is read back. -/
def readingBack : Reading where
  toText bytes :=
    if bytes = manifestText.toUTF8.toList then .ok manifestText
    else .error "stream did not contain valid UTF-8"
  fromStr text :=
    if text = manifestText then
      .ok ((manifestOfCreate env course alice id3 "b" owned).toJson writing.showTime)
    else .error "expected value at line 1 column 1"
  dateTime _ := none
  writable _ := true

def saved : Vault := (createBackup env course alice writing id3 "b" owned).1

theorem createBackup_owned : createBackup env course alice writing id3 "b" owned =
    (saved, .ok ⟨id3, alice, "completed", storagePathOf alice id3⟩) := rfl

/-- Only the backup is left. -/
def lost : Vault := { saved with shared := ⟨start, []⟩ }

theorem parseUuid_env (u : Uuid) : env.parseUuid u.text = some u := dif_pos u.canonical

theorem faithful_readingBack :
    Faithful env readingBack writing (manifestOfCreate env course alice id3 "b" owned) where
  uuid := parseUuid_env
  text := by simp [readingBack, writing]
  document := by simp [readingBack, writing]
  times := List.forall_mem_nil _

theorem fits_owned : (manifestOfCreate env course alice id3 "b" owned).Fits where
  entries := by decide
  versions := List.forall_mem_nil _
  shares := List.forall_mem_nil _

end Sample

open Pcos.Sample Sample

end Pcos.Backups
