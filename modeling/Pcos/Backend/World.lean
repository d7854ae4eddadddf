import Pcos.Backend.FileEntries
import Pcos.Foundations.Digest
import Pcos.Foundations.Wp

/-!
# Backend/World — what the file handlers read and write

The handlers share a database and a directory of files.  `World` holds what they use of both: the
`file_entries` and `file_versions` tables, the quotas of `users`, the stored files by their path
relative to the base path, and the chunk directories of open uploads.  A handler is a state
transformer that keeps what it has written when it fails: a blob stays when the row after it is
refused.

Names of columns matter in one place.  An `INSERT` is refused when it names a column that the table
does not have, and `migratedColumns` are those that the migrations create.
-/

namespace Pcos

open Foundations

/-- The columns of `file_entries` that statements name. -/
inductive Column
  | id
  | userId
  | parentId
  | name
  | entryType
  | mimeType
  | sizeBytes
  | sha256Hash
  | storagePath
  | isTrashed
  | trashedAt
  | isFavorite
  | createdAt
  | updatedAt
  deriving DecidableEq, Repr

/-- The columns that the migrations create. -/
def migratedColumns : List Column :=
  [.id, .userId, .parentId, .name, .entryType, .mimeType, .sizeBytes, .sha256Hash, .storagePath,
    .isTrashed, .trashedAt, .createdAt, .updatedAt]

/-- A row of `file_versions`. -/
structure FileVersion where
  id : Uuid
  fileEntryId : Uuid
  versionNumber : ℤ
  sizeBytes : ℤ
  sha256Hash : Option String
  storagePath : String
  createdBy : Uuid
  createdAt : ℤ
  deriving DecidableEq

structure World where
  columns : List Column
  /-- `storage_quota_bytes` of the users there are. -/
  users : Uuid → Option ℤ
  entries : FileTable
  versions : List FileVersion
  /-- The stored files, by path relative to the base path. -/
  blobs : String → Option Bytes
  /-- The chunk directories, by user and upload, with the chunks in them. -/
  chunkDirs : Uuid → Uuid → Option (List (ℤ × Bytes))

/-- What the handlers take from other crates: SHA-256 in hexadecimal, `Uuid::parse_str`, the base64
decoder and the table of media types by file name. -/
structure Env where
  sha256 : Bytes → String
  length_sha256 : ∀ data, (sha256 data).length = 64
  parseUuid : String → Option Uuid
  base64Decode : String → Option Bytes
  mimeGuess : String → Option String

/-- What the database reports when it refuses a statement. -/
inductive SqlError
  | undefinedColumn
  | constraintViolation
  deriving DecidableEq, Repr

/-- The errors of the handlers (`common/src/error.rs`).  An internal error reports a text of the
code or passes on one of the database. -/
inductive AppError
  | notFound (message : String)
  | validation (message : String)
  | conflict (message : String)
  | internal (message : String)
  | internalSql (e : SqlError)
  | database (e : SqlError)
  deriving DecidableEq, Repr

/-- A request that does not end well reports an error, or never ends. -/
inductive Failure
  | error (e : AppError)
  | hang
  deriving DecidableEq, Repr

abbrev Handler := EStateM Failure World

/-- What a request comes with: the authenticated user, the time, the UUIDs that `Uuid::new_v4` will
return for a new file and for a temporary one, and which of several matching rows a `LIMIT 1`
without an `ORDER BY` will return. -/
structure Call where
  user : Uuid
  now : ℤ
  newId : Uuid
  tmpId : Uuid
  scan : ℕ
  deriving DecidableEq

namespace World

/-- No entries and no files. -/
def empty (columns : List Column) (users : Uuid → Option ℤ) : World where
  columns := columns
  users := users
  entries := .empty
  versions := []
  blobs _ := none
  chunkDirs _ _ := none

def putBlob (w : World) (path : String) (data : Bytes) : World :=
  { w with blobs := fun p => if p = path then some data else w.blobs p }

def dropBlobs (w : World) (paths : List String) : World :=
  { w with blobs := fun p => if p ∈ paths then none else w.blobs p }

def putChunk (w : World) (user upload : Uuid) (index : ℤ) (data : Bytes) : World :=
  { w with chunkDirs := fun u d =>
      if u = user ∧ d = upload then
        some ((index, data) :: ((w.chunkDirs u d).getD []).filter fun c => c.1 ≠ index)
      else w.chunkDirs u d }

def dropChunks (w : World) (user upload : Uuid) : World :=
  { w with chunkDirs := fun u d => if u = user ∧ d = upload then none else w.chunkDirs u d }

/-- `SELECT … WHERE id = $1 AND user_id = $2`. -/
def owned (w : World) (user item : Uuid) : Option FileEntry :=
  w.entries.rows.find? fun r => r.id = item && r.userId = user

theorem owned_eq_some {w : World} {user item : Uuid} {r : FileEntry} :
    w.owned user item = some r ↔ r ∈ w.entries.rows ∧ r.id = item ∧ r.userId = user := by
  constructor
  · intro h
    have hr := List.find?_some h
    rw [Bool.and_eq_true, decide_eq_true_eq, decide_eq_true_eq] at hr
    exact ⟨List.mem_of_find?_eq_some h, hr⟩
  · rintro ⟨hr, rfl, rfl⟩
    cases hf : w.owned r.userId r.id with
    | none => exact absurd (List.find?_eq_none.mp hf r hr) (by simp)
    | some r' =>
      have hr' := List.find?_some hf
      rw [Bool.and_eq_true, decide_eq_true_eq, decide_eq_true_eq] at hr'
      rw [FileTable.eq_of_id (List.mem_of_find?_eq_some hf) hr hr'.1]

theorem owned_isSome {w : World} {user item : Uuid} :
    (w.owned user item).isSome ↔ ∃ r ∈ w.entries.rows, r.id = item ∧ r.userId = user := by
  simp only [Option.isSome_iff_exists, owned_eq_some]

/-- An `INSERT` that names these columns accepts this row. -/
def Accepts (w : World) (cols : List Column) (r : FileEntry) : Prop :=
  cols ⊆ w.columns ∧ (w.users r.userId).isSome ∧ Valid (w.entries.rows ++ [r])

instance (w : World) (cols : List Column) (r : FileEntry) : Decidable (w.Accepts cols r) :=
  inferInstanceAs (Decidable (_ ∧ _ ∧ _))

end World

/-- Taking the chunks of one index away leaves the others. -/
theorem lookup_filter_ne {i j : ℤ} (h : j ≠ i) (chunks : List (ℤ × Bytes)) :
    (chunks.filter fun ch => ch.1 ≠ i).lookup j = chunks.lookup j := by
  induction chunks with
  | nil => rfl
  | cons ch chunks ih =>
    obtain ⟨k, data⟩ := ch
    by_cases hk : k = i
    · have hj : (j == k) = false := by rw [hk, beq_eq_false_iff_ne]; exact h
      rw [List.filter_cons_of_neg (by simp [hk]), ih, List.lookup_cons, hj]
    · rw [List.filter_cons_of_pos (by simp [hk]), List.lookup_cons, List.lookup_cons, ih]

/-! ## Statements -/

/-- `INSERT INTO file_entries`, with what its error is reported as. -/
def insertEntry (report : SqlError → AppError) (cols : List Column) (r : FileEntry) :
    Handler Unit := do
  let w ← get
  ensure (cols ⊆ w.columns) (.error (report .undefinedColumn))
  ensure (w.users r.userId).isSome (.error (report .constraintViolation))
  let t ← okOr (w.entries.insert r) (.error (report .constraintViolation))
  set { w with entries := t }

/-- `UPDATE file_entries`. -/
def updateEntries (report : SqlError → AppError) (p : FileEntry → Bool)
    (f : FileEntry → FileEntry) : Handler Unit := do
  let w ← get
  let t ← okOr (w.entries.update p f) (.error (report .constraintViolation))
  set { w with entries := t }

/-- `DELETE FROM file_entries`, with both cascades; the number of rows that match. -/
def deleteEntries (p : FileEntry → Bool) : Handler ℕ := do
  let w ← get
  let t := w.entries.delete p
  set { w with
    entries := t
    versions := w.versions.filter fun v => v.fileEntryId ∈ t.rows.map FileEntry.id }
  pure (w.entries.rows.countP p)

section Rules

variable {Q : Unit → World → Prop} {P : World → Prop} {w : World} {report : SqlError → AppError}
  {cols : List Column} {r : FileEntry} {p : FileEntry → Bool} {f : FileEntry → FileEntry}

/-- An insert adds the row, or reports an error and changes nothing. -/
@[simp] theorem wp_insertEntry : wp (insertEntry report cols r) Q (fun _ => P) w ↔
    (∀ t, w.Accepts cols r → w.entries.insert r = some t → Q () { w with entries := t })
      ∧ (¬ w.Accepts cols r → P w) := by
  simp only [insertEntry, wp_bind, wp_get, wp_ensure, wp_okOr, wp_set, decide_eq_true_eq,
    decide_eq_false_iff_not]
  by_cases hc : cols ⊆ w.columns
  swap
  · exact ⟨fun h => ⟨fun t hacc => absurd hacc.1 hc, fun _ => h.2 hc⟩,
      fun h => ⟨fun hc' => absurd hc' hc, fun _ => h.2 fun hacc => hc hacc.1⟩⟩
  cases hu : (w.users r.userId).isSome
  · simp [hc, hu, World.Accepts]
  · by_cases hv : Valid (w.entries.rows ++ [r])
    · have hins : w.entries.insert r = some ⟨_, hv⟩ := FileTable.commit_of_valid hv
      simp [hc, hu, hv, hins, World.Accepts]
    · have hins : w.entries.insert r = none := dif_neg hv
      simp [hc, hu, hv, hins, World.Accepts]

/-- An update rewrites the rows, or reports an error and changes nothing. -/
@[simp] theorem wp_updateEntries : wp (updateEntries report p f) Q (fun _ => P) w ↔
    (∀ t, w.entries.update p f = some t → Q () { w with entries := t })
      ∧ (w.entries.update p f = none → P w) := by
  simp only [updateEntries, wp_bind, wp_get, wp_okOr, wp_set]

end Rules

end Pcos
