import Pcos.Agent.Delta
import Pcos.Backend.Change
import Pcos.Foundations.Json

/-!
# Agent/Upload — one file, from the agent to the backend (`agent/src/sync.rs`, `handlers.rs`)

`Agent.uploadFile` is the client: a file of several chunks that was indexed with more than 1 MB goes
chunk by chunk, any other in one form.  The handlers below it are what the server makes of the
requests, from the wire to the service.

The chunks reach the server as they were cut.  But the two sides do not agree on the request that
comes after them: `ChunkedUploadRequest` requires a `total_size`, and the body that the client sends
has none.  So a file arrives exactly when it is sent as one form (`uploadFile_holds_iff`).
-/

namespace Pcos

open Foundations

/-! ## The wire -/

/-- A UUID in a string. -/
def asUuid (env : Env) (v : JsonValue) : Option Uuid := v.asString.bind env.parseUuid

/-- `Json<ChunkedUploadRequest>`. -/
def decodeChunkedUploadRequest (env : Env) (body : JsonObject) :
    Except DecodeError ChunkedUploadRequest := do
  let uploadId ← requiredField body "upload_id" (asUuid env)
  let filename ← requiredField body "filename" JsonValue.asString
  let parentId ← optionalField body "parent_id" (asUuid env)
  let totalSize ← requiredField body "total_size" (JsonValue.asInt 64)
  let totalChunks ← requiredField body "total_chunks" (JsonValue.asInt 32)
  pure ⟨uploadId, filename, parentId, totalSize, totalChunks⟩

/-- How the server answers a request it does not accept. -/
inductive HttpError
  | unprocessable (e : DecodeError)
  | failed (f : Failure)
  deriving DecidableEq, Repr

/-! ## The server's handlers -/

namespace Handlers

/-- `POST /api/v1/files/upload`, on a form of `length` bytes with one part `file`. -/
def uploadFile (env : Env) (c : Call) (length : ℕ) (filename contentType : String) (data : Bytes) :
    EStateM HttpError World FileEntryResponse := do
  ensure (length ≤ maxBody) (.failed (.error
    (.internal "Failed to read upload: Error parsing `multipart/form-data` request")))
  EStateM.adaptExcept .failed (Pcos.uploadFile env c none filename contentType data)

/-- `POST /api/v1/files/upload/chunk`.  Chunks are far below the limit on the body; their index is
parsed as an `i32`. -/
def uploadChunk (env : Env) (c : Call) (uploadId : String) (chunkIndex : ℕ) (data : Bytes) :
    EStateM HttpError World Unit := do
  let upload ← okOr (env.parseUuid uploadId) (.failed (.error (.validation "Invalid upload_id")))
  ensure (chunkIndex < 2 ^ 31) (.failed (.error (.validation "Invalid chunk_index")))
  EStateM.adaptExcept .failed (storeChunk c upload chunkIndex data)

/-- `POST /api/v1/files/upload/complete`. -/
def completeChunkedUpload (env : Env) (c : Call) (body : JsonObject) :
    EStateM HttpError World FileEntryResponse :=
  match decodeChunkedUploadRequest env body with
  | .ok req => EStateM.adaptExcept .failed (Pcos.completeChunkedUpload env c req)
  | .error e => throw (.unprocessable e)

end Handlers

/-! ## The client -/

/-- `Path::file_name`: the last component, unless that is `..`. -/
def fileName (path : String) : Option String :=
  let components := (path.toList.splitOn '/').filter fun s => s ≠ [] ∧ s ≠ ['.']
  (components.getLast?.filter (· ≠ ['.', '.'])).map String.ofList

/-- A file on the disk of the agent.  Filesystems bound the length of a name. -/
structure LocalFile where
  path : String
  content : Bytes
  fileName_le : ((fileName path).getD "").length ≤ 255

/-- The name that the server is told. -/
def LocalFile.filename (file : LocalFile) : String := (fileName file.path).getD ""

/-- How `upload_file` fails, with the answer of the server. -/
inductive UploadError
  | chunkUpload (index : ℕ) (e : HttpError)
  | completeUpload (e : HttpError)
  | upload (e : HttpError)
  deriving DecidableEq, Repr

/-- The body of the request that completes a chunked upload. -/
def completeBody (uploadId : Uuid) (filename : String) (totalChunks : ℕ) : JsonObject :=
  [("upload_id", .string uploadId.text), ("filename", .string filename),
    ("total_chunks", .number totalChunks)]

namespace Agent

/-- The loop of the chunked path: each chunk in a request of its own. -/
def sendChunks (env : Env) (c : Call) (uploadId : Uuid) (content : Bytes) :
    List ChunkInfo → EStateM UploadError World Unit
  | [] => pure ()
  | chunk :: rest => do
    EStateM.adaptExcept (.chunkUpload chunk.index)
      (Handlers.uploadChunk env c uploadId.text chunk.index (slice content chunk.range))
    sendChunks env c uploadId content rest

/-- The choice of path, by the chunks of the file and the size in the local database. -/
def sendsChunked (sha256 : Bytes → String) (content : Bytes) (size : ℤ) : Bool :=
  1 < (splitIntoChunks sha256 content).length && decide (1024 * 1024 < size)

/-- Upload a file, whose size in the local database is `size`, and return its remote id.  `c` is what
the request that creates the entry comes with, `uploadId` the new id of a chunked upload, and
`formLength` the length of the form that carries the file. -/
def uploadFile (env : Env) (formLength : String → Bytes → ℕ) (c : Call) (uploadId : Uuid)
    (file : LocalFile) (size : ℤ) : EStateM UploadError World String := do
  if sendsChunked env.sha256 file.content size then
    let chunks := splitIntoChunks env.sha256 file.content
    sendChunks env c uploadId file.content chunks
    let entry ← EStateM.adaptExcept .completeUpload
      (Handlers.completeChunkedUpload env c (completeBody uploadId file.filename chunks.length))
    pure entry.id.text
  else
    let entry ← EStateM.adaptExcept .upload
      (Handlers.uploadFile env c (formLength file.filename file.content) file.filename
        "application/octet-stream" file.content)
    pure entry.id.text

end Agent

/-! ## The chunks on the server

Up to its last request the chunked path is sound: the server holds, under their indexes, the chunks
that the client cut, and puts them together to what they cover. -/

namespace Agent

variable {env : Env} {c : Call} {uploadId : Uuid} {content : Bytes} {w : World}

/-- The chunk that the server has for an index. -/
def storedChunk (w : World) (c : Call) (uploadId : Uuid) (i : ℤ) : Option Bytes :=
  (w.chunkDirs c.user uploadId).bind fun chunks => chunks.lookup i

/-- The world after the chunks have been stored. -/
def afterChunks (c : Call) (uploadId : Uuid) (content : Bytes) (chunks : List ChunkInfo)
    (w : World) : World :=
  chunks.foldl (fun w ch => w.putChunk c.user uploadId ch.index (slice content ch.range)) w

/-- Every chunk request succeeds. -/
theorem wp_sendChunks (hid : env.parseUuid uploadId.text = some uploadId) {chunks : List ChunkInfo}
    (hindex : ∀ ch ∈ chunks, ch.index < 2 ^ 31) :
    wp (sendChunks env c uploadId content chunks)
      (fun _ w' => w' = afterChunks c uploadId content chunks w) (fun _ _ => False) w := by
  induction chunks generalizing w with
  | nil => rfl
  | cons ch chunks ih =>
    have h1 := hindex ch List.mem_cons_self
    simp only [sendChunks, Handlers.uploadChunk, storeChunk, wp_bind, wp_adaptExcept, wp_okOr, hid,
      wp_ensure, wp_modify, h1, decide_true]
    refine ⟨fun u hu => ⟨fun _ => ?_, ?_⟩, ?_⟩
    · cases hu
      exact ih fun ch' hch' => hindex ch' (List.mem_cons_of_mem _ hch')
    · rintro ⟨⟩
    · rintro ⟨⟩

/-- A stored chunk replaces the one of its index, and no other. -/
theorem storedChunk_putChunk (i j : ℤ) (data : Bytes) :
    storedChunk (w.putChunk c.user uploadId i data) c uploadId j
      = if j = i then some data else storedChunk w c uploadId j := by
  simp only [storedChunk, World.putChunk, and_self, if_true, Option.bind_some, List.lookup_cons]
  by_cases h : j = i
  · simp [h]
  · rw [if_neg h, beq_eq_false_iff_ne.mpr h, lookup_filter_ne h]
    cases w.chunkDirs c.user uploadId <;> rfl

theorem storedChunk_afterChunks_of_notMem {i : ℤ} {chunks : List ChunkInfo}
    (h : ∀ ch ∈ chunks, i ≠ ch.index) :
    storedChunk (afterChunks c uploadId content chunks w) c uploadId i
      = storedChunk w c uploadId i := by
  induction chunks generalizing w with
  | nil => rfl
  | cons ch chunks ih =>
    rw [afterChunks, List.foldl_cons]
    refine (ih fun ch' hch' => h ch' (List.mem_cons_of_mem _ hch')).trans ?_
    rw [storedChunk_putChunk, if_neg (h ch List.mem_cons_self)]

/-- **The server holds every chunk that was sent.** -/
theorem storedChunk_afterChunks {chunks : List ChunkInfo}
    (hnodup : (chunks.map ChunkInfo.index).Nodup) {ch : ChunkInfo} (hch : ch ∈ chunks) :
    storedChunk (afterChunks c uploadId content chunks w) c uploadId ch.index
      = some (slice content ch.range) := by
  induction chunks generalizing w with
  | nil => cases hch
  | cons ch' chunks ih =>
    obtain ⟨hnew, hnodup⟩ := List.nodup_cons.mp hnodup
    rw [afterChunks, List.foldl_cons]
    rcases List.mem_cons.mp hch with rfl | hch
    · have hother : ∀ ch' ∈ chunks, (ch.index : ℤ) ≠ ch'.index := fun ch' hch' heq =>
        hnew (List.mem_map.mpr ⟨ch', hch', (Int.ofNat_inj.mp heq).symm⟩)
      refine (storedChunk_afterChunks_of_notMem hother).trans ?_
      rw [storedChunk_putChunk, if_pos rfl]
    · exact ih hnodup hch

theorem readChunks_eq {chunks : List ChunkInfo} (acc : Bytes)
    (h : ∀ ch ∈ chunks, storedChunk w c uploadId ch.index = some (slice content ch.range)) :
    readChunks (w.chunkDirs c.user uploadId) (chunks.map fun ch => (ch.index : ℤ)) acc
      = .ok (acc ++ chunks.flatMap fun ch => slice content ch.range) := by
  induction chunks generalizing acc with
  | nil => simp [readChunks]
  | cons ch chunks ih =>
    have hch := h ch List.mem_cons_self
    rw [storedChunk] at hch
    rw [List.map_cons, readChunks, hch]
    simp only
    rw [ih (acc ++ slice content ch.range) fun ch' hch' => h ch' (List.mem_cons_of_mem _ hch'),
      List.flatMap_cons, List.append_assoc]

/-- **The server reassembles what the chunks cover.** -/
theorem readChunks_afterChunks {sha256 : Bytes → String} {stop : ℕ} {chunks : List ChunkInfo}
    (h : Emitted sha256 content stop chunks) :
    readChunks ((afterChunks c uploadId content chunks w).chunkDirs c.user uploadId)
      (chunkIndexes chunks.length) [] = .ok (content.take stop) := by
  have hindexes : chunkIndexes chunks.length = chunks.map fun ch => (ch.index : ℤ) := by
    rw [chunkIndexes, Int.toNat_natCast, ← h.index, List.map_map]
    rfl
  have hnodup : (chunks.map ChunkInfo.index).Nodup := h.index ▸ List.nodup_range
  rw [hindexes, readChunks_eq [] fun ch hch => storedChunk_afterChunks hnodup hch, List.nil_append]
  exact congrArg _ h.flatMap_eq

/-- **The chunks that are sent make up the file, unless the file ends on a cut.** -/
theorem wp_sendChunks_splitIntoChunks (hid : env.parseUuid uploadId.text = some uploadId)
    (hfew : (splitIntoChunks env.sha256 content).length ≤ 2 ^ 31) :
    wp (sendChunks env c uploadId content (splitIntoChunks env.sha256 content))
      (fun _ w' => readChunks (w'.chunkDirs c.user uploadId)
          (chunkIndexes (splitIntoChunks env.sha256 content).length) [] = .ok content
        ↔ ¬ EndsOnCut content) (fun _ _ => False) w := by
  have hindex : ∀ ch ∈ splitIntoChunks env.sha256 content, ch.index < 2 ^ 31 := by
    intro ch hch
    obtain ⟨stop, -, hem⟩ := exists_emitted env.sha256 content
    have hmem := List.mem_map_of_mem (f := ChunkInfo.index) hch
    rw [hem.index, List.mem_range] at hmem
    omega
  refine wp_mono (wp_sendChunks hid hindex) ?_ fun _ _ => id
  rintro _ w' rfl
  constructor
  · intro hread hcut
    rw [readChunks_afterChunks (emitted_of_endsOnCut hcut), Except.ok.injEq] at hread
    have hlen := congrArg List.length hread
    rw [List.length_take] at hlen
    have := hcut.1
    omega
  · intro hcut
    rw [readChunks_afterChunks (emitted_of_not_endsOnCut env.sha256 hcut).1, List.take_length]

end Agent

/-! ## What is stored -/

/-- The server is ready for the file: the user exists, has room for it and no live entry of its name
in the root, the table is migrated, and the new id is new. -/
structure Ready (w : World) (c : Call) (file : LocalFile) : Prop where
  columns : fileColumns ⊆ w.columns
  user : (w.users c.user).isSome
  fresh : ∀ r ∈ w.entries.rows, r.id ≠ c.newId
  room : withinQuota w c.user file.content.length = true
  free : nameTaken w c.user none file.filename none = false

/-- **The entry of that id holds the file**: its bytes, their length and their hash, live in the
root of the user under the name of the file. -/
def Holds (env : Env) (c : Call) (file : LocalFile) (remoteId : String) (w : World) : Prop :=
  ∃ r ∈ w.entries.rows, r.id.text = remoteId ∧ r.userId = c.user ∧ r.parentId = none
    ∧ r.name = file.filename ∧ r.entryType = .file ∧ r.isTrashed = false
    ∧ r.sizeBytes = file.content.length ∧ r.sha256Hash = some (env.sha256 file.content)
    ∧ ∃ path, r.storagePath = some path ∧ w.blobs path = some file.content

/-- The row that the form of a file creates. -/
def uploadedRow (env : Env) (c : Call) (file : LocalFile) : FileEntry :=
  newFile c none file.filename (some "application/octet-stream") file.content.length
    (some (env.sha256 file.content)) (filePath c.user c.newId)

variable {env : Env} {formLength : String → Bytes → ℕ} {c : Call} {uploadId : Uuid}
  {file : LocalFile} {size : ℤ} {w : World}

/-- A server that is ready accepts that row. -/
theorem Ready.accepts (h : Ready w c file) (data : Bytes) :
    (w.putBlob (filePath c.user c.newId) data).Accepts fileColumns (uploadedRow env c file) := by
  refine ⟨h.columns, h.user, w.entries.valid.concat h.fresh rfl (fun r hr hkey => ?_) ⟨?_, ?_, ?_⟩⟩
  · obtain ⟨huser, hparent, hname, htrash⟩ : r.userId = c.user ∧ r.parentId = none
        ∧ r.name = file.filename ∧ r.isTrashed = false := by
      simpa [FileEntry.key, uploadedRow, newFile] using hkey
    have hfree := List.any_eq_false.mp h.free r hr
    simp [huser, hparent, hname, htrash] at hfree
  · exact file.fileName_le
  · intro m hm
    cases hm
    decide
  · intro s hs
    cases hs
    exact Nat.le_of_eq (env.length_sha256 _)

/-- **The service stores the form of a file as it is.** -/
theorem wp_uploadFile_of_ready (h : Ready w c file) :
    wp (uploadFile env c none file.filename "application/octet-stream" file.content)
      (fun entry => Holds env c file entry.id.text) (fun _ _ => False) w := by
  simp only [uploadFile, admitUpload, storeUpload, storeFile, wp_bind, wp_modify, wp_verifyParent,
    wp_checkStorageQuota, wp_insertEntry, wp_pure]
  refine ⟨fun _ => ⟨fun _ => ⟨fun t _ ht => ?_, fun hno => hno (h.accepts _)⟩, fun hfull => ?_⟩,
    fun hno => hno (fun p hp => by cases hp)⟩
  · refine ⟨uploadedRow env c file, ?_, rfl, rfl, rfl, rfl, rfl, rfl, rfl, rfl, _, rfl, if_pos rfl⟩
    exact (FileTable.mem_insert ht).mpr (Or.inr rfl)
  · rw [h.room] at hfull
    cases hfull

namespace Agent

/-- The server refuses the body that completes a chunked upload. -/
theorem decode_completeBody (env : Env) (uploadId : Uuid) (filename : String) (n : ℕ) :
    ∃ e, decodeChunkedUploadRequest env (completeBody uploadId filename n) = .error e := by
  cases hid : env.parseUuid uploadId.text with
  | none =>
    refine ⟨.invalidField "upload_id", ?_⟩
    simp [decodeChunkedUploadRequest, requiredField, completeBody, asUuid,
      JsonValue.asString, hid]
    rfl
  | some u =>
    refine ⟨.missingField "total_size", ?_⟩
    simp [decodeChunkedUploadRequest, requiredField, optionalField, completeBody, asUuid,
      JsonValue.asString, hid]
    rfl

/-- A chunked upload fails on its last request. -/
theorem sends_of_holds
    (hok : wp (uploadFile env formLength c uploadId file size) (Holds env c file)
      (fun _ _ => False) w) : sendsChunked env.sha256 file.content size = false := by
  cases hpath : sendsChunked env.sha256 file.content size with
  | false => rfl
  | true =>
    obtain ⟨e, he⟩ := decode_completeBody env uploadId file.filename
      (splitIntoChunks env.sha256 file.content).length
    simp only [uploadFile, hpath, if_true, wp_bind, wp_adaptExcept, Handlers.completeChunkedUpload,
      he, wp_throw] at hok
    exact absurd hok (not_wp_false _)

/-- **Uploading a file preserves its content exactly when it is sent as one form that fits the limit
on the body.** -/
theorem uploadFile_holds_iff (h : Ready w c file) :
    wp (uploadFile env formLength c uploadId file size) (Holds env c file) (fun _ _ => False) w
      ↔ sendsChunked env.sha256 file.content size = false
        ∧ formLength file.filename file.content ≤ maxBody := by
  have hform : sendsChunked env.sha256 file.content size = false →
      (wp (uploadFile env formLength c uploadId file size) (Holds env c file) (fun _ _ => False) w
        ↔ formLength file.filename file.content ≤ maxBody) := by
    intro hpath
    simp only [uploadFile, hpath, Bool.false_eq_true, if_false, wp_bind, wp_adaptExcept,
      Handlers.uploadFile, wp_ensure, wp_pure, decide_eq_true_eq, decide_eq_false_iff_not]
    exact ⟨fun hok => not_not.mp hok.2, fun hle => ⟨fun _ => wp_uploadFile_of_ready h, absurd hle⟩⟩
  exact ⟨fun hok => ⟨sends_of_holds hok, (hform (sends_of_holds hok)).mp hok⟩,
    fun h => (hform h.1).mpr h.2⟩

/-- A file whose size in the local database is current is sent as one form only if it is small. -/
theorem length_le_of_not_sendsChunked {sha256 : Bytes → String} {content : Bytes}
    (h : sendsChunked sha256 content content.length = false) : content.length ≤ maxChunk + 1 := by
  by_contra hlong
  have hchunks := one_lt_length_splitIntoChunks sha256 (Nat.lt_of_not_le hlong)
  have hsize : (content.length : ℤ) ≤ 1048576 := by simpa [sendsChunked, hchunks] using h
  simp only [maxChunk] at hlong
  omega

/-- **A file of more than 1 MB never gets through**, when its size in the local database is
current. -/
theorem not_holds_of_long (hlong : maxChunk + 1 < file.content.length) :
    ¬ wp (uploadFile env formLength c uploadId file file.content.length) (Holds env c file)
      (fun _ _ => False) w := by
  intro hok
  have := length_le_of_not_sendsChunked (sends_of_holds hok)
  omega

/-! ### A file of zeros, and a file of one byte -/

/-- The length of a form with one part, apart from its file name and its bytes. -/
def formFraming : ℕ := 246

def zeros : LocalFile where
  path := "/home/alice/zeros"
  content := List.replicate (maxChunk + 2) 0
  fileName_le := by decide

def letter : LocalFile where
  path := "/home/alice/letter"
  content := [0x61]
  fileName_le := by decide

/-- The request of the agent of `alice`. -/
def aliceCall : Call := ⟨Sample.alice, 1, Sample.id1, Sample.tmp, 0⟩

/-- The server as it starts is ready for a file below the quota. -/
theorem ready_start (file : LocalFile) (h : (file.content.length : ℤ) ≤ defaultQuota) :
    Ready Sample.start aliceCall file where
  columns := by decide
  user := by decide
  fresh r hr := absurd hr List.not_mem_nil
  room := by
    have hused : usedBytes Sample.start aliceCall.user = 0 := by decide
    have hquota : quotaLimit Sample.start aliceCall.user = defaultQuota := by decide
    rw [withinQuota, hused, hquota, decide_eq_true_eq, Int.zero_add, wrapI64,
      Int.bmod_eq_of_le (by omega) (by simp only [defaultQuota] at h; omega)]
    exact h
  free := rfl

/-- **A file of 1 MB and two bytes is never uploaded**, although the server is ready for it. -/
theorem not_holds_zeros :
    Ready Sample.start aliceCall zeros
      ∧ ¬ wp (uploadFile Sample.env (fun name data => formFraming + name.utf8ByteSize + data.length)
          aliceCall Sample.id2 zeros zeros.content.length) (Holds Sample.env aliceCall zeros)
          (fun _ _ => False) Sample.start := by
  have hlen : zeros.content.length = maxChunk + 2 := List.length_replicate
  exact ⟨ready_start zeros (by rw [hlen]; decide), not_holds_of_long (by rw [hlen]; omega)⟩

/-- **A file of one byte is.** -/
theorem holds_letter :
    Ready Sample.start aliceCall letter
      ∧ wp (uploadFile Sample.env (fun name data => formFraming + name.utf8ByteSize + data.length)
          aliceCall Sample.id2 letter 1) (Holds Sample.env aliceCall letter)
          (fun _ _ => False) Sample.start :=
  ⟨ready_start letter (by decide),
    (uploadFile_holds_iff (ready_start letter (by decide))).mpr ⟨by decide, by decide⟩⟩

end Agent

end Pcos
