import Mathlib.Algebra.Order.Group.Int
import Pcos.Backend.Concurrency
import Pcos.Backend.Integrity
import Pcos.Foundations.Sums

/-!
# Backend/Quota — what the quota bounds

`check_storage_quota` adds up the sizes that the rows record.  They bound the files from above as long
as no request understates a size (`Accounted.covered`), and their sum stays within the quota as long
as every write would pass the check at the moment it happens.  The code does not see to that: the
gateways, `restore_from_trash` and `finalize_transfer` do not check, `complete_chunked_upload` checks
a number that the client sends, and the check of an upload can be out of date when it writes.
-/

namespace Pcos

open Foundations

/-- The length of the file of an entry. -/
def fileSize (w : World) (r : FileEntry) : ℕ := ((contentOf w r).map List.length).getD 0

/-- **The bytes in the live files of a user.** -/
def actualBytes (w : World) (user : Uuid) : ℤ :=
  ((w.entries.rows.filter fun r => r.userId = user && !r.isTrashed).map
    fun r => (fileSize w r : ℤ)).sum

/-- **Every user is within the quota.** -/
def QuotaKept (w : World) : Prop :=
  ∀ user quota, w.users user = some quota → actualBytes w user ≤ quota

/-- **The books are in order**: the database is as the migrations leave it, quotas are 64-bit
integers, every entry has a path of its own, and its size is that of its file. -/
structure InOrder (w : World) : Prop where
  shaped : Shaped w
  schema : w.columns = migratedColumns
  quotas : ∀ user quota, w.users user = some quota → quota < 2 ^ 63
  exact_sizes : ∀ r ∈ w.entries.rows, r.sizeBytes = fileSize w r

/-! ## Which steps keep within the quota -/

/-- The write passes `check_storage_quota`, and the sum in the check does not overflow. -/
def quotaAllows (w : World) (user : Uuid) (bytes : ℤ) : Bool :=
  withinQuota w user bytes && decide (usedBytes w user + bytes < 2 ^ 63)

/-- The client has announced at least as many bytes as its chunks have. -/
def announced (w : World) (c : Call) (req : ChunkedUploadRequest) : Bool :=
  match readChunks (w.chunkDirs c.user req.uploadId) (chunkIndexes req.totalChunks) [] with
  | .ok data => data.length ≤ req.totalSize
  | .error _ => true

/-- The recorded size of the entry that a `PUT` replaces. -/
def replacedBytes (w : World) (e : Event) : ℤ := (putTarget w e).elim 0 FileEntry.sizeBytes

/-- The recorded sizes of what a restore takes out of a user's trash. -/
def restoredBytes (w : World) (user : Uuid) (ids : List Uuid) : ℤ :=
  ((w.entries.rows.filter fun r => r.id ∈ ids && (r.userId = user && r.isTrashed)).map
    FileEntry.sizeBytes).sum

/-- **The request stays within the quota**: what it adds, which the code does not check or takes from
the client, would pass the check. -/
def heedsQuota (env : Env) (w : World) (e : Event) : Bool :=
  match e.request with
  | .uploadFile _ _ _ data => decide (usedBytes w e.call.user + data.length < 2 ^ 63)
  | .completeChunkedUpload req =>
    decide (usedBytes w e.call.user + req.totalSize < 2 ^ 63) && announced w e.call req
  | .webdavPut _ _ data => quotaAllows w e.call.user (data.length - replacedBytes w e)
  | .putObject _ _ data => quotaAllows w e.call.user (data.length - replacedBytes w e)
  | .webdavCopy path (some _) =>
    (resolvePath w e.call.user path).2.all fun r =>
      r.entryType = .folder || quotaAllows w e.call.user r.sizeBytes
  | .restoreFromTrash item =>
    (w.entries.descendants e.call.user item).all fun ids =>
      w.entries.rows.all fun r => quotaAllows w r.userId (restoredBytes w r.userId ids)
  | .finalizeTransfer transferId _ =>
    (transferUuid env transferId).all fun file => (w.owned e.call.user file).all fun entry =>
      entry.isTrashed || (w.chunkDirs e.call.user file).all fun chunks =>
        match readChunks (some chunks) (chunkIndexes chunks.length) [] with
        | .ok data => quotaAllows w e.call.user (data.length - entry.sizeBytes)
        | .error _ => true
  | _ => true

/-- **The request leaves a file longer than its entry says**: a `PUT` whose media type does not fit or
a `finalize_transfer` that rejects the client's hash, which have replaced the file before; or a
`finalize_transfer` without chunks, which points the entry at a file left from before. -/
def understates (env : Env) (w : World) (e : Event) : Bool :=
  match e.request with
  | .webdavPut path contentType data =>
    mimeTooLong (putMime env contentType (entryName path))
      && (putTarget w e).any fun r => decide (r.sizeBytes < (data.length : ℤ))
  | .putObject key contentType data =>
    mimeTooLong (putMime env contentType (entryName key))
      && (putTarget w e).any fun r => decide (r.sizeBytes < (data.length : ℤ))
  | .finalizeTransfer transferId clientHash =>
    (transferUuid env transferId).any fun file => (w.owned e.call.user file).any fun entry =>
      match w.chunkDirs e.call.user file with
      | none =>
        (w.blobs (flatPath e.call.user file)).any fun data =>
          decide (entry.sizeBytes < (data.length : ℤ))
      | some [] => (w.blobs (flatPath e.call.user file)).any fun data => 0 < data.length
      | some chunks =>
        match readChunks (some chunks) (chunkIndexes chunks.length) [] with
        | .ok data =>
          hashMismatch clientHash (env.sha256 data) && decide (entry.sizeBytes < (data.length : ℤ))
        | .error _ => false
  | _ => false

/-- The check of a pending request still passes, and on the right number. -/
def checkStands (w : World) (e : Event) : Bool :=
  match e.request with
  | .uploadFile _ _ _ data => quotaAllows w e.call.user data.length
  | .completeChunkedUpload req => quotaAllows w e.call.user req.totalSize && announced w e.call req
  | _ => true

/-- **The condition on a step**: a request that runs as a whole stays within the quota and understates
no size, and the check of one that writes still stands. -/
def Server.heeds (env : Env) (s : Server) : Action → Bool
  | .run e => heedsQuota env s.world e && !understates env s.world e
  | .check _ => true
  | .commit i => s.pending[i]?.all (checkStands s.world)

/-! ## Adding up -/

/-- What an entry counts for a user: its recorded size, while it is live. -/
def weight (user : Uuid) (r : FileEntry) : ℤ :=
  if r.userId = user && !r.isTrashed then r.sizeBytes else 0

/-- What the table adds up to. -/
def FileTable.total (t : FileTable) (user : Uuid) : ℤ := (t.rows.map (weight user)).sum

theorem sumSizes_eq (w : World) (user : Uuid) : sumSizes w user = w.entries.total user :=
  sum_map_filter _ _ _

namespace FileTable

variable {t t' : FileTable} {r : FileEntry} {p : FileEntry → Bool} {f : FileEntry → FileEntry}
  {user : Uuid}

theorem total_insert (h : t.insert r = some t') : t'.total user = t.total user + weight user r := by
  rw [total, rows_of_insert h, List.map_append, List.sum_append, List.map_singleton,
    List.sum_singleton]
  rfl

theorem total_update (h : t.update p f = some t') :
    t'.total user = (t.rows.map fun r => weight user (if p r then f r else r)).sum := by
  rw [total, rows_of_update h, List.map_map]
  rfl

/-- An update that makes no entry count for more. -/
theorem total_update_le (h : t.update p f = some t')
    (hf : ∀ r ∈ t.rows, p r = true → weight user (f r) ≤ weight user r) :
    t'.total user ≤ t.total user := by
  rw [total_update h]
  refine List.sum_le_sum fun r hr => ?_
  split
  · next hp => exact hf r hr hp
  · exact le_rfl

/-- An update of one entry. -/
theorem total_update_one (h : t.update p f = some t') (hr : r ∈ t.rows) (hp : p r = true)
    (hid : ∀ r', p r' = true → r'.id = r.id) (user : Uuid) :
    t'.total user = t.total user + (weight user (f r) - weight user r) := by
  rw [total_update h, sum_map_of_eq_off (List.Nodup.of_map _ t.valid.pk) hr fun r' hr' hne =>
    congrArg (weight user) (if_neg fun hp' => hne (eq_of_id hr' hr (hid r' hp'))), if_pos hp]
  rfl

theorem total_delete_le (h : ∀ r ∈ t.rows, 0 ≤ weight user r) :
    (t.delete p).total user ≤ t.total user :=
  sum_map_filter_le _ h

end FileTable

/-- **The invariant**: recorded sizes bound the files, and add up to at most the quota. -/
structure Accounted (w : World) : Prop where
  shaped : Shaped w
  schema : .isFavorite ∉ w.columns
  quotas : ∀ user quota, w.users user = some quota → quota < 2 ^ 63
  covered : ∀ r ∈ w.entries.rows, (fileSize w r : ℤ) ≤ r.sizeBytes
  recorded : ∀ user quota, w.users user = some quota → sumSizes w user ≤ quota

section Accounts

variable {env : Env} {w w' : World} {e : Event} {r r' : FileEntry} {t : FileTable} {user : Uuid}
  {quota n : ℤ}

theorem InOrder.accounted (h : InOrder w) (hkept : QuotaKept w) : Accounted w where
  shaped := h.shaped
  schema := by
    rw [h.schema]
    decide
  quotas := h.quotas
  covered r hr := Int.le_of_eq (h.exact_sizes r hr).symm
  recorded user quota hquota := by
    have hsum : sumSizes w user = actualBytes w user :=
      congrArg List.sum (List.map_congr_left fun r hr => h.exact_sizes r (List.mem_of_mem_filter hr))
    rw [hsum]
    exact hkept user quota hquota

namespace Accounted

theorem quotaKept (h : Accounted w) : QuotaKept w := by
  intro user quota hquota
  refine le_trans (List.sum_le_sum fun r hr => ?_) (h.recorded user quota hquota)
  exact h.covered r (List.mem_of_mem_filter hr)

theorem size_nonneg (h : Accounted w) (hr : r ∈ w.entries.rows) : 0 ≤ r.sizeBytes :=
  le_trans (Int.natCast_nonneg _) (h.covered r hr)

theorem weight_nonneg (h : Accounted w) (user : Uuid) (hr : r ∈ w.entries.rows) :
    0 ≤ weight user r := by
  unfold weight
  split
  · exact h.size_nonneg hr
  · exact le_rfl

/-- What the database adds up fits 64 bits. -/
theorem usedBytes_eq (h : Accounted w) (hquota : w.users user = some quota) :
    usedBytes w user = sumSizes w user ∧ 0 ≤ sumSizes w user ∧ sumSizes w user < 2 ^ 63 := by
  have h0 : 0 ≤ sumSizes w user := by
    rw [sumSizes_eq]
    refine List.sum_nonneg fun x hx => ?_
    obtain ⟨r, hr, rfl⟩ := List.mem_map.mp hx
    exact h.weight_nonneg user hr
  have h1 : sumSizes w user < 2 ^ 63 :=
    lt_of_le_of_lt (h.recorded user quota hquota) (h.quotas user quota hquota)
  refine ⟨if_pos ?_, h0, h1⟩
  exact Int.bmod_eq_of_le (by omega) (by omega)

theorem quotaAllows_iff : quotaAllows w user n = true ↔
    withinQuota w user n = true ∧ usedBytes w user + n < 2 ^ 63 := by
  rw [quotaAllows, Bool.and_eq_true, decide_eq_true_eq]

/-- **A write that the check allows keeps the sum within the quota.** -/
theorem add_le (h : Accounted w) (hquota : w.users user = some quota)
    (hn : quotaAllows w user n = true) : sumSizes w user + n ≤ quota := by
  obtain ⟨hused, h0, -⟩ := h.usedBytes_eq hquota
  rw [quotaAllows_iff, withinQuota, decide_eq_true_eq, hused, quotaLimit, hquota,
    Option.getD_some] at hn
  have hrec := h.recorded user quota hquota
  rcases Int.lt_or_le (sumSizes w user + n) 0 with hneg | hpos
  · omega
  · rwa [wrapI64, Int.bmod_eq_of_le (by omega) (by omega), and_iff_left (by omega)] at hn

end Accounted

/-! ## Files stay covered -/

theorem fileSize_congr (hpath : r'.storagePath = r.storagePath)
    (htype : r'.entryType = r.entryType)
    (hblobs : ∀ path ∈ r.storagePath, w'.blobs path = w.blobs path) :
    fileSize w' r' = fileSize w r := by
  unfold fileSize contentOf
  rw [hpath, htype]
  cases hp : r.storagePath with
  | none => rfl
  | some path =>
    have hblob := hblobs path hp
    cases r.entryType with
    | folder => rfl
    | file => rw [Option.bind_some, Option.bind_some, hblob]

theorem fileSize_putBlob {path : String} {data : Bytes} (hne : r.storagePath ≠ some path) :
    fileSize (w.putBlob path data) r = fileSize w r := by
  refine fileSize_congr rfl rfl fun path' hp' => if_neg ?_
  rintro rfl
  exact hne hp'

/-- Files that are removed leave none that is longer. -/
theorem fileSize_mono (hblobs : ∀ path data, w'.blobs path = some data → w.blobs path = some data) :
    fileSize w' r ≤ fileSize w r := by
  unfold fileSize contentOf
  cases r.entryType with
  | folder => exact le_rfl
  | file =>
    cases r.storagePath with
    | none => exact le_rfl
    | some path =>
      simp only [Option.bind_some]
      cases hb : w'.blobs path with
      | none => exact Nat.zero_le _
      | some data => rw [hblobs path data hb]

/-- The file of an entry is no longer than what is at its path. -/
theorem fileSize_le {path : String} (hpath : r.storagePath = some path) (hn : 0 ≤ n)
    (hdata : ∀ data, w.blobs path = some data → (data.length : ℤ) ≤ n) : (fileSize w r : ℤ) ≤ n := by
  unfold fileSize contentOf
  rw [hpath]
  cases r.entryType with
  | folder => exact hn
  | file =>
    rw [Option.bind_some]
    cases hblob : w.blobs path with
    | none => exact hn
    | some data => exact hdata data hblob

namespace Accounted

theorem ownPath (h : Accounted w) (hr : r ∈ w.entries.rows) {path : String}
    (hp : path ∈ r.storagePath) : OwnPath r path :=
  (h.shaped.paths r hr path hp).resolve_right fun hno => h.schema hno.2

theorem ownTarget (h : Accounted w) (hr : r ∈ w.entries.rows) : OwnPath r r.target :=
  (h.shaped.target hr).resolve_right fun hno => h.schema hno.2

/-- A file is written that is not longer than its entry, if it has one, says. -/
theorem covered_putBlob (h : Accounted w) {path : String} {data : Bytes}
    (hdata : ∀ r ∈ w.entries.rows, OwnPath r path → (data.length : ℤ) ≤ r.sizeBytes)
    (hr : r ∈ w.entries.rows) : (fileSize (w.putBlob path data) r : ℤ) ≤ r.sizeBytes := by
  by_cases hp : r.storagePath = some path
  · refine fileSize_le hp (h.size_nonneg hr) fun d hd => ?_
    obtain rfl : data = d := by simpa [World.putBlob] using hd
    exact hdata r hr (h.ownPath hr hp)
  · rw [fileSize_putBlob hp]
    exact h.covered r hr

/-- An update that keeps paths, types and sizes. -/
theorem covered_update (h : Accounted w) {p : FileEntry → Bool} {f : FileEntry → FileEntry}
    (ht : w.entries.update p f = some t) (hpath : ∀ r, (f r).storagePath = r.storagePath)
    (htype : ∀ r, (f r).entryType = r.entryType) (hsize : ∀ r, (f r).sizeBytes = r.sizeBytes)
    (hblobs : w'.blobs = w.blobs) : ∀ r ∈ t.rows, (fileSize w' r : ℤ) ≤ r.sizeBytes := by
  have hold : ∀ r ∈ w.entries.rows, (fileSize w' r : ℤ) ≤ r.sizeBytes := fun r hr => by
    rw [fileSize_congr rfl rfl fun path _ => congrFun hblobs path]
    exact h.covered r hr
  refine FileTable.forall_update ht hold fun r hr _ => ?_
  rw [fileSize_congr (hpath r) (htype r) fun path _ => rfl, hsize]
  exact hold r hr

/-- A file is written and the size of its entry set to it. -/
theorem covered_content (h : Accounted w) {p : FileEntry → Bool} {f : FileEntry → FileEntry}
    {path : String} {data : Bytes} (ht : w.entries.update p f = some t) (hr : r ∈ w.entries.rows)
    (hp : p r = true) (hown : OwnPath r path)
    (hpath : ∀ r', (f r').storagePath = some path) (hsize : ∀ r', (f r').sizeBytes = data.length)
    (hblobs : w'.blobs = (w.putBlob path data).blobs) :
    ∀ r ∈ t.rows, (fileSize w' r : ℤ) ≤ r.sizeBytes := by
  intro r' hr'
  have hw' : fileSize w' r' = fileSize (w.putBlob path data) r' :=
    fileSize_congr rfl rfl fun q _ => congrFun hblobs q
  rw [hw']
  obtain ⟨r0, hr0, rfl⟩ := (FileTable.mem_update ht).mp hr'
  by_cases hp0 : p r0 = true
  · rw [if_pos hp0, hsize]
    refine fileSize_le (hpath r0) (Int.natCast_nonneg _) fun d hd => ?_
    obtain rfl : data = d := by simpa [World.putBlob] using hd
    exact le_rfl
  · rw [if_neg hp0]
    have hne : r0.storagePath ≠ some path := fun hq => hp0 <| by
      rwa [(h.ownPath hr0 hq).eq hown hr0 hr]
    rw [fileSize_putBlob hne]
    exact h.covered r0 hr0

/-- A file is written to the path of a fresh id. -/
theorem covered_new (h : Accounted w) (hfresh : Fresh w e) {data : Bytes}
    (hblobs : w'.blobs = (w.putBlob (filePath e.call.user e.call.newId) data).blobs) :
    ∀ r ∈ w.entries.rows, (fileSize w' r : ℤ) ≤ r.sizeBytes := by
  intro r hr
  rw [fileSize_congr rfl rfl fun path _ => congrFun hblobs path]
  exact h.covered_putBlob (fun r hr hown => absurd hown (not_ownPath_of_fresh hfresh hr)) hr

/-- …and its row inserted. -/
theorem covered_insert (h : Accounted w) (hfresh : Fresh w e) {data : Bytes}
    (hblobs : w'.blobs = (w.putBlob (filePath e.call.user e.call.newId) data).blobs)
    (ht : w.entries.insert r = some t)
    (hpath : r.storagePath = some (filePath e.call.user e.call.newId))
    (hlen : (data.length : ℤ) ≤ r.sizeBytes) :
    ∀ r ∈ t.rows, (fileSize w' r : ℤ) ≤ r.sizeBytes := by
  refine FileTable.forall_insert ht (h.covered_new hfresh hblobs) ?_
  refine fileSize_le hpath (le_trans (Int.natCast_nonneg _) hlen) fun d hd => ?_
  rw [hblobs] at hd
  obtain rfl : data = d := by simpa [World.putBlob] using hd
  exact hlen

/-- A new row does not understate its file; that of a copy has the size of the entry it copies. -/
theorem length_le_of_newFile (h : Accounted w) {cols : List Column} {data : Bytes}
    (hr : NewFile env w e r cols data) : (data.length : ℤ) ≤ r.sizeBytes := by
  cases hr with
  | @copy path destination source src _ hreq hsource hfile hsrc hdata =>
    have hcov := h.covered source (resolvePath_target hsource).1
    rwa [fileSize, contentOf, hfile, hsrc, Option.bind_some, hdata] at hcov
  | _ => exact le_rfl

end Accounted

theorem Overwrites.length_le {mime : Option String} {data : Bytes}
    (h : Overwrites env w e r mime data) (hok : understates env w e = false)
    (hmime : mimeTooLong mime = true) : (data.length : ℤ) ≤ r.sizeBytes := by
  have htarget := h.putTarget
  cases h with
  | put hreq => simpa [understates, hreq, htarget, hmime] using hok
  | object hreq => simpa [understates, hreq, htarget, hmime] using hok

/-- The file that a transfer without chunks is pointed at is no longer than its new size. -/
theorem length_le_of_flat {transferId : String} {clientHash : Option String} {file : Uuid}
    {entry : FileEntry} {size : ℤ} {data : Bytes}
    (hreq : e.request = .finalizeTransfer transferId clientHash)
    (hfile : transferUuid env transferId = some file)
    (hentry : w.owned e.call.user file = some entry)
    (hchunks : w.chunkDirs e.call.user file = none
        ∧ hashMismatch clientHash (entry.sha256Hash.getD "verified") = false
        ∧ size = entry.sizeBytes
      ∨ w.chunkDirs e.call.user file = some [] ∧ size = 0)
    (hok : understates env w e = false)
    (hdata : w.blobs (flatPath e.call.user file) = some data) : (data.length : ℤ) ≤ size := by
  rcases hchunks with ⟨hchunks, -, rfl⟩ | ⟨hchunks, rfl⟩
  · simpa [understates, hreq, hfile, hentry, hchunks, hdata] using hok
  · have hempty : data = [] := by
      simpa [understates, hreq, hfile, hentry, hchunks, hdata] using hok
    rw [hempty]
    rfl

/-- …and so is the file that a rejected hash leaves behind. -/
theorem Accounted.length_le_of_mismatch (h : Accounted w) {transferId : String}
    {clientHash : Option String} {file : Uuid} {entry : FileEntry} {chunks : List (ℤ × Bytes)}
    {data : Bytes} (hreq : e.request = .finalizeTransfer transferId clientHash)
    (hfile : transferUuid env transferId = some file)
    (hentry : w.owned e.call.user file = some entry)
    (hchunks : w.chunkDirs e.call.user file = some chunks)
    (hread : readChunks (some chunks) (chunkIndexes chunks.length) [] = .ok data)
    (hhash : hashMismatch clientHash (env.sha256 data) = true)
    (hok : understates env w e = false) : (data.length : ℤ) ≤ entry.sizeBytes := by
  cases chunks with
  | nil =>
    obtain rfl : [] = data := by simpa [chunkIndexes, readChunks] using hread
    exact h.size_nonneg (World.owned_eq_some.mp hentry).1
  | cons ch chunks =>
    simp only [understates, hreq, hfile, hentry, hchunks, hread, hhash, Option.any_some,
      Bool.true_and, decide_eq_false_iff_not, Int.not_lt] at hok
    exact hok

/-- **A step that understates no size leaves every file covered.** -/
theorem Accounted.covered_change (h : Accounted w) (hfresh : Fresh w e) (hc : Change env w e w')
    (hok : understates env w e = false) :
    ∀ r ∈ w'.entries.rows, (fileSize w' r : ℤ) ≤ r.sizeBytes := by
  have hstays : ∀ {w' : World}, w'.blobs = w.blobs → ∀ r ∈ w.entries.rows,
      (fileSize w' r : ℤ) ≤ r.sizeBytes := fun hblobs r hr => by
    rw [fileSize_congr rfl rfl fun path _ => congrFun hblobs path]
    exact h.covered r hr
  cases hc with
  | same => exact h.covered
  | chunks d => exact hstays rfl
  | insert hr ht =>
    refine FileTable.forall_insert ht (hstays rfl) ?_
    cases hr with
    | transfer hreq hquota hsize hcol => exact absurd (hcol (by decide)) h.schema
    | _ => exact le_rfl
  | store d hr ht => exact h.covered_insert hfresh rfl ht hr.spec.1 (h.length_le_of_newFile hr)
  | strand d hr hno => exact h.covered_new hfresh rfl
  | abandon ha hread =>
    exact fun r hr => h.covered_putBlob (fun r _ hown => absurd hown not_ownPath_tmpAsmPath) hr
  | @overwrite r mime data t hr ht =>
    obtain ⟨hmem, huser, -⟩ := hr.spec
    exact h.covered_content ht hmem (by simp [huser]) (h.ownTarget hmem) (fun _ => rfl)
      (fun _ => rfl) rfl
  | @overwriteOnly r mime data hr ht =>
    have hmem := hr.spec.1
    intro r' hr'
    refine h.covered_putBlob (fun r0 hr0 hown0 => ?_) hr'
    rw [hown0.eq (h.ownTarget hmem) hr0 hmem]
    exact hr.length_le hok (mimeTooLong_of_overwrite_eq_none ht)
  | relabel d hreq hf ht =>
    refine h.covered_update ht ?_ ?_ ?_ rfl <;> intro r <;> obtain ⟨name, time, hr⟩ := hf r <;>
      rw [hr]
  | move hreq hown htarget hne ht =>
    exact h.covered_update ht (fun _ => rfl) (fun _ => rfl) (fun _ => rfl) rfl
  | trash hp time ht =>
    exact h.covered_update ht (fun _ => rfl) (fun _ => rfl) (fun _ => rfl) rfl
  | restore hreq hown hids ht =>
    exact h.covered_update ht (fun _ => rfl) (fun _ => rfl) (fun _ => rfl) rfl
  | @delete p q hp v hv =>
    intro r hr
    have hmem := (FileTable.mem_delete.mp hr).1
    refine le_trans (Int.ofNat_le.mpr (fileSize_mono fun path data hdata => ?_)) (h.covered r hmem)
    by_cases hdrop : path ∈ storagePaths w q
    · exact absurd ((if_pos hdrop).symm.trans hdata) (by simp)
    · exact (if_neg hdrop).symm.trans hdata
  | @flatten transferId clientHash file entry hash size t hreq hfile hentry hchunks ht =>
    have hsize : 0 ≤ size := by
      rcases hchunks with ⟨-, -, rfl⟩ | ⟨-, rfl⟩
      · exact h.size_nonneg (World.owned_eq_some.mp hentry).1
      · exact le_rfl
    refine FileTable.forall_update ht (hstays rfl) fun r hr hp => fileSize_le rfl hsize ?_
    exact fun data hdata => length_le_of_flat hreq hfile hentry hchunks hok hdata
  | @finalize transferId clientHash file entry chunks data t d hreq hfile hentry hchunks hread ht =>
    obtain ⟨hmem, rfl, huser⟩ := World.owned_eq_some.mp hentry
    exact h.covered_content ht hmem (by simp) (Or.inl (by rw [huser])) (fun _ => rfl)
      (fun _ => rfl) rfl
  | @mismatch transferId clientHash file entry chunks data d hreq hfile hentry hchunks hread hhash =>
    obtain ⟨hmem, rfl, huser⟩ := World.owned_eq_some.mp hentry
    have hentry' : OwnPath entry (filePath e.call.user entry.id) := Or.inl (by rw [huser])
    intro r hr
    rw [fileSize_congr rfl rfl fun path _ => rfl]
    refine h.covered_putBlob (fun r0 hr0 hown0 => ?_) hr
    rw [hown0.eq hentry' hr0 hmem]
    exact h.length_le_of_mismatch hreq hfile hentry hchunks hread hhash hok
  | version hreq hown hv hvf ht =>
    exact absurd hv (by rw [h.shaped.versions]; exact List.not_mem_nil)

/-! ## Sums stay within the quota -/

theorem weight_of_live (huser : r.userId = user) (hlive : r.isTrashed = false) :
    weight user r = r.sizeBytes := by
  simp [weight, huser, hlive]

theorem weight_of_userId_ne (huser : r.userId ≠ user) : weight user r = 0 := by
  simp [weight, huser]

theorem weight_of_size_zero (hsize : r.sizeBytes = 0) : weight user r = 0 := by
  simp [weight, hsize]

theorem weight_of_trashed (htrash : r.isTrashed = true) : weight user r = 0 := by
  simp [weight, htrash]

namespace Accounted

/-- A new file fits the quota: by the check, if the client told it the right number, or because the
request is one that heeds it unasked. -/
theorem newFile_le (h : Accounted w) {cols : List Column} {data : Bytes}
    (hr : NewFile env w e r cols data) (hok : heedsQuota env w e = true)
    (hquota : w.users e.call.user = some quota) : sumSizes w e.call.user + r.sizeBytes ≤ quota := by
  cases hr with
  | @upload parent filename mime data hreq hown hcheck =>
    simp only [heedsQuota, hreq, decide_eq_true_eq] at hok
    exact h.add_le hquota (quotaAllows_iff.mpr ⟨hcheck, hok⟩)
  | @assembled req data hreq hown hcheck hread =>
    simp only [heedsQuota, hreq, announced, hread, Bool.and_eq_true, decide_eq_true_eq] at hok
    have hle := h.add_le hquota (quotaAllows_iff.mpr ⟨hcheck, hok.1⟩)
    exact le_trans (Int.add_le_add_left hok.2 _) hle
  | put hreq hnew =>
    have htarget : putTarget w e = none := by rw [putTarget, hreq]; exact hnew
    simp only [heedsQuota, hreq, replacedBytes, htarget, Option.elim_none, Int.sub_zero] at hok
    exact h.add_le hquota hok
  | object hreq hnew =>
    have htarget : putTarget w e = none := by rw [putTarget, hreq]; exact hnew
    simp only [heedsQuota, hreq, replacedBytes, htarget, Option.elim_none, Int.sub_zero] at hok
    exact h.add_le hquota hok
  | @copy path destination source src data hreq hsource hfile hsrc hdata =>
    have hallow : quotaAllows w e.call.user source.sizeBytes = true := by
      simpa [heedsQuota, hreq, hsource, hfile] using hok
    exact h.add_le hquota hallow

/-- A row is inserted that fits the quota. -/
theorem recorded_insert (h : Accounted w) (ht : w.entries.insert r = some t)
    (huser : r.userId = e.call.user) (hlive : r.isTrashed = false)
    (hfits : ∀ quota, w.users e.call.user = some quota →
      sumSizes w e.call.user + r.sizeBytes ≤ quota)
    (hquota : w.users user = some quota) : t.total user ≤ quota := by
  rw [FileTable.total_insert ht, ← sumSizes_eq]
  by_cases hu : r.userId = user
  · obtain rfl : e.call.user = user := huser.symm.trans hu
    rw [weight_of_live hu hlive]
    exact hfits quota hquota
  · rw [weight_of_userId_ne hu, Int.add_zero]
    exact h.recorded user quota hquota

/-- What a `PUT` overwrites gives its place. -/
theorem overwrites_le (h : Accounted w) {mime : Option String} {data : Bytes}
    (hr : Overwrites env w e r mime data) (hok : heedsQuota env w e = true)
    (hquota : w.users e.call.user = some quota) :
    sumSizes w e.call.user + (data.length - r.sizeBytes) ≤ quota := by
  have htarget := hr.putTarget
  refine h.add_le hquota ?_
  cases hr with
  | put hreq => simpa [heedsQuota, hreq, replacedBytes, htarget] using hok
  | object hreq => simpa [heedsQuota, hreq, replacedBytes, htarget] using hok

/-- What comes out of the trash adds its sizes to the sum. -/
theorem total_restore (w : World) (user : Uuid) {ids : List Uuid} {now : ℤ}
    (ht : w.entries.update (fun r => r.id ∈ ids)
      (fun r => { r with isTrashed := false, trashedAt := none, updatedAt := now }) = some t) :
    t.total user = w.entries.total user + restoredBytes w user ids := by
  rw [FileTable.total_update ht, FileTable.total, restoredBytes, sum_map_filter, ← List.sum_map_add]
  congr 1
  refine List.map_congr_left fun r hr => ?_
  by_cases hid : r.id ∈ ids
  · cases htrash : r.isTrashed <;> by_cases huser : r.userId = user <;>
      simp [weight, hid, htrash, huser]
  · simp [hid]

/-- One entry gets another size, which fits while it is live. -/
theorem recorded_content (h : Accounted w) {p : FileEntry → Bool} {f : FileEntry → FileEntry}
    (ht : w.entries.update p f = some t) (hr : r ∈ w.entries.rows) (hp : p r = true)
    (hid : ∀ r', p r' = true → r'.id = r.id) (hfu : (f r).userId = r.userId)
    (hft : (f r).isTrashed = r.isTrashed) (hquota : w.users user = some quota)
    (hfits : r.isTrashed = false → r.userId = user →
      sumSizes w user + ((f r).sizeBytes - r.sizeBytes) ≤ quota) : t.total user ≤ quota := by
  have hrec := h.recorded user quota hquota
  rw [FileTable.total_update_one ht hr hp hid user, ← sumSizes_eq]
  by_cases huser : r.userId = user
  · cases hlive : r.isTrashed with
    | false =>
      rw [weight_of_live (hfu.trans huser) (hft.trans hlive), weight_of_live huser hlive]
      exact hfits hlive huser
    | true => rwa [weight_of_trashed (hft.trans hlive), weight_of_trashed hlive, Int.sub_self,
        Int.add_zero]
  · rwa [weight_of_userId_ne (hfu ▸ huser), weight_of_userId_ne huser, Int.sub_self, Int.add_zero]

/-- **A step that heeds the quota keeps every sum within it.** -/
theorem recorded_change (h : Accounted w) (hc : Change env w e w')
    (hok : heedsQuota env w e = true) (hquota : w'.users user = some quota) :
    sumSizes w' user ≤ quota := by
  rw [hc.users] at hquota
  have hrec := h.recorded user quota hquota
  rw [sumSizes_eq]
  have hle : ∀ {t : FileTable}, t.total user ≤ w.entries.total user → t.total user ≤ quota :=
    fun hle => le_trans hle (sumSizes_eq w user ▸ hrec)
  cases hc with
  | insert hr ht =>
    refine hle ?_
    rw [FileTable.total_insert ht, weight_of_size_zero, Int.add_zero]
    cases hr with
    | transfer hreq hcheck hsize hcol => exact absurd (hcol (by decide)) h.schema
    | _ => rfl
  | @store r cols data t d hr ht =>
    obtain ⟨-, huser, hlive⟩ := (show Creates env w e r from .inr ⟨_, _, hr⟩).spec
    exact h.recorded_insert ht huser hlive (fun quota => h.newFile_le hr hok) hquota
  | @overwrite r mime data t hr ht =>
    obtain ⟨hmem, huser, -⟩ := hr.spec
    refine h.recorded_content ht hmem (by simp [huser]) (fun r' hp => ?_) rfl rfl hquota ?_
    · rw [Bool.and_eq_true, decide_eq_true_eq] at hp
      exact hp.1
    · rintro - rfl
      rw [huser] at hquota ⊢
      exact h.overwrites_le hr hok hquota
  | relabel d hreq hf ht =>
    refine hle (FileTable.total_update_le ht fun r _ _ => ?_)
    obtain ⟨name, time, hr⟩ := hf r
    rw [hr]
    exact le_rfl
  | move hreq hown htarget hne ht => exact hle (FileTable.total_update_le ht fun r _ _ => le_rfl)
  | trash hp time ht =>
    refine hle (FileTable.total_update_le ht fun r hr _ => ?_)
    rw [weight_of_trashed rfl]
    exact h.weight_nonneg user hr
  | @restore item ids t hreq hown hids ht =>
    rw [total_restore w user ht]
    by_cases huser : ∃ r ∈ w.entries.rows, r.userId = user
    · obtain ⟨r, hr, rfl⟩ := huser
      rw [← sumSizes_eq]
      refine h.add_le hquota ?_
      simp only [heedsQuota, hreq, hids, Option.all_some, List.all_eq_true] at hok
      exact hok r hr
    · -- a user without entries gets none back
      have hnone : restoredBytes w user ids = 0 := by
        rw [restoredBytes, List.filter_eq_nil_iff.mpr fun r hr hp => huser ⟨r, hr, ?_⟩]
        · rfl
        · simp only [Bool.and_eq_true, decide_eq_true_eq] at hp
          exact hp.2.1
      rw [hnone, Int.add_zero, ← sumSizes_eq]
      exact hrec
  | delete hp v hv => exact hle (FileTable.total_delete_le fun r hr => h.weight_nonneg user hr)
  | @flatten transferId clientHash file entry hash size t hreq hfile hentry hchunks ht =>
    obtain ⟨hmem, rfl, -⟩ := World.owned_eq_some.mp hentry
    refine h.recorded_content ht hmem (by simp) (fun r' hp => of_decide_eq_true hp) rfl rfl hquota ?_
    intro _ _
    have h0 := h.size_nonneg hmem
    rcases hchunks with ⟨-, -, rfl⟩ | ⟨-, rfl⟩ <;> simp only <;> omega
  | @finalize transferId clientHash file entry chunks data t d hreq hfile hentry hchunks hread ht =>
    obtain ⟨hmem, rfl, huser⟩ := World.owned_eq_some.mp hentry
    refine h.recorded_content ht hmem (by simp) (fun r' hp => of_decide_eq_true hp) rfl rfl hquota ?_
    rintro hlive rfl
    rw [huser] at hquota ⊢
    refine h.add_le hquota ?_
    simpa [heedsQuota, hreq, hfile, hentry, hlive, hchunks, hread] using hok
  | version hreq hown hv hvf ht =>
    exact absurd hv (by rw [h.shaped.versions]; exact List.not_mem_nil)
  | _ => exact hle le_rfl

/-- **A step that heeds the quota and understates no size keeps the books.** -/
theorem change (h : Accounted w) (hfresh : Fresh w e) (hc : Change env w e w')
    (hok : heedsQuota env w e = true) (hsizes : understates env w e = false) : Accounted w' where
  shaped := h.shaped.change hc
  schema := hc.columns ▸ h.schema
  quotas := hc.users ▸ h.quotas
  covered := h.covered_change hfresh hc hsizes
  recorded _ _ hquota := h.recorded_change hc hok hquota

/-! ## A pending request writes -/

/-- A file without an entry. -/
theorem putBlob (h : Accounted w) {path : String} (hother : ∀ r ∈ w.entries.rows, ¬ OwnPath r path)
    (data : Bytes) (d : Uuid → Uuid → Option (List (ℤ × Bytes))) :
    Accounted { w.putBlob path data with chunkDirs := d } where
  shaped := ⟨h.shaped.versions, h.shaped.paths⟩
  schema := h.schema
  quotas := h.quotas
  covered _ hr := h.covered_putBlob (fun r hr hown => absurd hown (hother r hr)) hr
  recorded := h.recorded

/-- A new file with its entry. -/
theorem store (h : Accounted w) (hfresh : Fresh w e) {parent : Option Uuid} {name : String}
    {mime hash : Option String} {data : Bytes}
    (ht : w.entries.insert (newFile e.call parent name mime data.length hash
      (filePath e.call.user e.call.newId)) = some t)
    (hfits : ∀ quota, w.users e.call.user = some quota →
      sumSizes w e.call.user + data.length ≤ quota)
    (d : Uuid → Uuid → Option (List (ℤ × Bytes))) :
    Accounted { w.putBlob (filePath e.call.user e.call.newId) data with
      entries := t, chunkDirs := d } where
  shaped := by
    refine ⟨h.shaped.versions, FileTable.forall_insert ht h.shaped.paths fun path hp => ?_⟩
    exact Or.inl (Or.inl (Option.some.inj hp).symm)
  schema := h.schema
  quotas := h.quotas
  covered := h.covered_insert hfresh rfl ht rfl le_rfl
  recorded user quota hquota := by
    rw [sumSizes_eq]
    exact h.recorded_insert ht rfl rfl hfits hquota

/-- **A pending request whose check still stands keeps the books when it writes.** -/
theorem writesOf (h : Accounted w) (hfresh : Fresh w e) (hok : checkStands w e = true) :
    Accounted (writesOf env w e) := by
  have hnew : ∀ r ∈ w.entries.rows, ¬ OwnPath r (filePath e.call.user e.call.newId) :=
    fun r hr => not_ownPath_of_fresh hfresh hr
  unfold Pcos.writesOf
  split
  case h_1 parent filename mime data hreq =>
    rw [checkStands, hreq] at hok
    apply wp.leaves
    simp only [storeUpload, storeFile, wp_bind, wp_modify, wp_insertEntry, wp_pure]
    exact ⟨fun t _ ht => h.store hfresh ht (fun quota hquota => h.add_le hquota hok) w.chunkDirs,
      fun _ => h.putBlob hnew data w.chunkDirs⟩
  case h_2 req hreq =>
    simp only [checkStands, hreq, Bool.and_eq_true] at hok
    apply wp.leaves
    simp only [storeAssembled, wp_bind, wp_assembleChunks, wp_insertEntry, wp_pure]
    refine ⟨fun data hread => ⟨fun t _ ht => ?_, fun _ => ?_⟩, fun part hread => ?_⟩
    · have hlen : (data.length : ℤ) ≤ req.totalSize := by
        simpa [announced, hread] using hok.2
      refine h.store hfresh ht (fun quota hquota => ?_) _
      exact le_trans (Int.add_le_add_left hlen _) (h.add_le hquota hok.1)
    · exact h.putBlob hnew data _
    · exact h.putBlob (fun r _ => not_ownPath_tmpAsmPath) part w.chunkDirs
  case h_3 req hreq =>
    -- the schema has no column for favorites, so no transfer is ever inserted
    apply wp.leaves
    simp only [storeTransfer, wp_bind, wp_insertEntry, wp_pure]
    exact ⟨fun t hacc _ => absurd (hacc.1 (by decide)) h.schema, fun _ => h⟩
  case h_4 => exact h

end Accounted

/-- **One step of the server.** -/
theorem Server.accounted_step {s : Server} {a : Action} (h : Accounted s.world) (hfresh : s.Fresh a)
    (hok : s.heeds env a = true) : Accounted (s.step env a).world := by
  cases a with
  | run e =>
    rw [heeds, Bool.and_eq_true, Bool.not_eq_true'] at hok
    exact h.change hfresh (step_change env s.world e) hok.1 hok.2
  | check e =>
    simp only [step]
    split <;> exact h
  | commit i =>
    simp only [step]
    cases hi : s.pending[i]? with
    | none => exact h
    | some e =>
      rw [heeds, hi, Option.all_some] at hok
      exact h.writesOf (hfresh e hi) hok

end Accounts

/-! ## Runs -/

/-- **The quota is kept in every state of a run in which every write would pass the check when it
happens**, whatever the interleaving. -/
theorem quotaKept_of_run (env : Env) (s : Server) (hbooks : InOrder s.world)
    (hkept : QuotaKept s.world) (as : List Action)
    (h : Along (fun s a => s.Fresh a ∧ s.heeds env a = true) (Server.step env) s as) :
    QuotaKept (run (Server.step env) s as).world :=
  (h.invariant (P := fun s => Accounted s.world)
    (fun _ _ hs hok => Server.accounted_step hs hok.1 hok.2) (hbooks.accounted hkept)).quotaKept

namespace Sample

/-- A server on which `alice` may store one byte. -/
def tight : Server := ⟨.empty migratedColumns fun u => if u = alice then some 1 else none, []⟩

def uploadA : Event := sent alice 0 id1 (.uploadFile none "a" "text/plain" [0x61])

def uploadB : Event := sent alice 1 id2 (.uploadFile none "b" "text/plain" [0x62])

theorem inOrder_tight : InOrder tight.world where
  shaped := shaped_empty _ _
  schema := rfl
  quotas user quota h := by
    have hu : (if user = alice then some 1 else none) = some quota := h
    split at hu
    · obtain rfl := Option.some.inj hu
      decide
    · cases hu
  exact_sizes r hr := absurd hr List.not_mem_nil

theorem quotaKept_tight : QuotaKept tight.world := by
  intro user quota h
  have hu : (if user = alice then some 1 else none) = some quota := h
  split at hu
  · obtain rfl := Option.some.inj hu
    exact Int.zero_le_ofNat 1
  · cases hu

end Sample

open Sample

/-- Of two uploads that are admitted together, the first writes and is deleted before the second
does. -/
def inTurn : List Action :=
  [.check uploadA, .check uploadB, .commit 1, .run (sent alice 2 id3 (.deleteItem id1)), .commit 0]

theorem quotaKept_inTurn :
    (run (Server.step env) tight inTurn).world.entries.rows.map
        (fun r => (r.name, r.isTrashed)) = [("a", true), ("b", false)]
      ∧ QuotaKept (run (Server.step env) tight inTurn).world :=
  ⟨by decide, quotaKept_of_run env tight inOrder_tight quotaKept_tight inTurn (by decide)⟩

/-- A file is uploaded and another one put over WebDAV. -/
def uploadAndExceed : List Action :=
  [.run uploadA, .run (sent alice 1 id2 (.webdavPut "/b" none [0x62]))]

/-- **The `PUT` is not checked.** -/
theorem not_quotaKept_uploadAndExceed :
    InOrder tight.world ∧ QuotaKept tight.world
      ∧ Along Server.Fresh (Server.step env) tight uploadAndExceed
      ∧ ¬ QuotaKept (run (Server.step env) tight uploadAndExceed).world := by
  refine ⟨inOrder_tight, quotaKept_tight, by decide, fun h => ?_⟩
  exact absurd (h alice 1 (by decide)) (by decide)

/-- Nor does the check help two uploads that are admitted together. -/
example : ¬ QuotaKept
    (run (Server.step env) tight [.check uploadA, .check uploadB, .commit 0, .commit 0]).world :=
  fun h => absurd (h alice 1 (by decide)) (by decide)

end Pcos
