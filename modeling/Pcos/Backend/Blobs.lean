import Pcos.Backend.StoragePaths

/-!
# Backend/Blobs — files and rows in step

A file is written before its row and removed before its row is.  They get out of step where the
second half is missing: the row is refused, a chunk is missing and the temporary file stays, the
client's hash contradicts the assembled chunks, a transfer is finalized without chunks, a row is
removed by the purge, or by the cascade from the row of another.  `leavesStray` lists these, and in
runs without them every file entry has its file and every file its entry.
-/

namespace Pcos

open Foundations

/-- **Files and rows are in step**: every completed file entry and every version has its file, and
every file in a user's directory belongs to an entry or a version.  (Chunks are in the directory of
their open upload.) -/
structure InStep (w : World) : Prop where
  files : ∀ r ∈ w.entries.rows, r.entryType = .file → r.storagePath ≠ some resumableTransfer →
    ∃ path data, r.storagePath = some path ∧ w.blobs path = some data
  versions : ∀ v ∈ w.versions, (w.blobs v.storagePath).isSome
  blobs : ∀ user path, InDirOf user path → (w.blobs path).isSome →
    (∃ r ∈ w.entries.rows, r.storagePath = some path) ∨ ∃ v ∈ w.versions, v.storagePath = path

/-- The entry has a file of its own. -/
def hasFile (r : FileEntry) : Bool := r.storagePath.any fun path => path ≠ resumableTransfer

/-- A new file would be written and its row refused. -/
def refusesNew (w : World) (cols : List Column) (r : FileEntry) : Bool := !decide (w.Accepts cols r)

/-- A media type that does not fit its column. -/
def mimeTooLong (mime : Option String) : Bool := mime.any fun m => 255 < m.length

/-- The checks of `upload_file` and `complete_chunked_upload` pass. -/
def admits (w : World) (user : Uuid) (parent : Option Uuid) (incoming : ℤ) : Bool :=
  parent.all (fun p => (w.owned user p).isSome) && withinQuota w user incoming

/-- **The request leaves a file without its entry, or an entry without its file.** -/
def leavesStray (env : Env) (w : World) (e : Event) : Bool :=
  match e.request with
  | .uploadFile parent filename mime data =>
    admits w e.call.user parent data.length
      && refusesNew w fileColumns (newFile e.call parent filename (some mime) data.length
        (some (env.sha256 data)) (filePath e.call.user e.call.newId))
  | .completeChunkedUpload req =>
    admits w e.call.user req.parentId req.totalSize
      && match readChunks (w.chunkDirs e.call.user req.uploadId) (chunkIndexes req.totalChunks) [] with
      | .ok data => refusesNew w fileColumns (newFile e.call req.parentId req.filename
          (some (mimeOf env req.filename)) data.length (some (env.sha256 data))
          (filePath e.call.user e.call.newId))
      | .error _ => true
  | .webdavPut path contentType data =>
    match resolvePath w e.call.user path with
    | (parent, none) => refusesNew w fileColumns (putRow env e.call parent (entryName path)
        (putMime env contentType (entryName path)) data)
    | (_, some r) => r.storagePath.isNone && mimeTooLong (putMime env contentType (entryName path))
  | .putObject key contentType data =>
    match limitOne e.call.scan (liveFiles w e.call.user (entryName key)) with
    | none => refusesNew w fileColumns (putRow env e.call none (entryName key)
        (putMime env contentType (entryName key)) data)
    | some r => r.storagePath.isNone && mimeTooLong (putMime env contentType (entryName key))
  | .webdavCopy path (some destination) =>
    match resolvePath w e.call.user path with
    | (parent, some source) => source.entryType = .file
        && source.storagePath.any (fun src => (w.blobs src).isSome)
        && refusesNew w copyColumns (copyRow e.call parent (lastSegment destination.toList) source)
    | (_, none) => false
  | .finalizeTransfer transferId clientHash =>
    (transferUuid env transferId).any fun file => (w.owned e.call.user file).any fun entry =>
      match w.chunkDirs e.call.user file with
      | none => true
      | some chunks =>
        match readChunks (some chunks) (chunkIndexes chunks.length) [] with
        | .ok data => chunks.isEmpty || (hashMismatch clientHash (env.sha256 data)
            && entry.storagePath ≠ some (filePath e.call.user file))
        | .error _ => true
  | .emptyTrash =>
    w.entries.rows.any fun r => hasFile r && !(r.userId = e.call.user && r.isTrashed)
      && w.entries.doomed (fun r => r.userId = e.call.user && r.isTrashed) r
  | .purgeTrash =>
    w.entries.rows.any fun r => hasFile r
      && w.entries.doomed (fun r => r.isTrashed && r.updatedAt < e.call.now - thirtyDays) r
  | _ => false

/-! ## The invariant behind it -/

/-- Paths are the rows' own file paths or placeholders, with a file for each of the former and
nothing else stored. -/
structure Tidy (w : World) : Prop where
  versions : w.versions = []
  paths : ∀ r ∈ w.entries.rows, ∀ path ∈ r.storagePath,
    path = resumableTransfer ∨ path = filePath r.userId r.id
  files : ∀ r ∈ w.entries.rows, r.entryType = .file → r.storagePath ≠ none
  stored : ∀ r ∈ w.entries.rows, r.storagePath = some (filePath r.userId r.id) →
    (w.blobs (filePath r.userId r.id)).isSome
  referenced : ∀ path, (w.blobs path).isSome → path ≠ resumableTransfer →
    ∃ r ∈ w.entries.rows, r.storagePath = some path

section Step

variable {env : Env} {w w' : World} {e : Event} {r r' : FileEntry} {t : FileTable}

theorem tidy_empty (columns : List Column) (users : Uuid → Option ℤ) :
    Tidy (.empty columns users) where
  versions := rfl
  paths _ h := absurd h List.not_mem_nil
  files _ h := absurd h List.not_mem_nil
  stored _ h := absurd h List.not_mem_nil
  referenced _ h := by cases h

theorem Tidy.inStep (h : Tidy w) : InStep w where
  files r hr htype hpath := by
    obtain ⟨path, hp⟩ := Option.ne_none_iff_exists'.mp (h.files r hr htype)
    have hown := (h.paths r hr path hp).resolve_left fun heq => hpath (by rw [hp, heq])
    subst hown
    obtain ⟨data, hdata⟩ := Option.isSome_iff_exists.mp (h.stored r hr hp)
    exact ⟨_, data, hp, hdata⟩
  versions v hv := absurd hv (by rw [h.versions]; exact List.not_mem_nil)
  blobs user path hdir hblob := Or.inl <| h.referenced path hblob fun heq =>
    not_inDirOf_resumableTransfer user (heq ▸ hdir)

/-- The row that a file path belongs to. -/
theorem Tidy.eq_of_path (h : Tidy w) (hr : r ∈ w.entries.rows) (hr' : r' ∈ w.entries.rows)
    (hpath : r'.storagePath = some (filePath r.userId r.id)) : r' = r := by
  rcases h.paths r' hr' _ hpath with heq | heq
  · exact absurd heq filePath_ne_resumableTransfer
  · exact FileTable.eq_of_id hr' hr (filePath_inj heq).2.symm

/-- An update that keeps ids, users, types and paths. -/
theorem Tidy.update (h : Tidy w) {p : FileEntry → Bool} {f : FileEntry → FileEntry}
    (ht : w.entries.update p f = some t) (hid : ∀ r, (f r).id = r.id)
    (huser : ∀ r, (f r).userId = r.userId) (htype : ∀ r, (f r).entryType = r.entryType)
    (hpath : ∀ r, (f r).storagePath = r.storagePath) (d : Uuid → Uuid → Option (List (ℤ × Bytes))) :
    Tidy { w with entries := t, chunkDirs := d } where
  versions := h.versions
  paths := FileTable.forall_update ht h.paths fun r hr _ => by
    rw [hpath, huser, hid]
    exact h.paths r hr
  files := FileTable.forall_update ht h.files fun r hr _ => by
    rw [hpath, htype]
    exact h.files r hr
  stored := FileTable.forall_update ht h.stored fun r hr _ => by
    rw [hpath, huser, hid]
    exact h.stored r hr
  referenced path hblob hne := by
    obtain ⟨r, hr, hrp⟩ := h.referenced path hblob hne
    refine ⟨_, (FileTable.mem_update ht).mpr ⟨r, hr, rfl⟩, ?_⟩
    by_cases hp : p r
    · rw [if_pos hp, hpath, hrp]
    · rw [if_neg hp, hrp]

theorem admits_eq_true {user : Uuid} {parent : Option Uuid} {incoming : ℤ}
    (hown : ParentOwned w user parent) (hquota : withinQuota w user incoming = true) :
    admits w user parent incoming = true := by
  rw [admits, hquota, Bool.and_true, Option.all_eq_true]
  exact hown

/-- A new file whose row is refused is a stray. -/
theorem accepts_of_not_leavesStray {cols : List Column} {data : Bytes}
    (hr : NewFile env w e r cols data) (hok : leavesStray env w e = false) : w.Accepts cols r := by
  cases hr with
  | upload hreq hown hquota =>
    simpa [leavesStray, hreq, admits_eq_true hown hquota, refusesNew] using hok
  | assembled hreq hown hquota hread =>
    simpa [leavesStray, hreq, admits_eq_true hown hquota, hread, refusesNew] using hok
  | @put path contentType data hreq hnew =>
    have hres : resolvePath w e.call.user path = ((resolvePath w e.call.user path).1, none) := by
      rw [← hnew]
    rw [leavesStray, hreq] at hok
    dsimp only at hok
    rw [hres] at hok
    simpa [refusesNew] using hok
  | object hreq hnew => simpa [leavesStray, hreq, hnew, refusesNew] using hok
  | @copy path destination source src data hreq hsource hfile hsrc hdata =>
    have hres : resolvePath w e.call.user path
        = ((resolvePath w e.call.user path).1, some source) := by rw [← hsource]
    rw [leavesStray, hreq] at hok
    dsimp only at hok
    rw [hres] at hok
    simpa [hfile, hsrc, hdata, refusesNew] using hok

/-- The assembly of a request that leaves no stray finds all its chunks. -/
theorem readChunks_of_not_leavesStray {upload file : Uuid} {total : ℤ} {part : Bytes}
    (h : Assembles env w e upload file total)
    (hread : readChunks (w.chunkDirs e.call.user upload) (chunkIndexes total) [] = .error part) :
    leavesStray env w e = true := by
  cases h with
  | complete hreq hown hquota => simp [leavesStray, hreq, admits_eq_true hown hquota, hread]
  | finalize hreq hfile hentry hchunks =>
    rw [hchunks] at hread
    simp [leavesStray, hreq, hfile, hentry, hchunks, hread]

/-- A row without a file of its own is added. -/
theorem Tidy.insert (h : Tidy w) (ht : w.entries.insert r = some t)
    (hpath : ∀ path ∈ r.storagePath, path = resumableTransfer)
    (hfile : r.entryType = .file → r.storagePath ≠ none) : Tidy { w with entries := t } where
  versions := h.versions
  paths := FileTable.forall_insert ht h.paths fun path hp => Or.inl (hpath path hp)
  files := FileTable.forall_insert ht h.files hfile
  stored := FileTable.forall_insert ht h.stored fun hp =>
    absurd (hpath _ hp) filePath_ne_resumableTransfer
  referenced path hblob hne := by
    obtain ⟨r', hr', hp⟩ := h.referenced path hblob hne
    exact ⟨r', (FileTable.mem_insert ht).mpr (Or.inl hr'), hp⟩

theorem isSome_putBlob {path p : String} {data : Bytes} (h : (w.blobs p).isSome) :
    ((w.putBlob path data).blobs p).isSome := by
  change (if p = path then some data else w.blobs p).isSome = true
  split
  · rfl
  · exact h

/-- A row is added along with its file. -/
theorem Tidy.store (h : Tidy w) (ht : w.entries.insert r = some t) (data : Bytes)
    (hpath : r.storagePath = some (filePath r.userId r.id))
    (d : Uuid → Uuid → Option (List (ℤ × Bytes))) :
    Tidy { w.putBlob (filePath r.userId r.id) data with entries := t, chunkDirs := d } where
  versions := h.versions
  paths := FileTable.forall_insert ht h.paths fun path hp =>
    Or.inr (Option.some.inj (hpath.symm.trans hp)).symm
  files := FileTable.forall_insert ht h.files fun _ => by rw [hpath]; exact Option.some_ne_none _
  stored := FileTable.forall_insert ht (fun r hr hp => isSome_putBlob (h.stored r hr hp)) fun _ => by
    change (if _ then _ else _ : Option Bytes).isSome = true
    rw [if_pos rfl]
    rfl
  referenced path hblob hne := by
    by_cases hp : path = filePath r.userId r.id
    · exact ⟨r, (FileTable.mem_insert ht).mpr (Or.inr rfl), by rw [hpath, hp]⟩
    · change (if path = _ then _ else w.blobs path).isSome = true at hblob
      rw [if_neg hp] at hblob
      obtain ⟨r', hr', hrp⟩ := h.referenced path hblob hne
      exact ⟨r', (FileTable.mem_insert ht).mpr (Or.inl hr'), hrp⟩

/-- A file that belongs to a row, or lies at the placeholder, is written. -/
theorem Tidy.putBlob (h : Tidy w) (hr : r ∈ w.entries.rows) {path : String} (data : Bytes)
    (hpath : r.storagePath = some path) (d : Uuid → Uuid → Option (List (ℤ × Bytes))) :
    Tidy { w.putBlob path data with chunkDirs := d } where
  versions := h.versions
  paths := h.paths
  files := h.files
  stored r hr hp := isSome_putBlob (h.stored r hr hp)
  referenced p hblob hne := by
    by_cases hp : p = path
    · exact ⟨r, hr, by rw [hpath, hp]⟩
    · change (if p = _ then _ else w.blobs p).isSome = true at hblob
      rw [if_neg hp] at hblob
      exact h.referenced p hblob hne

/-- A file is written and one row pointed at it, which had no other file. -/
theorem Tidy.content (h : Tidy w) (hr : r ∈ w.entries.rows) {p : FileEntry → Bool}
    {f : FileEntry → FileEntry} {path : String} (ht : w.entries.update p f = some t)
    (hp : p r = true) (hone : ∀ r' ∈ w.entries.rows, p r' = true → r' = r)
    (hid : (f r).id = r.id) (huser : (f r).userId = r.userId)
    (hnew : (f r).storagePath = some path)
    (hpath : path = resumableTransfer ∨ path = filePath r.userId r.id)
    (hold : ∀ q ∈ r.storagePath, q ≠ resumableTransfer → q = path)
    (data : Bytes) (d : Uuid → Uuid → Option (List (ℤ × Bytes))) :
    Tidy { w.putBlob path data with entries := t, chunkDirs := d } where
  versions := h.versions
  paths := FileTable.forall_update ht h.paths fun r' hr' hp' q hq => by
    obtain rfl := hone r' hr' hp'
    rw [hnew, Option.mem_some_iff] at hq
    rw [hid, huser, ← hq]
    exact hpath
  files := FileTable.forall_update ht h.files fun r' hr' hp' _ => by
    obtain rfl := hone r' hr' hp'
    rw [hnew]
    exact Option.some_ne_none _
  stored := FileTable.forall_update ht (fun r hr hq => isSome_putBlob (h.stored r hr hq))
    fun r' hr' hp' hq => by
      obtain rfl := hone r' hr' hp'
      change (if _ = path then some data else w.blobs _).isSome = true
      rw [hnew, Option.some.injEq] at hq
      rw [if_pos hq.symm]
      rfl
  referenced q hblob hne := by
    by_cases hq : q = path
    · refine ⟨f r, (FileTable.mem_update ht).mpr ⟨r, hr, if_pos hp⟩, ?_⟩
      rw [hnew, hq]
    · change (if q = _ then _ else w.blobs q).isSome = true at hblob
      rw [if_neg hq] at hblob
      obtain ⟨r', hr', hrp⟩ := h.referenced q hblob hne
      refine ⟨r', (FileTable.mem_update ht).mpr ⟨r', hr', if_neg fun hp' => ?_⟩, hrp⟩
      obtain rfl := hone r' hr' hp'
      exact hq (hold q hrp hne)

/-- Rows are deleted along with their files. -/
theorem Tidy.delete (h : Tidy w) {p q : FileEntry → Bool} (hqp : ∀ r, q r = true → p r = true)
    (hall : ∀ r ∈ w.entries.rows, hasFile r = true → w.entries.doomed p r = true → q r = true) :
    Tidy { w.dropBlobs (storagePaths w q) with entries := w.entries.delete p, versions := [] } where
  versions := rfl
  paths r hr := h.paths r (FileTable.mem_delete.mp hr).1
  files r hr := h.files r (FileTable.mem_delete.mp hr).1
  stored r hr hpath := by
    obtain ⟨hr, hkeep⟩ := FileTable.mem_delete.mp hr
    have hnot : filePath r.userId r.id ∉ storagePaths w q := by
      intro hmem
      -- only the row's own deletion would remove its file
      obtain ⟨r', hr', hrp⟩ := List.mem_filterMap.mp hmem
      obtain ⟨hr', hq⟩ := List.mem_filter.mp hr'
      obtain rfl := h.eq_of_path hr hr' hrp
      have := hkeep r' hr (.refl _)
      rw [hqp r' hq] at this
      cases this
    change (if _ then none else w.blobs _).isSome = true
    rw [if_neg hnot]
    exact h.stored r hr hpath
  referenced path hblob hne := by
    have hnot : path ∉ storagePaths w q := by
      intro hmem
      change (if _ then none else w.blobs _).isSome = true at hblob
      rw [if_pos hmem] at hblob
      cases hblob
    change (if _ then none else w.blobs _).isSome = true at hblob
    rw [if_neg hnot] at hblob
    obtain ⟨r, hr, hrp⟩ := h.referenced path hblob hne
    refine ⟨r, ?_, hrp⟩
    unfold FileTable.delete
    refine List.mem_filter.mpr ⟨hr, ?_⟩
    rw [Bool.not_eq_true']
    by_contra hd
    have hq := hall r hr (by simp [hasFile, hrp, hne]) (Bool.eq_true_of_not_eq_false hd)
    exact hnot (List.mem_filterMap.mpr ⟨r, List.mem_filter.mpr ⟨hr, hq⟩, hrp⟩)

theorem Deletes.files_subset {p q : FileEntry → Bool} (h : Deletes w e p q) :
    ∀ r, q r = true → p r = true := by
  cases h with
  | item hreq hentry htrash hids => exact fun r hr => hr
  | trash hreq => exact fun r hr => hr
  | purge hreq => exact fun r hr => by cases hr

/-- A deletion that leaves no stray removes the file of every row that goes. -/
theorem Deletes.files_of_not_leavesStray {p q : FileEntry → Bool} (h : Deletes w e p q)
    (hok : leavesStray env w e = false) (hr : r ∈ w.entries.rows) (hfile : hasFile r = true)
    (hdoomed : w.entries.doomed p r = true) : q r = true := by
  cases h with
  | item hreq hentry htrash hids =>
    obtain ⟨a, ha, hanc, hmem⟩ := (FileTable.doomed_iff hr).mp hdoomed
    rw [decide_eq_true_eq, FileTable.mem_descendants hids] at hmem ⊢
    exact ⟨hmem.1.trans hanc, hmem.2⟩
  | trash hreq =>
    rw [leavesStray, hreq] at hok
    have := List.any_eq_false.mp hok r hr
    rw [hfile, hdoomed] at this
    simpa using this
  | purge hreq =>
    rw [leavesStray, hreq] at hok
    have := List.any_eq_false.mp hok r hr
    rw [hfile, hdoomed] at this
    cases this rfl

/-- A `PUT` that is refused has a media type that does not fit. -/
theorem mimeTooLong_of_overwrite_eq_none {c : Call} {path : String} {mime : Option String}
    {data : Bytes} {p : FileEntry → Bool}
    (h : w.entries.update p (overwritten env c path mime data) = none) : mimeTooLong mime = true := by
  by_contra hm
  refine absurd h (Option.isSome_iff_ne_none.mp (FileTable.update_isSome ?_ ?_ ?_ ?_)) <;> intro r
  · rfl
  · rfl
  · rfl
  · intro hr _
    refine ⟨(w.entries.valid.fits r hr).1, fun m hmem => ?_, fun h hh => ?_⟩
    · obtain rfl : mime = some m := hmem
      simpa [mimeTooLong] using hm
    · obtain rfl := Option.some.inj hh
      rw [env.length_sha256]

theorem not_leavesStray_of_overwrites {mime : Option String} {data : Bytes}
    (hr : Overwrites env w e r mime data) (hok : leavesStray env w e = false)
    (hmime : mimeTooLong mime = true) : r.storagePath ≠ none := by
  intro hnone
  cases hr with
  | @put path contentType _ _ hreq hr =>
    have hres : resolvePath w e.call.user path = ((resolvePath w e.call.user path).1, some r) := by
      rw [← hr]
    rw [leavesStray, hreq] at hok
    dsimp only at hok
    rw [hres] at hok
    simp [hnone, hmime] at hok
  | object hreq hr => simp [leavesStray, hreq, hr, hnone, hmime] at hok

/-- **A step that leaves no stray keeps files and rows in step.** -/
theorem Tidy.change (h : Tidy w) (hc : Change env w e w') (hok : leavesStray env w e = false) :
    Tidy w' := by
  cases hc with
  | same => exact h
  | chunks d => exact ⟨h.versions, h.paths, h.files, h.stored, h.referenced⟩
  | insert hr ht =>
    refine h.insert ht ?_ ?_
    · intro path hp
      cases hr with
      | transfer => exact (Option.some.inj hp).symm
      | _ => cases hp
    · cases hr with
      | transfer => exact fun _ => Option.some_ne_none _
      | _ => exact fun htype => by cases htype
  | store d hr ht =>
    obtain ⟨hid, huser, -⟩ := (show Creates env w e _ from .inr ⟨_, _, hr⟩).spec
    have hpath := hr.spec.1
    rw [← huser, ← hid] at hpath ⊢
    exact h.store ht _ hpath d
  | strand d hr hno => exact absurd (accepts_of_not_leavesStray hr hok) hno
  | abandon ha hread =>
    rw [readChunks_of_not_leavesStray ha hread] at hok
    cases hok
  | @overwrite r mime data t hr ht =>
    obtain ⟨hmem, huser, -⟩ := hr.spec
    refine h.content hmem ht (by simp [huser]) (fun r' hr' hp => ?_) rfl rfl rfl ?_ ?_ data
      w.chunkDirs
    · rw [Bool.and_eq_true, decide_eq_true_eq] at hp
      exact FileTable.eq_of_id hr' hmem hp.1
    · unfold FileEntry.target
      cases hpath : r.storagePath with
      | none => exact Or.inr rfl
      | some q => exact h.paths r hmem q hpath
    · intro q hq _
      rw [FileEntry.target, hq]
      rfl
  | @overwriteOnly r mime data hr ht =>
    obtain ⟨path, hpath⟩ := Option.ne_none_iff_exists'.mp
      (not_leavesStray_of_overwrites hr hok (mimeTooLong_of_overwrite_eq_none ht))
    have htarget : r.target = path := by rw [FileEntry.target, hpath]; rfl
    rw [htarget]
    exact h.putBlob hr.spec.1 data hpath w.chunkDirs
  | relabel d hreq hf ht =>
    refine h.update ht ?_ ?_ ?_ ?_ d <;> intro r <;> obtain ⟨name, time, hr⟩ := hf r <;> rw [hr]
  | move hreq hown htarget hne ht =>
    exact h.update ht (fun _ => rfl) (fun _ => rfl) (fun _ => rfl) (fun _ => rfl) w.chunkDirs
  | trash hp time ht =>
    exact h.update ht (fun _ => rfl) (fun _ => rfl) (fun _ => rfl) (fun _ => rfl) w.chunkDirs
  | restore hreq hown hids ht =>
    exact h.update ht (fun _ => rfl) (fun _ => rfl) (fun _ => rfl) (fun _ => rfl) w.chunkDirs
  | delete hp v hv =>
    obtain rfl : v = [] := List.subset_nil.mp (h.versions ▸ hv)
    exact h.delete hp.files_subset fun r hr => hp.files_of_not_leavesStray hok hr
  | flatten hreq hfile hentry hchunks ht =>
    rcases hchunks with ⟨hchunks, -⟩ | ⟨hchunks, -⟩
    · simp [leavesStray, hreq, hfile, hentry, hchunks] at hok
    · simp [leavesStray, hreq, hfile, hentry, hchunks, chunkIndexes, readChunks] at hok
  | @finalize transferId clientHash file entry chunks data t d hreq hfile hentry hchunks hread ht =>
    obtain ⟨hmem, rfl, huser⟩ := World.owned_eq_some.mp hentry
    refine h.content hmem ht (by simp) (fun r' hr' hp => ?_) rfl rfl rfl ?_ ?_ data d
    · exact FileTable.eq_of_id hr' hmem (of_decide_eq_true hp)
    · exact Or.inr (by rw [huser])
    · intro q hq hne
      rw [← huser]
      exact (h.paths entry hmem q hq).resolve_left hne
  | @mismatch transferId clientHash file entry chunks data d hreq hfile hentry hchunks hread hhash =>
    refine h.putBlob (World.owned_eq_some.mp hentry).1 data ?_ d
    simp only [leavesStray, hreq, hfile, hentry, hchunks, hread, hhash, Option.any_some,
      Bool.true_and, Bool.or_eq_false_iff, decide_eq_false_iff_not, not_not] at hok
    exact hok.2
  | version hreq hown hv hvf ht => exact absurd hv (by rw [h.versions]; exact List.not_mem_nil)

/-! ## What removals do to the files -/

/-- Deleting for good, emptying the trash and the purge. -/
def Request.isRemoval : Request → Bool
  | .permanentDelete _ => true
  | .emptyTrash => true
  | .purgeTrash => true
  | _ => false

/-- The file of a row that is gone is gone, too. -/
theorem Tidy.blobs_of_removed (h : Tidy w) (h' : Tidy w') (hr : r ∈ w.entries.rows)
    (hgone : ∀ r' ∈ w'.entries.rows, r'.id ≠ r.id) {path : String} (hpath : r.storagePath = some path)
    (hne : path ≠ resumableTransfer) : w'.blobs path = none := by
  by_contra hsome
  obtain ⟨r', hr', hrp⟩ := h'.referenced path (Option.isSome_iff_ne_none.mpr hsome) hne
  have hown := (h.paths r hr path hpath).resolve_left hne
  have hown' := (h'.paths r' hr' path hrp).resolve_left hne
  exact hgone r' hr' (filePath_inj (hown'.symm.trans hown)).2

/-- A removal changes no file that is left. -/
theorem blobs_of_isRemoval (hreq : e.request.isRemoval = true) (hc : Change env w e w')
    {path : String} (hleft : w'.blobs path ≠ none) : w'.blobs path = w.blobs path := by
  have hno : e.request.writesContent = false := by
    cases hq : e.request <;> simp [hq, Request.isRemoval, Request.writesContent] at hreq ⊢
  rcases hc.blobs hno with hsame | ⟨p, q, -, hdrop⟩
  · rw [hsame]
  · rw [hdrop] at hleft ⊢
    exact if_neg fun hmem => hleft (if_pos hmem)

end Step

/-! ## Runs -/

/-- What a removal does to the files: those of the rows that go, go, and those of the rows that stay,
stay as they are. -/
structure RemovesFiles (w w' : World) : Prop where
  gone : ∀ r ∈ w.entries.rows, (∀ r' ∈ w'.entries.rows, r'.id ≠ r.id) →
    ∀ path ∈ r.storagePath, path ≠ resumableTransfer → w'.blobs path = none
  kept : ∀ r' ∈ w'.entries.rows, ∀ path ∈ r'.storagePath, path ≠ resumableTransfer →
    w'.blobs path = w.blobs path
  versions : ∀ v ∈ w'.versions, w'.blobs v.storagePath = w.blobs v.storagePath

open Sample

/-- A file is uploaded, overwritten, trashed and deleted for good. -/
def uploadAndDelete : List Event :=
  [sent alice 0 id1 (.uploadFile none "f" "text/plain" [0x61]),
    sent alice 1 id2 (.webdavPut "f" none [0x62]),
    sent alice 2 id2 (.deleteItem id1),
    sent alice 3 id2 (.permanentDelete id1)]

/-- A file is uploaded and trashed, and purged 31 days later. -/
def uploadAndPurge : List Event :=
  [sent alice 0 id1 (.uploadFile none "f" "text/plain" [0x61]),
    sent alice 1 id2 (.deleteItem id1),
    sent alice (31 * 24 * 3600) id2 .purgeTrash]

end Pcos
