import Pcos.Backend.Blobs

/-!
# Backend/Integrity — size and hash of an entry are those of its file

Uploads and `PUT`s compute both from the content they write.  `webdav_copy` inserts its row without a
hash, `finalize_transfer` without chunks keeps what the client once announced, and a hash mismatch or
a refused `UPDATE` comes after the file has been replaced.  In runs without these, every completed
file entry describes its file.
-/

namespace Pcos

open Foundations

/-- The entry has a file, of its size and its hash. -/
def Describes (env : Env) (w : World) (r : FileEntry) : Prop :=
  ∃ path data, r.storagePath = some path ∧ w.blobs path = some data
    ∧ r.sizeBytes = data.length ∧ r.sha256Hash = some (env.sha256 data)

/-- A file entry that is not a transfer in progress. -/
def isCompleted (r : FileEntry) : Bool :=
  r.entryType = .file && r.storagePath ≠ some resumableTransfer

/-- **Size and hash of every completed file entry are those of its file.** -/
def MetadataIntact (env : Env) (w : World) : Prop :=
  ∀ r ∈ w.entries.rows, isCompleted r = true → Describes env w r

/-- **The request leaves an entry whose size or hash is not that of its file**: it copies a file,
finalizes one without chunks, or replaces the file of a completed entry and then rejects the client's
hash or a media type that does not fit. -/
def spoilsMetadata (env : Env) (w : World) (e : Event) : Bool :=
  match e.request with
  | .webdavCopy path (some _) =>
    (resolvePath w e.call.user path).2.any fun r =>
      r.entryType = .file && r.storagePath.any fun src => (w.blobs src).isSome
  | .finalizeTransfer transferId clientHash =>
    (transferUuid env transferId).any fun file => (w.owned e.call.user file).any fun entry =>
      match w.chunkDirs e.call.user file with
      | none => entry.entryType = .file
          && !hashMismatch clientHash (entry.sha256Hash.getD "verified")
      | some chunks =>
        match readChunks (some chunks) (chunkIndexes chunks.length) [] with
        | .ok data => (chunks.isEmpty && entry.entryType = .file)
            || (isCompleted entry && hashMismatch clientHash (env.sha256 data))
        | .error _ => false
  | .webdavPut path contentType _ =>
    (putTarget w e).any isCompleted && mimeTooLong (putMime env contentType (entryName path))
  | .putObject key contentType _ =>
    (putTarget w e).any isCompleted && mimeTooLong (putMime env contentType (entryName key))
  | _ => false

section Step

variable {env : Env} {w w' : World} {e : Event} {r r' : FileEntry} {t : FileTable}

/-- An entry keeps its description while its file stays. -/
theorem Describes.of_blobs (h : Describes env w r)
    (hblobs : ∀ path ∈ r.storagePath, w'.blobs path = w.blobs path) : Describes env w' r := by
  obtain ⟨path, data, hp, hdata, hsize, hhash⟩ := h
  exact ⟨path, data, hp, (hblobs path hp).trans hdata, hsize, hhash⟩

theorem Describes.congr (h : Describes env w r) (hpath : r'.storagePath = r.storagePath)
    (hsize : r'.sizeBytes = r.sizeBytes) (hhash : r'.sha256Hash = r.sha256Hash) :
    Describes env w r' := by
  unfold Describes
  rw [hpath, hsize, hhash]
  exact h

theorem isCompleted_congr (hpath : r'.storagePath = r.storagePath)
    (htype : r'.entryType = r.entryType) : isCompleted r' = isCompleted r := by
  rw [isCompleted, hpath, htype, isCompleted]

theorem isCompleted_iff :
    isCompleted r = true ↔ r.entryType = .file ∧ r.storagePath ≠ some resumableTransfer := by
  simp [isCompleted]

/-- The file of a completed entry is its own. -/
theorem Shaped.ownPath_of_isCompleted (h : Shaped w) (hr : r ∈ w.entries.rows)
    (hdone : isCompleted r = true) {path : String} (hp : path ∈ r.storagePath) : OwnPath r path :=
  (h.paths r hr path hp).resolve_right fun heq =>
    (isCompleted_iff.mp hdone).2 (by rw [← heq.1]; exact hp)

/-- An update that keeps paths, sizes, hashes and types. -/
theorem MetadataIntact.update (h : MetadataIntact env w) {p : FileEntry → Bool}
    {f : FileEntry → FileEntry} (ht : w.entries.update p f = some t)
    (hpath : ∀ r, (f r).storagePath = r.storagePath) (htype : ∀ r, (f r).entryType = r.entryType)
    (hsize : ∀ r, (f r).sizeBytes = r.sizeBytes) (hhash : ∀ r, (f r).sha256Hash = r.sha256Hash)
    (d : Uuid → Uuid → Option (List (ℤ × Bytes))) :
    MetadataIntact env { w with entries := t, chunkDirs := d } := by
  have hold : ∀ r ∈ w.entries.rows, isCompleted r = true →
      Describes env { w with entries := t, chunkDirs := d } r :=
    fun r hr hdone => (h r hr hdone).of_blobs fun _ _ => rfl
  refine FileTable.forall_update ht hold fun r hr _ hdone => ?_
  rw [isCompleted_congr (hpath r) (htype r)] at hdone
  exact (hold r hr hdone).congr (hpath r) (hsize r) (hhash r)

/-- A file is written that is not that of a completed entry. -/
theorem MetadataIntact.putBlob (h : MetadataIntact env w) (hs : Shaped w) {path : String}
    (hother : ∀ r ∈ w.entries.rows, isCompleted r = true → ¬ OwnPath r path) (data : Bytes) :
    MetadataIntact env (w.putBlob path data) := by
  intro r hr hdone
  refine (h r hr hdone).of_blobs fun p hp => if_neg fun heq => ?_
  exact hother r hr hdone (heq ▸ hs.ownPath_of_isCompleted hr hdone hp)

/-- A file is written and the one row it can belong to set to its size and hash. -/
theorem MetadataIntact.content (h : MetadataIntact env w) (hs : Shaped w) {p : FileEntry → Bool}
    {f : FileEntry → FileEntry} {path : String} {data : Bytes} (hr : r ∈ w.entries.rows)
    (ht : w.entries.update p f = some t) (hp : p r = true)
    (hone : ∀ r' ∈ w.entries.rows, p r' = true → r' = r)
    (hpath : (f r).storagePath = some path) (hsize : (f r).sizeBytes = data.length)
    (hhash : (f r).sha256Hash = some (env.sha256 data))
    (hown : OwnPath r path ∨ path = resumableTransfer)
    (d : Uuid → Uuid → Option (List (ℤ × Bytes))) :
    MetadataIntact env { w.putBlob path data with entries := t, chunkDirs := d } := by
  intro r' hr' hdone
  obtain ⟨r0, hr0, rfl⟩ := (FileTable.mem_update ht).mp hr'
  by_cases hp0 : p r0
  · obtain rfl := hone r0 hr0 hp0
    rw [if_pos hp0]
    exact ⟨path, data, hpath, if_pos rfl, hsize, hhash⟩
  · rw [if_neg hp0] at hdone ⊢
    refine (h r0 hr0 hdone).of_blobs fun q hq => if_neg fun heq => ?_
    have hown0 := hs.ownPath_of_isCompleted hr0 hdone hq
    subst heq
    rcases hown with hown | hown
    · exact hp0 (hown0.eq hown hr0 hr ▸ hp)
    · exact hown0.ne_resumableTransfer hown

/-- A path made of a fresh id belongs to no entry. -/
theorem not_ownPath_of_fresh (hfresh : Fresh w e) (hr : r ∈ w.entries.rows) :
    ¬ OwnPath r (filePath e.call.user e.call.newId) := by
  rintro (heq | heq)
  · exact hfresh.1 r hr (filePath_inj heq).2.symm
  · exact filePath_ne_flatPath heq

/-- A new file is described by its row, unless it is a copy. -/
theorem NewFile.describes {cols : List Column} {data : Bytes} (h : NewFile env w e r cols data)
    (hok : spoilsMetadata env w e = false) :
    r.sizeBytes = data.length ∧ r.sha256Hash = some (env.sha256 data) := by
  cases h with
  | copy hreq hsource hfile hsrc hdata =>
    simp [spoilsMetadata, hreq, hsource, hfile, hsrc, hdata] at hok
  | _ => exact ⟨rfl, rfl⟩

theorem Overwrites.not_isCompleted {mime : Option String} {data : Bytes}
    (h : Overwrites env w e r mime data) (hok : spoilsMetadata env w e = false)
    (hmime : mimeTooLong mime = true) : isCompleted r = false := by
  have htarget := h.putTarget
  cases h with
  | put hreq => simpa [spoilsMetadata, hreq, htarget, hmime] using hok
  | object hreq => simpa [spoilsMetadata, hreq, htarget, hmime] using hok

/-- A deletion takes no file of an entry that stays. -/
theorem MetadataIntact.delete (h : MetadataIntact env w) (hs : Shaped w) {p q : FileEntry → Bool}
    (hqp : ∀ r, q r = true → p r = true) (v : List FileVersion) :
    MetadataIntact env
      { w.dropBlobs (storagePaths w q) with entries := w.entries.delete p, versions := v } := by
  intro r hr hdone
  obtain ⟨hr, hkeep⟩ := FileTable.mem_delete.mp hr
  refine (h r hr hdone).of_blobs fun path hp => if_neg fun hmem => ?_
  obtain ⟨r', hr', hrp⟩ := List.mem_filterMap.mp hmem
  obtain ⟨hr', hq⟩ := List.mem_filter.mp hr'
  have hown := hs.ownPath_of_isCompleted hr hdone hp
  have hown' := (hs.paths r' hr' path hrp).resolve_right fun heq =>
    hown.ne_resumableTransfer heq.1
  obtain rfl := hown'.eq hown hr' hr
  have := hkeep r' hr (.refl _)
  rw [hqp r' hq] at this
  cases this

/-- **A step that spoils no metadata keeps it intact.** -/
theorem MetadataIntact.change (h : MetadataIntact env w) (hs : Shaped w) (hfresh : Fresh w e)
    (hc : Change env w e w') (hok : spoilsMetadata env w e = false) : MetadataIntact env w' := by
  cases hc with
  | same => exact h
  | chunks d => exact fun r hr hdone => (h r hr hdone).of_blobs fun _ _ => rfl
  | insert hr ht =>
    refine FileTable.forall_insert ht (fun r hr hdone => (h r hr hdone).of_blobs fun _ _ => rfl) ?_
    intro hdone
    obtain ⟨htype, hpath⟩ := isCompleted_iff.mp hdone
    cases hr with
    | transfer => exact absurd rfl hpath
    | _ => cases htype
  | @store r cols data t d hr ht =>
    have hput := h.putBlob hs (fun r hr _ => not_ownPath_of_fresh hfresh hr) data
    refine FileTable.forall_insert ht (fun r hr hdone => (hput r hr hdone).of_blobs fun _ _ => rfl) ?_
    intro _
    exact ⟨_, data, hr.spec.1, if_pos rfl, hr.describes hok⟩
  | @strand r cols data d hr hno =>
    have hput := h.putBlob hs (fun r hr _ => not_ownPath_of_fresh hfresh hr) data
    exact fun r hr hdone => (hput r hr hdone).of_blobs fun _ _ => rfl
  | abandon ha hread => exact h.putBlob hs (fun r _ _ => not_ownPath_tmpAsmPath) _
  | @overwrite r mime data t hr ht =>
    obtain ⟨hmem, huser, -⟩ := hr.spec
    refine h.content hs hmem ht (by simp [huser]) (fun r' hr' hp => ?_) rfl rfl rfl
      ((hs.target hmem).imp_right And.left) w.chunkDirs
    rw [Bool.and_eq_true, decide_eq_true_eq] at hp
    exact FileTable.eq_of_id hr' hmem hp.1
  | @overwriteOnly r mime data hr ht =>
    have hnot := hr.not_isCompleted hok (mimeTooLong_of_overwrite_eq_none ht)
    refine h.putBlob hs (fun r' hr' hdone hown => ?_) data
    rcases hs.target hr.spec.1 with hown' | heq
    · rw [hown.eq hown' hr' hr.spec.1, hnot] at hdone
      cases hdone
    · exact hown.ne_resumableTransfer heq.1
  | relabel d hreq hf ht =>
    refine h.update ht ?_ ?_ ?_ ?_ d <;> intro r <;> obtain ⟨name, time, hr⟩ := hf r <;> rw [hr]
  | move hreq hown htarget hne ht =>
    exact h.update ht (fun _ => rfl) (fun _ => rfl) (fun _ => rfl) (fun _ => rfl) w.chunkDirs
  | trash hp time ht =>
    exact h.update ht (fun _ => rfl) (fun _ => rfl) (fun _ => rfl) (fun _ => rfl) w.chunkDirs
  | restore hreq hown hids ht =>
    exact h.update ht (fun _ => rfl) (fun _ => rfl) (fun _ => rfl) (fun _ => rfl) w.chunkDirs
  | delete hp v hv => exact h.delete hs hp.files_subset v
  | @flatten transferId clientHash file entry hash size t hreq hfile hentry hchunks ht =>
    -- only a folder is finalized without chunks
    have hfolder : entry.entryType ≠ .file := by
      rcases hchunks with ⟨hchunks, hhash, -⟩ | ⟨hchunks, -⟩
      · simpa [spoilsMetadata, hreq, hfile, hentry, hchunks, hhash] using hok
      · simp only [spoilsMetadata, hreq, hfile, hentry, hchunks, Option.any_some,
          List.length_nil, chunkIndexes, Int.toNat_natCast, List.range_zero, List.map_nil,
          readChunks, List.isEmpty_nil, Bool.true_and, Bool.or_eq_false_iff,
          decide_eq_false_iff_not] at hok
        exact hok.1
    obtain ⟨hmem, hid, -⟩ := World.owned_eq_some.mp hentry
    refine FileTable.forall_update ht (fun r hr hdone => (h r hr hdone).of_blobs fun _ _ => rfl) ?_
    intro r hr hp hdone
    rw [FileTable.eq_of_id hr hmem ((of_decide_eq_true hp).trans hid.symm)] at hdone
    exact absurd (isCompleted_iff.mp hdone).1 hfolder
  | @finalize transferId clientHash file entry chunks data t d hreq hfile hentry hchunks hread ht =>
    obtain ⟨hmem, rfl, huser⟩ := World.owned_eq_some.mp hentry
    refine h.content hs hmem ht (by simp) (fun r' hr' hp => ?_) rfl rfl rfl
      (Or.inl (Or.inl (by rw [huser]))) d
    exact FileTable.eq_of_id hr' hmem (of_decide_eq_true hp)
  | @mismatch transferId clientHash file entry chunks data d hreq hfile hentry hchunks hread hhash =>
    have hnot : isCompleted entry = false := by
      simp only [spoilsMetadata, hreq, hfile, hentry, hchunks, hread, hhash, Option.any_some,
        Bool.and_true, Bool.or_eq_false_iff] at hok
      exact hok.2
    obtain ⟨hmem, rfl, huser⟩ := World.owned_eq_some.mp hentry
    have hentry' : OwnPath entry (filePath e.call.user entry.id) := Or.inl (by rw [huser])
    have hother : ∀ r ∈ w.entries.rows, isCompleted r = true →
        ¬ OwnPath r (filePath e.call.user entry.id) := by
      intro r hr hdone hown
      rw [hown.eq hentry' hr hmem, hnot] at hdone
      cases hdone
    exact fun r hr hdone => (h.putBlob hs hother data r hr hdone).of_blobs fun _ _ => rfl
  | version hreq hown hv hvf ht => exact absurd hv (by rw [hs.versions]; exact List.not_mem_nil)

end Step

/-! ## Runs -/

/-- **Size and hash are those of the file in every state of a run that spoils no metadata.** -/
theorem metadataIntact_of_run (env : Env) (columns : List Column) (users : Uuid → Option ℤ)
    (es : List Event)
    (h : Along (fun w e => Fresh w e ∧ spoilsMetadata env w e = false) (step env)
      (.empty columns users) es) :
    MetadataIntact env (run (step env) (.empty columns users) es) := by
  refine (h.invariant (P := fun w => Shaped w ∧ MetadataIntact env w) (fun w e hw hok => ?_)
    ⟨shaped_empty columns users, fun r hr => absurd hr List.not_mem_nil⟩).2
  have hc := step_change env w e
  exact ⟨hw.1.change hc, hw.2.change hw.1 hok.1 hc hok.2⟩

open Sample

/-- A file is uploaded and overwritten over S3. -/
def uploadAndPut : List Event :=
  [sent alice 0 id1 (.uploadFile none "f" "text/plain" [0x61]),
    sent alice 1 id2 (.putObject "f" none [0x62])]

theorem metadataIntact_uploadAndPut :
    (run (step env) start uploadAndPut).entries.rows.map FileEntry.sha256Hash
        = [some (knownSha256 [0x62])]
      ∧ MetadataIntact env (run (step env) start uploadAndPut) :=
  ⟨by decide, metadataIntact_of_run env migratedColumns users uploadAndPut (by decide)⟩

/-- A file is uploaded and copied over WebDAV. -/
def uploadAndCopy : List Event :=
  [sent alice 0 id1 (.uploadFile none "f" "text/plain" [0x61]),
    sent alice 1 id2 (.webdavCopy "f" (some "/webdav/g"))]

/-- **The copy has no hash.** -/
theorem not_metadataIntact_uploadAndCopy :
    Along Fresh (step env) start uploadAndCopy
      ∧ ¬ MetadataIntact env (run (step env) start uploadAndCopy) := by
  refine ⟨by decide, fun h => ?_⟩
  have hcopy : newFile ⟨alice, 1, id2, tmp, 0⟩ none "g" (some "text/plain") 1 none
      (filePath alice id2) ∈ (run (step env) start uploadAndCopy).entries.rows := by decide
  obtain ⟨path, data, -, -, -, hhash⟩ := h _ hcopy (by decide)
  cases hhash

end Pcos
