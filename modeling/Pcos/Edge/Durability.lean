import Pcos.Edge.Challenge
import Pcos.Edge.Shares

/-!
# Edge/Durability — an upload that was accepted can be downloaded (`files/upload`, `shares/…/upload`)

`Answered` is what a 201 promises of the row: that its owner's download has the bytes, and that size
and hash are theirs.  Both routes keep it for what fits in a row or goes to R2, and answer 201 for
the rest as well.
-/

namespace Pcos.Edge.Files

open Foundations Accounts

variable {d : Deployment} {p : Platform} {read : FsReadChunk} {c : Call} {s : Store}

/-- The owner's download has these bytes, and size and hash are theirs. -/
structure Answered (d : Deployment) (sha256 : Bytes → String) (read : FsReadChunk) (bytes : Bytes)
    (row : FileEntry) (s : Store) : Prop where
  stored : s.files.find? (fun f => f.id = row.id) = some row
  download : wp (downloadFile d read row.userId row.id none)
    (fun content _ => content.status = 200 ∧ content.bytes = bytes) (fun _ _ => False) s
  size : row.sizeBytes = bytes.length
  hash : row.sha256Hash = "" ∨ row.sha256Hash = sha256 bytes

/-! ## What a download finds -/

@[simp] theorem range_none (f : FileEntry) : f.range none = none := by
  rw [FileEntry.range]
  split <;> rfl

/-- A download of a row answers what is found of it. -/
theorem wp_downloadFile {row : FileEntry} (h : s.files.find? (fun f => f.id = row.id) = some row)
    {Q : Content → Store → Prop} {E : Refusal → Store → Prop} :
    wp (downloadFile d read row.userId row.id none) Q E s ↔
      (∀ content, s.find d read row none = some content → Q content s) ∧
        (s.find d read row none = none →
          E ⟨404, "File content resides on your connected local PCOS Storage Node."⟩ s) := by
  simp [downloadFile, h, truthy, wp_okOr, wp_ensure]

/-- A new row is the one found under its id. -/
theorem find_addFile {row : FileEntry} (hfresh : s.files.all (fun f => f.id ≠ row.id) = true) :
    (s.addFile row).files.find? (fun f => f.id = row.id) = some row := by
  have hnone : s.files.find? (fun f => f.id = row.id) = none := by
    rw [List.find?_eq_none]
    intro f hf
    simpa using List.all_eq_true.mp hfresh f hf
  rw [Store.addFile, List.find?_append, hnone]
  simp

theorem wp_insertFile {row : FileEntry} {Q : Unit → Store → Prop} {E : Refusal → Store → Prop} :
    wp (insertFile row) Q E s ↔
      (s.accepts row = true → Q () (s.addFile row)) ∧
        (s.accepts row = false → E thrown s) := by
  simp only [insertFile, wp_bind, wp_get, wp_ensure, wp_set]

theorem accepts_fresh {row : FileEntry} (h : s.accepts row = true) :
    s.files.all (fun f => f.id ≠ row.id) = true :=
  (Bool.and_eq_true _ _ ▸ (Bool.and_eq_true _ _ ▸ h).1).1

/-! ## `POST /api/v1/files/upload` -/

section Upload

variable {user : String} {form : UploadForm} {file : UploadedFile}

/-- The row of an upload. -/
def uploadRow (d : Deployment) (sha256 : Bytes → String) (c : Call) (user : String)
    (form : UploadForm) (file : UploadedFile) : FileEntry :=
  newFile c user (truthy form.parentId) (orElse file.name "unnamed_file") file.type file.bytes.length
    (uploadHash sha256 form.sha256Hash (storagePlace d c file.bytes).2) (storagePlace d c file.bytes).1
    (storagePlace d c file.bytes).2

/-- What R2 has after it. -/
def afterPut (d : Deployment) (c : Call) (user : String) (bytes : Bytes) (s : Store) : Store :=
  if goesToR2 d c then { s with objects := s.objects.set (r2Key user c.fileId) bytes } else s

/-- The upload is answered with 201: there is a file, the quota can be read and has room for it, and
the row can be inserted. -/
structure CanUpload (d : Deployment) (sha256 : Bytes → String) (c : Call) (user : String)
    (form : UploadForm) (s : Store) (file : UploadedFile) : Prop where
  sent : form.file = some file
  column : d.quotaColumn = true
  room : (s.quota user).any (fun quota => quota < s.usedBytes user + file.bytes.length) = false
  accepts : s.accepts (uploadRow d sha256 c user form file) = true

/-- The bytes go to R2, or fit in the row. -/
def Kept (d : Deployment) (c : Call) (bytes : Bytes) : Prop :=
  goesToR2 d c = true ∨ bytes.length ≤ twoMiB

/-- A hash that the client sends is that of the bytes. -/
def HonestHash (sha256 : Bytes → String) (form : UploadForm) (bytes : Bytes) : Prop :=
  ∀ hash, truthy form.sha256Hash = some hash → hash = sha256 bytes

theorem accepts_afterPut (bytes : Bytes) (row : FileEntry) :
    (afterPut d c user bytes s).accepts row = s.accepts row := by
  rw [afterPut]
  split <;> rfl

theorem wp_uploadFile {sha256 : Bytes → String} {Q : FileEntry → Store → Prop} :
    wp (uploadFile d sha256 c user form) Q (fun _ _ => True) s ↔
      ∀ file, CanUpload d sha256 c user form s file →
        Q (uploadRow d sha256 c user form file)
          ((afterPut d c user file.bytes s).addFile (uploadRow d sha256 c user form file)) := by
  simp only [uploadFile, checkQuota, wp_bind, wp_okOr, wp_ensure, wp_get, wp_modify, wp_insertFile,
    wp_pure, imp_true_iff, and_true, Bool.not_eq_true']
  constructor
  · intro h file hcan
    exact h file hcan.sent hcan.column hcan.room ((accepts_afterPut file.bytes _).trans hcan.accepts)
  · intro h file hfile hcolumn hroom haccepts
    exact h file ⟨hfile, hcolumn, hroom, (accepts_afterPut file.bytes _).symm.trans haccepts⟩

/-- Where the bytes of a row in R2 or of a blob are found. -/
theorem find_uploadRow {sha256 : Bytes → String} (hkept : Kept d c file.bytes) :
    ((afterPut d c user file.bytes s).addFile (uploadRow d sha256 c user form file)).find d read
        (uploadRow d sha256 c user form file) none =
      some ((uploadRow d sha256 c user form file).content 200 file.bytes) := by
  by_cases hr2 : goesToR2 d c = true
  · have hcache : d.cacheR2 = true := (Bool.and_eq_true _ _ ▸ hr2).1
    simp [Store.find, Store.addFile, uploadRow, newFile, storagePlace, hr2, hcache, afterPut,
      FileEntry.slice]
  · simp [Store.find, uploadRow, newFile, storagePlace, hr2, hkept.resolve_left hr2, FileEntry.slice]

/-- What is neither in R2 nor in the row is not found. -/
theorem find_uploadRow_none {sha256 : Bytes → String} (hkept : ¬ Kept d c file.bytes) (s' : Store) :
    s'.find d read (uploadRow d sha256 c user form file) none = none := by
  obtain ⟨hr2, hsize⟩ := not_or.mp hkept
  simp [Store.find, uploadRow, newFile, storagePlace, hr2, hsize]

/-- The hash is the client's, or that of the blob. -/
theorem uploadHash_iff {sha256 : Bytes → String} {bytes : Bytes} {dataBlob : Option Bytes}
    (hblob : ∀ blob ∈ dataBlob, blob = bytes) :
    (uploadHash sha256 form.sha256Hash dataBlob = "" ∨
      uploadHash sha256 form.sha256Hash dataBlob = sha256 bytes) ↔ HonestHash sha256 form bytes := by
  unfold uploadHash HonestHash
  cases htruthy : truthy form.sha256Hash with
  | some hash =>
    have hne : hash ≠ "" := by simpa using (Option.filter_eq_some_iff.mp htruthy).2
    simp [hne]
  | none =>
    cases dataBlob with
    | none => simp
    | some blob => simp [hblob blob rfl]

theorem blob_storagePlace (bytes : Bytes) : ∀ blob ∈ (storagePlace d c bytes).2, blob = bytes := by
  intro blob hblob
  unfold storagePlace at hblob
  split at hblob
  · cases hblob
  · split at hblob
    · exact (Option.some.inj hblob).symm
    · cases hblob

/-- **Which uploads are answered as promised**: those whose bytes are kept, and whose hash is not
another's. -/
theorem answered_uploadRow_iff {sha256 : Bytes → String} (hcan : CanUpload d sha256 c user form s file) :
    Answered d sha256 read file.bytes (uploadRow d sha256 c user form file)
        ((afterPut d c user file.bytes s).addFile (uploadRow d sha256 c user form file)) ↔
      Kept d c file.bytes ∧ HonestHash sha256 form file.bytes := by
  have haccepts : (afterPut d c user file.bytes s).accepts (uploadRow d sha256 c user form file) = true :=
    (accepts_afterPut file.bytes _).trans hcan.accepts
  have hstored := find_addFile (accepts_fresh haccepts)
  constructor
  · intro h
    refine ⟨?_, (uploadHash_iff (blob_storagePlace file.bytes)).mp h.hash⟩
    by_contra hkept
    exact ((wp_downloadFile hstored).mp h.download).2 (find_uploadRow_none hkept _)
  · rintro ⟨hkept, hhash⟩
    refine ⟨hstored, (wp_downloadFile hstored).mpr ?_, rfl,
      (uploadHash_iff (blob_storagePlace file.bytes)).mpr hhash⟩
    rw [find_uploadRow hkept]
    exact ⟨fun content h => Option.some.inj h ▸ ⟨rfl, rfl⟩, fun h => by cases h⟩

end Upload

/-! ## `POST /s/:token/upload` -/

section ShareUpload

variable {r : ShareRequest} {form : UploadForm} {file : UploadedFile} {share : Share}

/-- The row of an upload through a link. -/
def shareRow (sha256 : Bytes → String) (c : Call) (share : Share) (file : UploadedFile) : FileEntry :=
  let dataBlob := if file.bytes.length ≤ twoMiB then some file.bytes else none
  newFile c share.userId (some share.fileId) (orElse file.name "uploaded_file") file.type
    file.bytes.length (dataBlob.elim "" sha256) "d1" dataBlob

/-- The upload is answered with 201: the link accepts it, there is a file, and the row can be
inserted. -/
structure CanShareUpload (p : Platform) (c : Call) (r : ShareRequest) (form : UploadForm) (s : Store)
    (share : Share) (file : UploadedFile) : Prop where
  found : s.share r.token = some share
  isRequest : share.isUploadRequest = true
  unexpired : share.expired p c.now = false
  opens : share.opens p (r.uploadPassword form) = true
  sent : form.file = some file
  accepts : s.accepts (shareRow p.sha256 c share file) = true

theorem wp_uploadShare {Q : FileEntry → Store → Prop} :
    wp (uploadShare p c r form) Q (fun _ _ => True) s ↔
      ∀ share file, CanShareUpload p c r form s share file →
        Q (shareRow p.sha256 c share file) (s.addFile (shareRow p.sha256 c share file)) := by
  simp only [uploadShare, wp_bind, wp_okOr, wp_ensure, wp_get, wp_insertFile, wp_pure, imp_true_iff,
    and_true, Bool.not_eq_true']
  constructor
  · intro h share file hcan
    exact h share hcan.found hcan.isRequest hcan.unexpired hcan.opens file hcan.sent hcan.accepts
  · intro h share hfound hrequest hunexpired hopens file hsent haccepts
    exact h share file ⟨hfound, hrequest, hunexpired, hopens, hsent, haccepts⟩

/-- **Uploads through a link are answered as promised if they fit in the row**, and only then. -/
theorem answered_shareRow_iff {sha256 : Bytes → String}
    (haccepts : s.accepts (shareRow sha256 c share file) = true) :
    Answered d sha256 read file.bytes (shareRow sha256 c share file)
        (s.addFile (shareRow sha256 c share file)) ↔ file.bytes.length ≤ twoMiB := by
  have hstored := find_addFile (accepts_fresh haccepts)
  constructor
  · intro h
    by_contra hsize
    refine ((wp_downloadFile hstored).mp h.download).2 ?_
    simp [Store.find, shareRow, newFile, hsize]
  · intro hsize
    have hfind : (s.addFile (shareRow sha256 c share file)).find d read (shareRow sha256 c share file)
        none = some ((shareRow sha256 c share file).content 200 file.bytes) := by
      simp [Store.find, shareRow, newFile, hsize, FileEntry.slice]
    refine ⟨hstored, (wp_downloadFile hstored).mpr ?_, rfl, Or.inr ?_⟩
    · rw [hfind]
      exact ⟨fun content h => Option.some.inj h ▸ ⟨rfl, rfl⟩, fun h => by cases h⟩
    · simp [shareRow, newFile, hsize]

end ShareUpload

/-! ## Both -/

/-- An upload that is answered with 201 is there, and so is one through a link. -/
structure Durable (d : Deployment) (p : Platform) (read : FsReadChunk) (c : Call) (user : String)
    (r : ShareRequest) (form : UploadForm) (s : Store) : Prop where
  upload : wp (uploadFile d p.sha256 c user form)
    (fun row s' => ∀ file ∈ form.file, Answered d p.sha256 read file.bytes row s') (fun _ _ => True) s
  share : wp (uploadShare p c r form)
    (fun row s' => ∀ file ∈ form.file, Answered d p.sha256 read file.bytes row s') (fun _ _ => True) s

/-- **Which uploads are durable.**  Those that answer 201 only for bytes that go to R2 or fit in the
row, with no hash but theirs, and through a link only for bytes that fit in the row. -/
theorem durable_iff {user : String} {r : ShareRequest} {form : UploadForm} :
    Durable d p read c user r form s ↔
      (∀ file, CanUpload d p.sha256 c user form s file →
        Kept d c file.bytes ∧ HonestHash p.sha256 form file.bytes) ∧
      ∀ share file, CanShareUpload p c r form s share file → file.bytes.length ≤ twoMiB := by
  constructor
  · intro h
    refine ⟨fun file hcan => ?_, fun share file hcan => ?_⟩
    · exact (answered_uploadRow_iff hcan).mp (wp_uploadFile.mp h.upload file hcan file hcan.sent)
    · exact (answered_shareRow_iff hcan.accepts).mp
        (wp_uploadShare.mp h.share share file hcan file hcan.sent)
  · rintro ⟨hupload, hshare⟩
    refine ⟨wp_uploadFile.mpr fun file hcan file' hfile' => ?_,
      wp_uploadShare.mpr fun share file hcan file' hfile' => ?_⟩
    · obtain rfl := Option.some.inj (hcan.sent.symm.trans hfile')
      exact (answered_uploadRow_iff hcan).mpr (hupload file hcan)
    · obtain rfl := Option.some.inj (hcan.sent.symm.trans hfile')
      exact (answered_shareRow_iff hcan.accepts).mpr (hshare share file hcan)

open Noon Pcos.Sample

/-- A folder of Alice's. -/
def dropFolder : FileEntry :=
  ⟨"folder", alice.text, none, "Drop", "", 0, "", "", none, false, none, 0, 0⟩

/-- A request for files into it, without password or expiry. -/
def fileRequest : Share :=
  ⟨"shr_1", alice.text, "folder", "0123456789abcdef", true, true, none, none, none, 0, 0⟩

def dropStore : Store := ⟨[(alice.text, ⟨none, 53687091200⟩)], [dropFolder], [], [fileRequest], .empty⟩

/-- One byte too many for a row. -/
def bigFile : UploadedFile := ⟨"big.bin", "", List.replicate (twoMiB + 1) 0⟩

/-- **It is answered with 201, and is not there.** -/
theorem not_durable_bigFile :
    ¬ Durable ⟨false, true, false⟩ platform (fun _ _ _ _ => none) ⟨0, "new", 0⟩ alice.text
      ⟨"0123456789abcdef", none, none, none⟩ ⟨some bigFile, none, none, none⟩ dropStore := by
  intro h
  have hcan : CanShareUpload platform ⟨0, "new", 0⟩ ⟨"0123456789abcdef", none, none, none⟩
      ⟨some bigFile, none, none, none⟩ dropStore fileRequest bigFile :=
    ⟨by decide, rfl, rfl, rfl, rfl, by decide⟩
  have hsize := (answered_shareRow_iff hcan.accepts).mp
    (wp_uploadShare.mp h.share fileRequest bigFile hcan bigFile rfl)
  rw [bigFile, List.length_replicate] at hsize
  omega

end Pcos.Edge.Files
