import Pcos.Backend.Change

/-!
# Backend/Transfers — finalizing in vain, and finalizing twice

`finalize_transfer` puts the chunks together before it compares hashes: on a mismatch the chunks are
gone and the transfer has to be sent again from the start.  Nor does it look whether the entry is in
progress.  An entry that is complete has no chunks any more, so its path becomes one where there is
no file.
-/

namespace Pcos

open Foundations

/-! ## The promise -/

/-- The entry is not a transfer in progress. -/
def FileEntry.Completed (r : FileEntry) : Prop := r.storagePath ≠ some resumableTransfer

/-- The transfer is as it was: its row and its chunks. -/
structure TransferKept (w w' : World) (user file : Uuid) : Prop where
  row : w'.owned user file = w.owned user file
  chunks : w'.chunkDirs user file = w.chunkDirs user file

/-- The path, size and hash of the entry are what they were, and so is what a download reads. -/
structure ContentKept (w w' : World) (r : FileEntry) : Prop where
  row : ∃ r' ∈ w'.entries.rows, r'.id = r.id ∧ r'.storagePath = r.storagePath
    ∧ r'.sizeBytes = r.sizeBytes ∧ r'.sha256Hash = r.sha256Hash
  blob : ∀ path, r.storagePath = some path → ∀ data, w.blobs path = some data →
    w'.blobs path = some data

/-- **`finalize_transfer` is atomic and idempotent** here: an error leaves the transfer as it was, and
an entry that is complete keeps its content. -/
structure FinalizesSafely (env : Env) (c : Call) (transferId : String) (clientHash : Option String)
    (w : World) : Prop where
  atomic : ∀ e w', finalizeTransfer env c transferId clientHash w = .error e w' →
    ∀ file, transferUuid env transferId = some file → TransferKept w w' c.user file
  idempotent : ∀ file r, transferUuid env transferId = some file → w.owned c.user file = some r →
    r.Completed → ContentKept w (leaves (finalizeTransfer env c transferId clientHash) w) r

/-! ## When it is kept -/

/-- The row says so already. -/
def FileEntry.Says (r : FileEntry) (path hash : String) (size : ℤ) : Prop :=
  r.storagePath = some path ∧ r.sizeBytes = size ∧ r.sha256Hash = some hash

/-- A file of this content at this path would replace the entry's. -/
def Replaces (w : World) (r : FileEntry) (path : String) (data : Bytes) : Prop :=
  r.storagePath = some path ∧ ∃ old, w.blobs path = some old ∧ old ≠ data

/-- The chunks, if there are any, one after the other. -/
def pieces (w : World) (user file : Uuid) : Option (Except Bytes Bytes) :=
  match w.chunkDirs user file with
  | some chunks =>
    if 0 < chunks.length then some (readChunks (some chunks) (chunkIndexes chunks.length) [])
    else none
  | none => none

/-- The hash and the size that stand in for those of the chunks when there are none. -/
def standIn (w : World) (r : FileEntry) (user file : Uuid) : String × ℤ :=
  match w.chunkDirs user file with
  | some _ => ("empty", 0)
  | none => (r.sha256Hash.getD "verified", r.sizeBytes)

/-- **Nothing is lost**: the client does not contradict chunks that can be put together, and over a
completed entry nothing is written but what is there. -/
def Harmless (env : Env) (c : Call) (clientHash : Option String) (w : World) (file : Uuid)
    (r : FileEntry) : Prop :=
  match pieces w c.user file with
  | some (.ok data) =>
    hashMismatch clientHash (env.sha256 data) = false
      ∧ (r.Completed → r.Says (filePath c.user file) (env.sha256 data) data.length
        ∧ ¬ Replaces w r (filePath c.user file) data)
  | some (.error part) => r.Completed → ¬ Replaces w r (tmpAsmPath c.user file c.tmpId) part
  | none => r.Completed →
      hashMismatch clientHash (standIn w r c.user file).1 = true
        ∨ 64 < (finalSha256 clientHash (standIn w r c.user file).1).length
        ∨ r.Says (flatPath c.user file) (finalSha256 clientHash (standIn w r c.user file).1)
          (standIn w r c.user file).2

/-! ## The statement that finishes a transfer -/

/-- The row, finished. -/
def FileEntry.finish (c : Call) (path hash : String) (size : ℤ) (r : FileEntry) : FileEntry :=
  { r with storagePath := some path, sha256Hash := some hash, sizeBytes := size, updatedAt := c.now }

section Finalize

variable {env : Env} {c : Call} {transferId : String} {clientHash : Option String} {w w' : World}
  {file : Uuid} {r : FileEntry} {t : FileTable} {path hash : String} {size : ℤ} {data : Bytes}

/-- It is refused exactly when the hash does not fit its column. -/
theorem update_finish_eq_none (hr : r ∈ w.entries.rows) (hid : r.id = file) :
    w.entries.update (fun r => r.id = file) (FileEntry.finish c path hash size) = none
      ↔ 64 < hash.length := by
  constructor
  · intro hnone
    by_contra hfit
    have hsome := FileTable.update_isSome (t := w.entries) (p := fun r => r.id = file)
      (f := FileEntry.finish c path hash size) (fun _ => rfl) (fun _ => rfl) (fun _ => rfl)
      fun r hr _ => ⟨(w.entries.valid.fits r hr).1, (w.entries.valid.fits r hr).2.1,
        fun h hh => by cases hh; omega⟩
    rw [hnone] at hsome
    cases hsome
  · intro hlong
    cases ht : w.entries.update (fun r => r.id = file) (FileEntry.finish c path hash size) with
    | none => rfl
    | some t =>
      have hmem := (FileTable.mem_update ht).mpr ⟨r, hr, rfl⟩
      rw [if_pos (by simpa using hid)] at hmem
      exact absurd ((t.valid.fits _ hmem).2.2 hash rfl) (by omega)

/-- Where it is accepted, the entry is kept exactly if it said so already. -/
theorem contentKept_finish
    (ht : w.entries.update (fun r => r.id = file) (FileEntry.finish c path hash size) = some t)
    (hr : r ∈ w.entries.rows) (hid : r.id = file) (hw' : w'.entries = t) :
    ContentKept w w' r ↔ r.Says path hash size ∧ ∀ path, r.storagePath = some path →
      ∀ data, w.blobs path = some data → w'.blobs path = some data := by
  have hmem := (FileTable.mem_update ht).mpr ⟨r, hr, rfl⟩
  rw [if_pos (by simpa using hid)] at hmem
  constructor
  · rintro ⟨⟨r', hr', hid', hpath, hsize, hhash⟩, hblob⟩
    rw [hw'] at hr'
    obtain rfl := FileTable.eq_of_id hr' hmem hid'
    exact ⟨⟨hpath.symm, hsize.symm, hhash.symm⟩, hblob⟩
  · rintro ⟨⟨hpath, hsize, hhash⟩, hblob⟩
    rw [← hw'] at hmem
    exact ⟨⟨_, hmem, rfl, hpath.symm, hsize.symm, hhash.symm⟩, hblob⟩

/-- Where the table is not touched, what matters is the file. -/
theorem contentKept_of_entries (hr : r ∈ w.entries.rows) (hw' : w'.entries = w.entries) :
    ContentKept w w' r ↔ ∀ path, r.storagePath = some path →
      ∀ data, w.blobs path = some data → w'.blobs path = some data :=
  ⟨ContentKept.blob, fun hblob => ⟨⟨r, hw' ▸ hr, rfl, rfl, rfl, rfl⟩, hblob⟩⟩

/-- A file is written over the entry's, or is not. -/
theorem blobs_putBlob_iff :
    (∀ path', r.storagePath = some path' → ∀ old, w.blobs path' = some old →
      (w.putBlob path data).blobs path' = some old) ↔ ¬ Replaces w r path data := by
  constructor
  · rintro h ⟨hpath, old, hold, hne⟩
    have hnew := h path hpath old hold
    simp only [World.putBlob, if_true, Option.some.injEq] at hnew
    exact hne hnew.symm
  · intro h path' hpath old hold
    simp only [World.putBlob]
    split
    case isTrue heq =>
      subst heq
      exact congrArg some (by_contra fun hne => h ⟨hpath, old, hold, Ne.symm hne⟩)
    case isFalse => exact hold

/-! ## The handler, branch by branch -/

/-- What an error has to keep… -/
def KeptOnError (c : Call) (w : World) (file : Uuid) (r : FileEntry) (w' : World) : Prop :=
  TransferKept w w' c.user file ∧ (r.Completed → ContentKept w w' r)

/-- …and the promise, as a postcondition for either exit. -/
theorem finalizesSafely_iff_wp (htid : transferUuid env transferId = some file)
    (hr : w.owned c.user file = some r) :
    FinalizesSafely env c transferId clientHash w
      ↔ wp (finalizeTransfer env c transferId clientHash)
        (fun _ w' => r.Completed → ContentKept w w' r) (fun _ => KeptOnError c w file r) w := by
  have hfile : ∀ file', transferUuid env transferId = some file' → file' = file := fun file' h =>
    Option.some.inj (h.symm.trans htid)
  have hrow : ∀ file' r', transferUuid env transferId = some file' →
      w.owned c.user file' = some r' → r' = r := fun file' r' h hr' => by
    rw [hfile file' h, hr] at hr'
    exact (Option.some.inj hr').symm
  unfold wp
  cases hres : finalizeTransfer env c transferId clientHash w with
  | ok a w' =>
    have hleaves : leaves (finalizeTransfer env c transferId clientHash) w = w' := by
      rw [leaves, hres]
    constructor
    · intro h hdone
      exact hleaves ▸ h.idempotent file r htid hr hdone
    · intro h
      refine ⟨fun e w'' herr => ?_, fun file' r' h' hr' hdone => ?_⟩
      · rw [hres] at herr
        cases herr
      · obtain rfl := hrow file' r' h' hr'
        exact hleaves ▸ h hdone
  | error e w' =>
    have hleaves : leaves (finalizeTransfer env c transferId clientHash) w = w' := by
      rw [leaves, hres]
    constructor
    · intro h
      exact ⟨h.atomic e w' hres file htid, fun hdone => hleaves ▸ h.idempotent file r htid hr hdone⟩
    · rintro ⟨hkept, hcontent⟩
      refine ⟨fun e' w'' herr file' h' => ?_, fun file' r' h' hr' hdone => ?_⟩
      · rw [hres] at herr
        cases herr
        exact hfile file' h' ▸ hkept
      · obtain rfl := hrow file' r' h' hr'
        exact hleaves ▸ hcontent hdone

/-- Hash, then `UPDATE`: what follows once path, hash and size are there. -/
theorem wp_finalizeTransfer {Q : ResumableFinalizeResponse → World → Prop} {P : World → Prop}
    (htid : transferUuid env transferId = some file) (hr : w.owned c.user file = some r) :
    wp (finalizeTransfer env c transferId clientHash) Q (fun _ => P) w
      ↔ wp (finalContent env c r file) (fun x w' =>
          (hashMismatch clientHash x.2.1 = true → P w')
          ∧ (hashMismatch clientHash x.2.1 = false →
            (∀ t, w'.entries.update (fun r => r.id = file)
                (FileEntry.finish c x.1 (finalSha256 clientHash x.2.1) x.2.2) = some t →
              Q ⟨true, file, r.name, x.2.2, finalSha256 clientHash x.2.1⟩ { w' with entries := t })
            ∧ (w'.entries.update (fun r => r.id = file)
                (FileEntry.finish c x.1 (finalSha256 clientHash x.2.1) x.2.2) = none → P w')))
        (fun _ => P) w := by
  simp only [finalizeTransfer, parseTransferUuid, wp_bind, wp_okOr, wp_get, htid, hr,
    Option.some.injEq, forall_eq', reduceCtorEq, false_imp_iff, and_true]
  constructor <;> intro h <;> refine wp_mono h (fun x w' hx => ?_) fun _ _ => id
  · simp only [wp_ensure, wp_updateEntries, wp_pure, Bool.not_eq_true', Bool.not_eq_false'] at hx
    exact hx.symm
  · simp only [wp_ensure, wp_updateEntries, wp_pure, Bool.not_eq_true', Bool.not_eq_false']
    exact hx.symm

/-- Path, hash and size: of the chunks, or made up. -/
theorem wp_finalContent {Q : String × String × ℤ → World → Prop} {P : World → Prop} :
    wp (finalContent env c r file) Q (fun _ => P) w
      ↔ match pieces w c.user file with
        | some (.ok data) => Q (filePath c.user file, env.sha256 data, data.length)
            ((w.putBlob (filePath c.user file) data).dropChunks c.user file)
        | some (.error part) => P (w.putBlob (tmpAsmPath c.user file c.tmpId) part)
        | none => Q (flatPath c.user file, standIn w r c.user file) w := by
  simp only [finalContent, pieces, standIn, wp_bind, wp_get]
  cases hdir : w.chunkDirs c.user file with
  | none => rfl
  | some chunks =>
    by_cases hlen : 0 < chunks.length
    · simp only [hlen, if_true, assembleChunks, wp_bind, wp_get, hdir]
      cases readChunks (some chunks) (chunkIndexes chunks.length) [] <;> rfl
    · simp only [hlen, if_false]
      rfl

/-! ## The three branches -/

theorem keptOnError_self (hr : r ∈ w.entries.rows) : KeptOnError c w file r w :=
  ⟨⟨rfl, rfl⟩, fun _ => ⟨⟨r, hr, rfl, rfl, rfl, rfl⟩, fun _ _ _ => id⟩⟩

/-- A missing chunk leaves a temporary file, and nothing else. -/
theorem keptOnError_putBlob (hr : r ∈ w.entries.rows) :
    KeptOnError c w file r (w.putBlob path data) ↔ (r.Completed → ¬ Replaces w r path data) := by
  have hiff : ContentKept w (w.putBlob path data) r ↔ ¬ Replaces w r path data :=
    (@contentKept_of_entries w (w.putBlob path data) r hr rfl).trans blobs_putBlob_iff
  exact ⟨fun h hdone => hiff.mp (h.2 hdone), fun h => ⟨⟨rfl, rfl⟩, fun hdone => hiff.mpr (h hdone)⟩⟩

/-- Where there were chunks, they are missed. -/
theorem not_keptOnError_dropChunks (hpieces : pieces w c.user file = some (.ok data)) :
    ¬ KeptOnError c w file r ((w.putBlob path data).dropChunks c.user file) := by
  rintro ⟨⟨-, hchunks⟩, -⟩
  have hnone : w.chunkDirs c.user file = none := hchunks.symm.trans (if_pos ⟨rfl, rfl⟩)
  rw [pieces, hnone] at hpieces
  cases hpieces

/-- What a refused or an accepted `UPDATE` comes to, over the entry or over the chunks. -/
theorem harmless_assembled (hr : r ∈ w.entries.rows) (hid : r.id = file) :
    (∀ t, w.entries.update (fun r => r.id = file) (FileEntry.finish c path (env.sha256 data) size)
        = some t → r.Completed → ContentKept w
          { (w.putBlob path data).dropChunks c.user file with entries := t } r)
      ↔ (r.Completed → r.Says path (env.sha256 data) size ∧ ¬ Replaces w r path data) := by
  cases ht : w.entries.update (fun r => r.id = file)
      (FileEntry.finish c path (env.sha256 data) size) with
  | none =>
    have hlong := (update_finish_eq_none hr hid).mp ht
    rw [env.length_sha256] at hlong
    omega
  | some t =>
    simp only [Option.some.injEq, forall_eq']
    refine imp_congr_right fun _ => (contentKept_finish ht hr hid rfl).trans ?_
    exact and_congr_right fun _ => blobs_putBlob_iff

theorem harmless_standIn (hr : r ∈ w.entries.rows) (hid : r.id = file) :
    (∀ t, w.entries.update (fun r => r.id = file) (FileEntry.finish c path hash size) = some t →
        r.Completed → ContentKept w { w with entries := t } r)
      ↔ (r.Completed → 64 < hash.length ∨ r.Says path hash size) := by
  cases ht : w.entries.update (fun r => r.id = file) (FileEntry.finish c path hash size) with
  | none =>
    have hlong := (update_finish_eq_none hr hid).mp ht
    exact ⟨fun _ _ => Or.inl hlong, fun _ _ h => by cases h⟩
  | some t =>
    have hshort : ¬ 64 < hash.length := fun hlong => by
      rw [(update_finish_eq_none hr hid).mpr hlong] at ht
      cases ht
    simp only [Option.some.injEq, forall_eq', hshort, false_or]
    refine imp_congr_right fun _ => (contentKept_finish ht hr hid rfl).trans ?_
    exact and_iff_left fun _ _ _ => id

/-- The promise for an entry there is. -/
theorem promise_iff (htid : transferUuid env transferId = some file)
    (hr : w.owned c.user file = some r) :
    wp (finalizeTransfer env c transferId clientHash) (fun _ w' => r.Completed → ContentKept w w' r)
        (fun _ => KeptOnError c w file r) w ↔ Harmless env c clientHash w file r := by
  obtain ⟨hmem, hid, -⟩ := World.owned_eq_some.mp hr
  rw [wp_finalizeTransfer htid hr, wp_finalContent, Harmless]
  cases hpieces : pieces w c.user file with
  | none =>
    simp only [keptOnError_self hmem, imp_true_iff, true_and, and_true,
      harmless_standIn hmem hid]
    cases hashMismatch clientHash (standIn w r c.user file).1 <;> simp
  | some read =>
    cases read with
    | error part => exact keptOnError_putBlob hmem
    | ok data =>
      simp only [finalSha256_sha256, not_keptOnError_dropChunks hpieces, imp_false]
      have hnone : w.entries.update (fun r => r.id = file)
          (FileEntry.finish c (filePath c.user file) (env.sha256 data) data.length) ≠ none := by
        rw [Ne, update_finish_eq_none hmem hid, env.length_sha256]
        decide
      rw [Bool.not_eq_true]
      refine and_congr_right fun hmatch => ?_
      refine Iff.trans ?_ (harmless_assembled (c := c) hmem hid)
      exact ⟨fun h => (h hmatch).1, fun h _ => ⟨h, hnone⟩⟩

/-- **`finalize_transfer` is atomic and idempotent exactly where it is harmless**: where the client
does not contradict chunks that can be put together, and over a completed entry nothing is written
but what is there. -/
theorem finalizesSafely_iff (env : Env) (c : Call) (transferId : String)
    (clientHash : Option String) (w : World) :
    FinalizesSafely env c transferId clientHash w
      ↔ ∀ file r, transferUuid env transferId = some file → w.owned c.user file = some r →
        Harmless env c clientHash w file r := by
  constructor
  · intro h file r htid hr
    exact (promise_iff htid hr).mp ((finalizesSafely_iff_wp htid hr).mp h)
  · intro h
    cases htid : transferUuid env transferId with
    | none =>
      refine ⟨fun _ _ _ file hfile => ?_, fun file _ hfile => ?_⟩ <;>
        · rw [htid] at hfile
          cases hfile
    | some file =>
      cases hr : w.owned c.user file with
      | some r => exact (finalizesSafely_iff_wp htid hr).mpr ((promise_iff htid hr).mpr (h file r htid hr))
      | none =>
        have hsame : wp (finalizeTransfer env c transferId clientHash) (fun _ w' => w' = w)
            (fun _ w' => w' = w) w := by
          simp [finalizeTransfer, parseTransferUuid, htid, hr]
        refine ⟨fun e w' hres _ _ => ?_, fun file' r hfile hown => ?_⟩
        · rw [wp, hres] at hsame
          exact hsame ▸ ⟨rfl, rfl⟩
        · obtain rfl := Option.some.inj (htid.symm.trans hfile)
          rw [hr] at hown
          cases hown

end Finalize

/-! ## Two runs -/

open Sample

/-- Alice uploads a file. -/
def oneUpload : World :=
  run (step env) start [sent alice 0 id1 (.uploadFile none "f" "text/plain" [0x61])]

/-- The request that finalizes it, though it is no transfer. -/
def finalizer : Call := ⟨alice, 1, id2, tmp, 0⟩

/-- **A second finalize loses the file**: its row points to a path where there is none. -/
theorem not_finalizesSafely_oneUpload :
    ¬ FinalizesSafely env finalizer id1.text none oneUpload
      ∧ (leaves (finalizeTransfer env finalizer id1.text none) oneUpload).entries.rows.map
          (fun r => (r.storagePath, contentOf (leaves (finalizeTransfer env finalizer id1.text none)
            oneUpload) r)) = [(some (flatPath alice id1), none)] := by
  refine ⟨fun h => ?_, by decide⟩
  have hbefore : ∀ r ∈ oneUpload.entries.rows, r.storagePath = some (filePath alice id1) := by decide
  have hafter : ∀ r ∈ (leaves (finalizeTransfer env finalizer id1.text none)
      oneUpload).entries.rows, r.storagePath = some (flatPath alice id1) := by decide
  obtain ⟨r, hr⟩ := Option.isSome_iff_exists.mp
    (by decide : (oneUpload.owned finalizer.user id1).isSome)
  have hpath := hbefore r (World.owned_eq_some.mp hr).1
  have hdone : r.Completed := by
    rw [FileEntry.Completed, hpath]
    decide
  obtain ⟨⟨r', hr', -, hkept, -⟩, -⟩ := h.idempotent id1 r (by decide) hr hdone
  rw [hafter r' hr', hpath] at hkept
  exact absurd hkept (by decide)

/-- A transfer of one byte, sent. -/
def oneChunk : World :=
  run (step env) (.empty (.isFavorite :: migratedColumns) users)
    [sent alice 0 id1 (.initTransfer ⟨"f", 1, none, none, none⟩),
      sent alice 1 id2 (.writeChunk id1.text 0 "YQ==")]

/-- A hash that the chunk contradicts costs the chunk. -/
example : oneChunk.chunkDirs alice id1 = some [(0, [0x61])]
    ∧ (leaves (finalizeTransfer env finalizer id1.text (some "")) oneChunk).chunkDirs alice id1
      = none := by
  decide

end Pcos
