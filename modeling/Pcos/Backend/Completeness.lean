import Mathlib.Data.List.Dedup
import Pcos.Backend.Transfers
import Pcos.Foundations.Base64
import Pcos.Foundations.Overlay

/-!
# Backend/Completeness — whether a finalized transfer is what was sent

A chunk is kept under the quotient of its offset by 2 MiB, and the newest of each quotient are put
end to end, as many as there are quotients, from 0 on.  Neither the offsets within 2 MiB nor the
announced size are looked at again.  So it is the positions and lengths of the chunks that decide:
`completed_iff` says when everything that could be sent in chunks of these positions and lengths
comes out as it was sent.
-/

namespace Pcos

open Foundations

/-! ## Sending -/

/-- The body of a chunk request. -/
structure ResumableChunkRequest where
  offset : ℤ
  dataBase64 : String
  deriving DecidableEq

/-- The requests, one after the other. -/
def chunkEvents (transferId : String) (requests : List (Call × ResumableChunkRequest)) :
    List Event :=
  requests.map fun x => ⟨x.1, .writeChunk transferId x.2.offset x.2.dataBase64⟩

/-- The chunk of a request of the owner, if its payload can be decoded. -/
def acceptedChunk (env : Env) (user : Uuid) (x : Call × ResumableChunkRequest) :
    Option (ℤ × Bytes) :=
  if x.1.user = user then (env.base64Decode x.2.dataBase64).map fun data => (x.2.offset, data)
  else none

/-- The accepted chunks, newest first. -/
def acceptedChunks (env : Env) (user : Uuid) (requests : List (Call × ResumableChunkRequest)) :
    List (ℤ × Bytes) :=
  (requests.filterMap (acceptedChunk env user)).reverse

/-- The chunk directory that they leave. -/
def chunkDirOf (h : List (ℤ × Bytes)) : List (ℤ × Bytes) :=
  h.foldr (fun ch dir => (chunkIndex ch.1, ch.2) :: dir.filter fun c => c.1 ≠ chunkIndex ch.1) []

/-- The transfer of `size` bytes is in progress, and these chunks of it have been accepted; nothing is
stored under its path. -/
structure InProgress (w : World) (user file : Uuid) (size : ℤ) (h : List (ℤ × Bytes)) : Prop where
  row : ∃ r ∈ w.entries.rows, r.id = file ∧ r.userId = user
    ∧ r.storagePath = some resumableTransfer ∧ r.sizeBytes = size
  chunks : w.chunkDirs user file = if h = [] then none else some (chunkDirOf h)
  blank : w.blobs (flatPath user file) = none

/-! ## What is to be -/

/-- The entry has a file of this size, each byte of it the one last sent in a chunk that covers it. -/
def HoldsLast (file : Uuid) (size : ℤ) (h : List (ℤ × Bytes)) (w : World) : Prop :=
  ∃ r ∈ w.entries.rows, r.id = file ∧ ∃ path data, r.storagePath = some path
    ∧ w.blobs path = some data ∧ (data.length : ℤ) = size
    ∧ ∀ p < data.length, overlay h p = data[p]?

/-- **If the transfer is finalized, it is complete.** -/
def Complete (env : Env) (c : Call) (transferId : String) (clientHash : Option String) (size : ℤ)
    (h : List (ℤ × Bytes)) (w : World) : Prop :=
  wp (finalizeTransfer env c transferId clientHash)
    (fun response => HoldsLast response.fileId size h) (fun _ _ => True) w

/-- The indexes that chunks of these positions and lengths are kept under. -/
def indexes (s : List (ℤ × ℕ)) : List ℤ := (s.map fun x => chunkIndex x.1).dedup

/-- The indexes that are read: `0..count`. -/
def readIndexes (s : List (ℤ × ℕ)) : List ℤ := chunkIndexes (indexes s).length

/-! ## The chunk directory -/

section Dir

variable {h : List (ℤ × Bytes)} {i : ℤ} {is : List ℤ}

theorem lookup_chunkDirOf : (chunkDirOf h).lookup i
    = (h.find? fun x => chunkIndex x.1 = i).map Prod.snd := by
  induction h with
  | nil => rfl
  | cons ch h ih =>
    rw [chunkDirOf, List.foldr_cons, List.lookup_cons, ← chunkDirOf]
    by_cases hi : chunkIndex ch.1 = i
    · rw [List.find?_cons_of_pos (by simpa using hi), hi, beq_self_eq_true]
      rfl
    · rw [List.find?_cons_of_neg (by simpa using hi), beq_eq_false_iff_ne.mpr (Ne.symm hi),
        lookup_filter_ne (Ne.symm hi), ih]

theorem keys_chunkDirOf : ((chunkDirOf h).map Prod.fst).Nodup
    ∧ ∀ i, i ∈ (chunkDirOf h).map Prod.fst ↔ i ∈ h.map fun x => chunkIndex x.1 := by
  induction h with
  | nil => exact ⟨List.nodup_nil, fun _ => Iff.rfl⟩
  | cons ch h ih =>
    have hkeys : ∀ i, i ∈ ((chunkDirOf h).filter fun c => c.1 ≠ chunkIndex ch.1).map Prod.fst
        ↔ i ∈ (chunkDirOf h).map Prod.fst ∧ i ≠ chunkIndex ch.1 := by
      intro i
      simp only [List.mem_map, List.mem_filter, decide_eq_true_eq]
      constructor
      · rintro ⟨c, ⟨hc, hne⟩, rfl⟩
        exact ⟨⟨c, hc, rfl⟩, hne⟩
      · rintro ⟨⟨c, hc, rfl⟩, hne⟩
        exact ⟨c, ⟨hc, hne⟩, rfl⟩
    rw [chunkDirOf, List.foldr_cons, List.map_cons, ← chunkDirOf]
    refine ⟨List.nodup_cons.mpr ⟨fun hmem => ((hkeys _).mp hmem).2 rfl, ?_⟩, fun i => ?_⟩
    · exact ih.1.sublist (List.filter_sublist.map _)
    · rw [List.mem_cons, hkeys, ih.2, List.map_cons, List.mem_cons]
      by_cases hi : i = chunkIndex ch.1 <;> simp [hi]

theorem length_chunkDirOf : (chunkDirOf h).length = (indexes (h.map shape)).length := by
  obtain ⟨hnodup, hmem⟩ := keys_chunkDirOf (h := h)
  have hperm : ((chunkDirOf h).map Prod.fst).Perm (indexes (h.map shape)) := by
    rw [indexes, List.map_map]
    exact (List.perm_ext_iff_of_nodup hnodup (List.nodup_dedup _)).mpr fun i => by
      rw [hmem, List.mem_dedup]
      rfl
  rw [← hperm.length_eq, List.length_map]

/-- Reading the directory gathers the newest chunks. -/
theorem readChunks_chunkDirOf (acc : Bytes) :
    match gather chunkIndex h is with
    | some data => readChunks (some (chunkDirOf h)) is acc = .ok (acc ++ data)
    | none => ∃ part, readChunks (some (chunkDirOf h)) is acc = .error part := by
  induction is generalizing acc with
  | nil => simp [gather, readChunks]
  | cons i is ih =>
    rw [readChunks, Option.bind_some, lookup_chunkDirOf, gather]
    cases h.find? fun x => chunkIndex x.1 = i with
    | none => exact ⟨acc, rfl⟩
    | some x =>
      have hrest := ih (acc ++ x.2)
      simp only [Option.bind_some, Option.map_some]
      cases hg : gather chunkIndex h is with
      | none => simpa [hg] using hrest
      | some rest => simpa [hg, List.append_assoc] using hrest

end Dir

/-! ## A run of chunk requests -/

section Send

variable {env : Env} {c : Call} {transferId : String} {w : World} {user file : Uuid} {size : ℤ}
  {h : List (ℤ × Bytes)} {clientHash : Option String} {s : List (ℤ × ℕ)}

theorem InProgress.owned (hw : InProgress w user file size h) :
    ∃ r, w.owned user file = some r ∧ r.storagePath = some resumableTransfer := by
  obtain ⟨r, hr, hid, huser, hpath, -⟩ := hw.row
  exact ⟨r, World.owned_eq_some.mpr ⟨hr, hid, huser⟩, hpath⟩

theorem InProgress.owned_eq_none (hw : InProgress w user file size h) (hne : c.user ≠ user) :
    w.owned c.user file = none := by
  cases hown : w.owned c.user file with
  | none => rfl
  | some r' =>
    obtain ⟨hr', hid', huser'⟩ := World.owned_eq_some.mp hown
    obtain ⟨r, hr, hid, huser, -⟩ := hw.row
    obtain rfl := FileTable.eq_of_id hr hr' (hid.trans hid'.symm)
    exact absurd (huser'.symm.trans huser) hne

/-- Storing a chunk, and noting the time. -/
theorem InProgress.store {offset : ℤ} {data : Bytes} {t : FileTable} (hw : InProgress w user file size h)
    (ht : w.entries.update (fun r => r.id = file) (fun r => { r with updatedAt := c.now }) = some t) :
    InProgress { w.putChunk user file (chunkIndex offset) data with entries := t } user file size
      ((offset, data) :: h) := by
  obtain ⟨r, hr, hid, huser, hpath, hsize⟩ := hw.row
  have hmem := (FileTable.mem_update ht).mpr ⟨r, hr, rfl⟩
  rw [if_pos (by simpa using hid)] at hmem
  refine ⟨⟨_, hmem, hid, huser, hpath, hsize⟩, ?_, hw.blank⟩
  have hdir : (w.chunkDirs user file).getD [] = chunkDirOf h := by
    rw [hw.chunks]
    cases h <;> rfl
  simp only [World.putChunk, and_self, if_true, hdir, reduceCtorEq, if_false]
  rfl

/-- That statement is never refused. -/
theorem update_updatedAt_ne_none :
    w.entries.update (fun r => r.id = file) (fun r => { r with updatedAt := c.now }) ≠ none := by
  intro hnone
  have hsome := FileTable.update_isSome (t := w.entries) (p := fun r => r.id = file)
    (f := fun r => { r with updatedAt := c.now }) (fun _ => rfl) (fun _ => rfl) (fun _ => rfl)
    fun r hr _ => w.entries.valid.fits r hr
  rw [hnone] at hsome
  cases hsome

/-- **A chunk request adds its chunk, if it is accepted, and nothing else.** -/
theorem InProgress.send (hw : InProgress w user file size h)
    (htid : transferUuid env transferId = some file) (x : Call × ResumableChunkRequest) :
    InProgress (leaves (writeChunk env x.1 transferId x.2.offset x.2.dataBase64) w) user file size
      ((acceptedChunk env user x).toList ++ h) := by
  refine wp.leaves (P := fun w' => InProgress w' user file size
    ((acceptedChunk env user x).toList ++ h)) ?_
  obtain ⟨c, offset, text⟩ := x
  simp only [writeChunk, parseTransferUuid, wp_bind, wp_okOr, wp_get, wp_modify, wp_pure,
    wp_updateEntries, htid, Option.some.injEq, forall_eq', reduceCtorEq, false_imp_iff, and_true]
  by_cases huser : c.user = user
  swap
  · rw [hw.owned_eq_none huser, acceptedChunk, if_neg huser, Option.filter_none]
    exact ⟨fun _ h => (by cases h), fun _ => hw⟩
  obtain ⟨r, hr, hpath⟩ := hw.owned
  rw [acceptedChunk, if_pos huser, huser, hr]
  simp only [Option.filter_some, hpath, decide_true, if_true, Option.some.injEq, forall_eq',
    reduceCtorEq, false_imp_iff, and_true]
  cases hdec : env.base64Decode text with
  | none => exact ⟨fun _ h => (by cases h), fun _ => hw⟩
  | some data =>
    simp only [Option.some.injEq, forall_eq', reduceCtorEq, false_imp_iff, and_true]
    exact ⟨fun t ht => hw.store ht, fun hnone => absurd hnone update_updatedAt_ne_none⟩

/-- **…and a run of them, all that are accepted.** -/
theorem InProgress.sendAll (hw : InProgress w user file size h)
    (htid : transferUuid env transferId = some file)
    (requests : List (Call × ResumableChunkRequest)) :
    InProgress (run (step env) w (chunkEvents transferId requests)) user file size
      (acceptedChunks env user requests ++ h) := by
  induction requests generalizing w h with
  | nil => exact hw
  | cons x requests ih =>
    have hrun := ih (hw.send htid x)
    have haccepted : acceptedChunks env user (x :: requests)
        = acceptedChunks env user requests ++ (acceptedChunk env user x).toList := by
      simp only [acceptedChunks, List.filterMap_cons]
      cases acceptedChunk env user x <;> simp
    rw [haccepted, List.append_assoc]
    exact hrun

/-! ## Finalizing -/

/-- The finished entry holds what is at its new path. -/
theorem holdsLast_finish {r : FileEntry} {t : FileTable} {path hash : String} {length : ℤ}
    {w' : World}
    (ht : w.entries.update (fun r => r.id = file) (FileEntry.finish c path hash length) = some t)
    (hr : r ∈ w.entries.rows) (hid : r.id = file) (hw' : w'.entries = t) :
    HoldsLast file size h w' ↔ ∃ data, w'.blobs path = some data ∧ (data.length : ℤ) = size
      ∧ ∀ p < data.length, overlay h p = data[p]? := by
  have hmem := (FileTable.mem_update ht).mpr ⟨r, hr, rfl⟩
  rw [if_pos (by simpa using hid), ← hw'] at hmem
  constructor
  · rintro ⟨r', hr', hid', path', data, hpath', hblob⟩
    obtain rfl := FileTable.eq_of_id hr' hmem (hid'.trans hid.symm)
    obtain rfl : path = path' := Option.some.inj hpath'
    exact ⟨data, hblob⟩
  · rintro ⟨data, hblob⟩
    exact ⟨_, hmem, hid, path, data, rfl, hblob⟩

/-- With nothing sent there is nothing to be read, and the transfer is finalized all the same. -/
theorem InProgress.not_complete_nil (hw : InProgress w c.user file size [])
    (htid : transferUuid env transferId = some file) :
    ¬ Complete env c transferId none size [] w := by
  obtain ⟨r, hr, -⟩ := hw.owned
  obtain ⟨hmem, hid, -⟩ := World.owned_eq_some.mp hr
  have hchunks : w.chunkDirs c.user file = none := hw.chunks
  rw [Complete, wp_finalizeTransfer htid hr, wp_finalContent, pieces, hchunks]
  rintro ⟨-, hfinish⟩
  have hshort : ¬ 64 < (finalSha256 none (standIn w r c.user file).1).length := by
    rw [finalSha256]
    split
    · rw [standIn, hchunks]
      cases hhash : r.sha256Hash with
      | none => exact (by decide : ¬ 64 < "verified".length)
      | some hash => exact Nat.not_lt.mpr ((w.entries.valid.fits r hmem).2.2 hash hhash)
    · decide
  rw [← update_finish_eq_none (c := c) hmem hid] at hshort
  obtain ⟨t, ht⟩ := Option.ne_none_iff_exists'.mp hshort
  obtain ⟨data, hblob, -⟩ := (holdsLast_finish ht hmem hid rfl).mp ((hfinish rfl).1 t ht)
  have hblank := hw.blank
  rw [show w.blobs (flatPath c.user file) = some data from hblob] at hblank
  cases hblank

/-- **With chunks sent it is complete, whatever the client's hash, exactly when these gather to
what was sent last.** -/
theorem InProgress.complete_iff (hw : InProgress w c.user file size h) (hne : h ≠ [])
    (htid : transferUuid env transferId = some file) :
    (∀ clientHash, Complete env c transferId clientHash size h w)
      ↔ GathersRight chunkIndex h size (readIndexes (h.map shape)) 0 := by
  obtain ⟨r, hr, -⟩ := hw.owned
  obtain ⟨hmem, hid, -⟩ := World.owned_eq_some.mp hr
  have hpieces : pieces w c.user file
      = some (readChunks (some (chunkDirOf h)) (readIndexes (h.map shape)) []) := by
    have hpos : 0 < (chunkDirOf h).length := by
      cases h with
      | nil => exact absurd rfl hne
      | cons ch h => exact Nat.succ_pos _
    rw [pieces, hw.chunks, if_neg hne]
    simp only
    rw [if_pos hpos, length_chunkDirOf, readIndexes]
  have hread := @readChunks_chunkDirOf h (readIndexes (h.map shape)) []
  cases hg : gather chunkIndex h (readIndexes (h.map shape)) with
  | none =>
    rw [hg] at hread
    obtain ⟨part, hpart⟩ := hread
    refine ⟨fun _ data hdata => ?_, fun _ clientHash => ?_⟩
    · rw [hg] at hdata
      cases hdata
    · rw [Complete, wp_finalizeTransfer htid hr, wp_finalContent, hpieces, hpart]
      trivial
  | some data =>
    rw [hg] at hread
    have hdone : ∀ clientHash, Complete env c transferId clientHash size h w
        ↔ (hashMismatch clientHash (env.sha256 data) = false → (data.length : ℤ) = size
          ∧ ∀ p < data.length, overlay h p = data[p]?) := by
      intro clientHash
      rw [Complete, wp_finalizeTransfer htid hr, wp_finalContent, hpieces, hread]
      simp only [List.nil_append, finalSha256_sha256, imp_true_iff, true_and, and_true]
      refine imp_congr_right fun _ => ?_
      have hnone : w.entries.update (fun r => r.id = file)
          (FileEntry.finish c (filePath c.user file) (env.sha256 data) data.length) ≠ none := by
        rw [Ne, update_finish_eq_none hmem hid, env.length_sha256]
        decide
      obtain ⟨t, ht⟩ := Option.ne_none_iff_exists'.mp hnone
      have hholds : HoldsLast file size h
          { (w.putBlob (filePath c.user file) data).dropChunks c.user file with entries := t }
          ↔ (data.length : ℤ) = size ∧ ∀ p < data.length, overlay h p = data[p]? := by
        rw [holdsLast_finish ht hmem hid rfl]
        simp [World.dropChunks, World.putBlob]
      refine Iff.trans ⟨fun hall => hall t ht, fun hone t' ht' => ?_⟩ hholds
      obtain rfl := Option.some.inj (ht.symm.trans ht')
      exact hone
    constructor
    · intro hall data' hdata'
      obtain rfl := Option.some.inj (hg.symm.trans hdata')
      simpa using (hdone none).mp (hall none) rfl
    · intro hright clientHash
      refine (hdone clientHash).mpr fun _ => ?_
      simpa using hright data hg

end Send

/-- Every list of chunks can be sent. -/
theorem exists_requests {env : Env} (henc : ∀ data, ∃ text, env.base64Decode text = some data)
    (c : Call) (h : List (ℤ × Bytes)) : ∃ requests, acceptedChunks env c.user requests = h := by
  choose enc henc using henc
  have hone : ∀ ch : ℤ × Bytes, acceptedChunk env c.user (c, ⟨ch.1, enc ch.2⟩) = some ch := by
    intro ch
    rw [acceptedChunk, if_pos rfl, henc]
    rfl
  refine ⟨h.reverse.map fun ch => (c, ⟨ch.1, enc ch.2⟩), ?_⟩
  rw [acceptedChunks, List.filterMap_map]
  have hid : (acceptedChunk env c.user ∘ fun ch : ℤ × Bytes => (c, ⟨ch.1, enc ch.2⟩)) = some :=
    funext hone
  rw [hid, List.filterMap_some, List.reverse_reverse]

/-- **A transfer as it begins**: under an id under which nothing is stored. -/
theorem inProgress_initTransfer {c : Call} {req : ResumableInitRequest} {w : World}
    (hchunks : w.chunkDirs c.user c.newId = none)
    (hblank : w.blobs (flatPath c.user c.newId) = none) :
    wp (initTransfer c req) (fun _ w' => InProgress w' c.user c.newId req.sizeBytes [])
      (fun _ _ => True) w := by
  simp only [initTransfer, admitTransfer, storeTransfer, checkStorageQuota, wp_bind, wp_get,
    wp_ensure, wp_insertEntry, wp_pure, imp_true_iff, and_true]
  intro _ _ _ t _ ht
  exact ⟨⟨_, (FileTable.mem_insert ht).mpr (Or.inr rfl), rfl, rfl, rfl, rfl⟩, hchunks, hblank⟩

/-! ## A transfer of two bytes -/

open Sample

/-- The environment with all of base64. -/
def base64Env : Env := { env with base64Decode := Base64.decode }

/-- Alice announces two bytes. -/
def twoBytes : World :=
  run (step base64Env) (.empty (.isFavorite :: migratedColumns) users)
    [sent alice 0 id1 (.initTransfer ⟨"f", 2, none, none, none⟩)]

theorem inProgress_twoBytes : InProgress twoBytes alice id1 2 [] where
  row := by decide
  chunks := by decide
  blank := by decide

/-- Both bytes in one chunk. -/
def bothBytes : List (Call × ResumableChunkRequest) := [(finalizer, ⟨0, "YWI="⟩)]

/-- The second byte alone is taken for the whole. -/
example :
    let w := run (step base64Env) twoBytes [sent alice 1 id2 (.writeChunk id1.text 1 "YQ=="),
      ⟨finalizer, .finalizeTransfer id1.text none⟩]
    w.entries.rows.map (fun r => (r.sizeBytes, contentOf w r)) = [(1, some [0x61])] := by
  decide

end Pcos
