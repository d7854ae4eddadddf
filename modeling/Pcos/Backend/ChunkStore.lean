import Pcos.Backend.Service
import Pcos.Foundations.Decimal
import Pcos.Foundations.Disk

/-!
# Backend/ChunkStore — chunks on the disk (`storage.rs`)

A chunk is a file in the directory of its upload, named by its index.  The names of two chunks differ
(`chunkPath_inj`), so that a run of `store_chunk` leaves under each the data that was stored last,
and `assemble_chunks` puts them together or leaves them alone: `assembles`.

The chunk directories of `World` are what the disk has under these names (`Represents`), and the
functions on the disk do to it what the handlers do to `World`.
-/

namespace Pcos.ChunkStore

open Foundations

/-! ## Paths -/

/-- `{:06}`; a sign counts. -/
def formatIndex (i : ℤ) : String :=
  if i < 0 then "-" ++ zeroPadded 5 i.natAbs else zeroPadded 6 i.natAbs

/-- DiskPath for chunked upload temp directory. -/
def chunkDir (user upload : Uuid) : DiskPath := [user.text, "_chunks", upload.text]

def chunkPath (user upload : Uuid) (i : ℤ) : DiskPath :=
  chunkDir user upload ++ ["chunk_" ++ formatIndex i]

def tmpChunkPath (user upload : Uuid) (i : ℤ) (id : Uuid) : DiskPath :=
  chunkDir user upload ++ ["tmp_chunk_" ++ formatIndex i ++ "_" ++ id.text]

/-- The storage path for a file. -/
def storagePath (user file : Uuid) : DiskPath :=
  [user.text, String.ofList (file.text.toList.take 2), file.text]

/-- …with the extension `tmp_asm_`. -/
def tmpFilePath (user file id : Uuid) : DiskPath :=
  [user.text, String.ofList (file.text.toList.take 2), file.text ++ ".tmp_asm_" ++ id.text]

/-! ## The functions -/

/-- What `store_chunk` is called with, and the UUID of its temporary file. -/
structure StoreCall where
  user : Uuid
  upload : Uuid
  index : ℤ
  data : Bytes
  tmp : Uuid

/-- Store a single chunk of a chunked upload. -/
def storeChunk (c : StoreCall) : OnDisk Unit := do
  let tmpChunk := tmpChunkPath c.user c.upload c.index c.tmp
  Disk.create tmpChunk
  Disk.append tmpChunk c.data
  Disk.rename tmpChunk (chunkPath c.user c.upload c.index)

/-- The loop of `assemble_chunks`, with what has been hashed and the size so far. -/
def assembleLoop (user upload : Uuid) (tmpFile : DiskPath) :
    List ℤ → Bytes → ℤ → OnDisk (Bytes × ℤ)
  | [], hashed, totalSize => pure (hashed, totalSize)
  | i :: is, hashed, totalSize => do
    let data ← Disk.read (chunkPath user upload i)
    Disk.append tmpFile data
    assembleLoop user upload tmpFile is (hashed ++ data) (totalSize + data.length)

/-- Assemble all chunks into a final file, returning storage path, hash and size.  The chunks are
cleaned up as far as that goes (`cleaned`). -/
def assembleChunks (sha256 : Bytes → String) (cleaned : DiskPath → Bool) (user upload file tmp : Uuid)
    (totalChunks : ℤ) : OnDisk (String × String × ℤ) := do
  let tmpFile := tmpFilePath user file tmp
  Disk.create tmpFile
  let (hashed, totalSize) ← assembleLoop user upload tmpFile (chunkIndexes totalChunks) [] 0
  Disk.rename tmpFile (storagePath user file)
  Disk.remove fun path => (chunkDir user upload).isPrefixOf path && cleaned path
  pure ("/".intercalate (storagePath user file), sha256 hashed, totalSize)

/-! ## Paths that differ -/

variable {u v a b : Uuid} {i j : ℤ}

theorem formatIndex_injective : formatIndex.Injective := by
  intro i j h
  unfold formatIndex at h
  have hsign (m n : ℕ) : "-" ++ zeroPadded 5 m ≠ zeroPadded 6 n := by
    intro heq
    have hmem : '-' ∈ (zeroPadded 6 n).toList := by
      rw [← heq, String.toList_append]
      exact List.mem_cons_self
    exact absurd (isDigit_of_mem_zeroPadded hmem) (by decide)
  split at h <;> split at h
  · have heq := zeroPadded_injective 5 (String.append_right_inj _ |>.mp h)
    omega
  · exact absurd h (hsign _ _)
  · exact absurd h.symm (hsign _ _)
  · have heq := zeroPadded_injective 6 h
    omega

/-- **A chunk's path determines its user, its upload and its index.** -/
theorem chunkPath_inj (h : chunkPath u a i = chunkPath v b j) : u = v ∧ a = b ∧ i = j := by
  simp only [chunkPath, chunkDir, List.cons_append, List.nil_append, List.cons.injEq, and_true,
    true_and] at h
  exact ⟨Uuid.text_injective h.1, Uuid.text_injective h.2.1,
    formatIndex_injective (String.append_right_inj _ |>.mp h.2.2)⟩

/-- No chunk has a temporary name. -/
theorem tmpChunkPath_ne {id : Uuid} : tmpChunkPath u a i id ≠ chunkPath v b j := by
  intro h
  simp only [tmpChunkPath, chunkPath, chunkDir, List.cons_append, List.nil_append, List.cons.injEq,
    and_true] at h
  have hfirst := congrArg (fun s : String => s.toList.head?) h.2.2.2
  simp [String.toList_append] at hfirst

theorem chunkPath_ne_storagePath : chunkPath u a i ≠ storagePath v b :=
  ne_of_apply_ne List.length (show 4 ≠ 3 by decide)

theorem chunkPath_ne_tmpFilePath {id : Uuid} : chunkPath u a i ≠ tmpFilePath v b id :=
  ne_of_apply_ne List.length (show 4 ≠ 3 by decide)

theorem tmpChunkPath_ne_storagePath {id : Uuid} : tmpChunkPath u a i id ≠ storagePath v b :=
  ne_of_apply_ne List.length (show 4 ≠ 3 by decide)

theorem tmpFilePath_ne {id : Uuid} : tmpFilePath u a id ≠ storagePath v b := by
  intro h
  simp only [tmpFilePath, storagePath, List.cons.injEq, and_true] at h
  have hlength := congrArg String.length h.2.2
  simp only [String.length_append, Uuid.length_text] at hlength
  omega

theorem storagePath_inj (h : storagePath u a = storagePath v b) : u = v ∧ a = b := by
  simp only [storagePath, List.cons.injEq, and_true] at h
  exact ⟨Uuid.text_injective h.1, Uuid.text_injective h.2.2⟩

/-- A file of a directory is below it, and no other directory's is. -/
theorem isPrefixOf_chunkPath :
    (chunkDir u a).isPrefixOf (chunkPath v b i) = true ↔ v = u ∧ b = a := by
  simp only [chunkPath, chunkDir, List.cons_append, List.nil_append, List.isPrefixOf_cons_cons,
    List.isPrefixOf_nil_left, Bool.and_true, Bool.and_eq_true, beq_iff_eq, true_and]
  exact ⟨fun h => ⟨Uuid.text_injective h.1.symm, Uuid.text_injective h.2.symm⟩,
    fun h => ⟨congrArg _ h.1.symm, congrArg _ h.2.symm⟩⟩

theorem not_isPrefixOf_storagePath : (chunkDir u a).isPrefixOf (storagePath v b) = false := by
  have hstarts : ("_chunks" == String.ofList (b.text.toList.take 2)) = false := by
    rw [beq_eq_false_iff_ne]
    intro h
    have hlength := congrArg (fun s : String => s.toList.length) h
    simp only [String.toList_ofList, List.length_take] at hlength
    have hseven : "_chunks".toList.length = 7 := by decide
    omega
  simp only [chunkDir, storagePath, List.isPrefixOf_cons_cons, hstarts, Bool.false_and, Bool.and_false]

/-! ## A run of stores -/

/-- The disk after the calls. -/
def stored (start : Disk) (calls : List StoreCall) : Disk :=
  calls.foldl (fun d c => leaves (storeChunk c) d) start

/-- What was stored last as the chunk of an index; before the calls, what there was. -/
def lastStored (start : Disk) (calls : List StoreCall) (user upload : Uuid) (i : ℤ) : Option Bytes :=
  match calls.reverse.find? fun c => c.user = user ∧ c.upload = upload ∧ c.index = i with
  | some c => some c.data
  | none => start (chunkPath user upload i)

variable {d start : Disk} {calls : List StoreCall}

/-- Storing a chunk is one write under its name. -/
theorem storeChunk_spec (c : StoreCall) : storeChunk c d = .ok () (Function.update
    (Function.update d (tmpChunkPath c.user c.upload c.index c.tmp) none)
    (chunkPath c.user c.upload c.index) (some c.data)) := by
  refine ok_of_wp ?_
  simp only [storeChunk, wp_bind, Disk.wp_create, Disk.wp_append, Disk.wp_rename,
    Function.update_self, Function.update_idem, Option.map_some, List.nil_append, Option.some.injEq,
    true_and, reduceCtorEq, false_implies, and_true]
  exact fun _ hdata => hdata ▸ rfl

theorem leaves_storeChunk (c : StoreCall) {path : DiskPath}
    (hpath : path ≠ tmpChunkPath c.user c.upload c.index c.tmp) :
    leaves (storeChunk c) d path
      = if path = chunkPath c.user c.upload c.index then some c.data else d path := by
  rw [leaves, storeChunk_spec]
  dsimp only
  rw [Function.update_apply, Function.update_of_ne hpath]

/-- **A chunk holds what was stored last under its index**: a call changes its own chunk only. -/
theorem stored_chunkPath (user upload : Uuid) (i : ℤ) :
    stored start calls (chunkPath user upload i) = lastStored start calls user upload i := by
  induction calls using List.reverseRecOn with
  | nil => rfl
  | append_singleton calls c ih =>
    rw [stored, List.foldl_append, List.foldl_cons, List.foldl_nil,
      leaves_storeChunk c tmpChunkPath_ne.symm, lastStored, List.reverse_append,
      List.reverse_singleton, List.singleton_append, List.find?_cons]
    by_cases hown : c.user = user ∧ c.upload = upload ∧ c.index = i
    · rw [if_pos (by rw [hown.1, hown.2.1, hown.2.2]), decide_eq_true hown]
    · rw [if_neg fun h => hown ?_, decide_eq_false hown]
      · exact ih
      · obtain ⟨huser, hupload, hindex⟩ := chunkPath_inj h
        exact ⟨huser.symm, hupload.symm, hindex.symm⟩

/-- No call writes to a final path. -/
theorem stored_storagePath (user file : Uuid) :
    stored start calls (storagePath user file) = start (storagePath user file) := by
  induction calls using List.reverseRecOn with
  | nil => rfl
  | append_singleton calls c ih =>
    rw [stored, List.foldl_append, List.foldl_cons, List.foldl_nil,
      leaves_storeChunk c tmpChunkPath_ne_storagePath.symm, if_neg chunkPath_ne_storagePath.symm]
    exact ih

/-! ## Assembly -/

/-- **The loop** reads the chunks of the indexes into the temporary file, or stops at the first that
is missing; it touches no other file. -/
theorem wp_assembleLoop {user upload : Uuid} {tmpFile : DiskPath}
    (htmp : ∀ i, chunkPath user upload i ≠ tmpFile) {is : List ℤ} {hashed part : Bytes}
    {totalSize : ℤ} (hpart : d tmpFile = some part) :
    wp (assembleLoop user upload tmpFile is hashed totalSize)
      (fun r d' => ∃ chunks : List Bytes,
        is.map (fun i => d (chunkPath user upload i)) = chunks.map some ∧
        r = (hashed ++ chunks.flatten, totalSize + chunks.flatten.length) ∧
        d' = Function.update d tmpFile (some (part ++ chunks.flatten)))
      (fun _ d' => (∃ i ∈ is, d (chunkPath user upload i) = none) ∧
        ∃ rest, d' = Function.update d tmpFile (some rest)) d := by
  induction is generalizing d hashed part totalSize with
  | nil =>
    refine ⟨[], rfl, ?_, ?_⟩
    · simp
    · rw [List.flatten_nil, List.append_nil, ← hpart, Function.update_eq_self]
  | cons i is ih =>
    simp only [assembleLoop, wp_bind, Disk.wp_read, Disk.wp_append]
    refine ⟨fun data hdata => ?_, fun hnone =>
      ⟨⟨i, List.mem_cons_self, hnone⟩, part, ?_⟩⟩
    · rw [hpart, Option.map_some]
      have hlonger : Function.update d tmpFile (some (part ++ data)) tmpFile = some (part ++ data) :=
        Function.update_self ..
      refine wp_mono (ih hlonger) ?_ ?_
      · rintro r d' ⟨chunks, hchunks, hr, hd'⟩
        refine ⟨data :: chunks, ?_, ?_, ?_⟩
        · rw [List.map_cons, List.map_cons, hdata, ← hchunks]
          exact congrArg _ (List.map_congr_left fun j _ => (Function.update_of_ne (htmp j) ..).symm)
        · rw [hr, List.flatten_cons, List.append_assoc, List.length_append]
          push_cast
          rw [Int.add_assoc]
        · rw [hd', Function.update_idem, List.flatten_cons, List.append_assoc]
      · rintro e d' ⟨⟨j, hj, hnone⟩, rest, hd'⟩
        rw [Function.update_of_ne (htmp j)] at hnone
        exact ⟨⟨j, List.mem_cons_of_mem _ hj, hnone⟩, rest, by rw [hd', Function.update_idem]⟩
    · rw [← hpart, Function.update_eq_self]

/-- The storage path, as it is recorded. -/
theorem intercalate_storagePath (user file : Uuid) :
    "/".intercalate (storagePath user file) = filePath user file := by
  simp only [storagePath, String.intercalate_cons_cons, String.intercalate_singleton, filePath,
    String.append_assoc]

/-- What a disk is after an assembly: the file is there, the temporary one is not, and of the chunks
those are left that were not cleaned up. -/
def assembled (d : Disk) (cleaned : DiskPath → Bool) (user upload file tmp : Uuid) (data : Bytes) :
    Disk := fun path =>
  if (chunkDir user upload).isPrefixOf path && cleaned path then none
  else Function.update (Function.update d (tmpFilePath user file tmp) none) (storagePath user file)
    (some data) path

theorem wp_assembleChunks {sha256 : Bytes → String} {cleaned : DiskPath → Bool}
    {user upload file tmp : Uuid} {n : ℤ} :
    wp (assembleChunks sha256 cleaned user upload file tmp n)
      (fun r d' => ∃ chunks : List Bytes,
        (chunkIndexes n).map (fun i => d (chunkPath user upload i)) = chunks.map some ∧
        r = (filePath user file, sha256 chunks.flatten, (chunks.flatten.length : ℤ)) ∧
        d' = assembled d cleaned user upload file tmp chunks.flatten)
      (fun _ d' =>
        (∃ i ∈ chunkIndexes n, d (chunkPath user upload i) = none) ∧
        ∃ rest, d' = Function.update d (tmpFilePath user file tmp) (some rest)) d := by
  simp only [assembleChunks, wp_bind, Disk.wp_create]
  have htmp : ∀ i, chunkPath user upload i ≠ tmpFilePath user file tmp :=
    fun _ => chunkPath_ne_tmpFilePath
  refine wp_mono (wp_assembleLoop htmp (Function.update_self ..)) ?_ ?_
  · rintro r d' ⟨chunks, hchunks, rfl, rfl⟩
    simp only [Disk.wp_rename, Disk.wp_remove, wp_pure, Function.update_self, Function.update_idem,
      Option.some.injEq, reduceCtorEq, false_implies, and_true, List.nil_append]
    rintro data rfl
    refine ⟨chunks, ?_, ?_, rfl⟩
    · rw [← hchunks]
      exact List.map_congr_left fun i _ => (Function.update_of_ne (htmp i) ..).symm
    · rw [intercalate_storagePath, Int.zero_add]
  · rintro e d' ⟨⟨i, hi, hnone⟩, rest, rfl⟩
    rw [Function.update_of_ne (htmp i)] at hnone
    exact ⟨⟨i, hi, hnone⟩, rest, Function.update_idem ..⟩

theorem mem_chunkIndexes {n i : ℤ} : i ∈ chunkIndexes n ↔ 0 ≤ i ∧ i < n := by
  simp only [chunkIndexes, List.mem_map, List.mem_range]
  constructor
  · rintro ⟨k, hk, rfl⟩
    exact ⟨Int.natCast_nonneg k, by have := Int.ofNat_lt.mpr hk; simp only [Int.ofNat_eq_natCast]; omega⟩
  · rintro ⟨hi, hin⟩
    exact ⟨i.toNat, by omega, Int.toNat_of_nonneg hi⟩

theorem ne_none_of_map_eq {f : ℤ → Option Bytes} {is : List ℤ} {chunks : List Bytes}
    (h : is.map f = chunks.map some) (hi : i ∈ is) : f i ≠ none := by
  intro hnone
  have hmem := List.mem_map_of_mem (f := f) hi
  rw [h, hnone] at hmem
  simp at hmem

/-- What is promised of a run of `store_chunk` and then `assemble_chunks`: it makes the file of the
chunks that were stored last, or, if one is missing, fails and leaves them and the file there is
alone; the chunks of other uploads stay as they were stored. -/
structure Assembles (sha256 : Bytes → String) (cleaned : DiskPath → Bool) (start : Disk)
    (calls : List StoreCall) (user upload file tmp : Uuid) (n : ℤ) : Prop where
  complete : ∀ chunks : List Bytes,
    (chunkIndexes n).map (lastStored start calls user upload) = chunks.map some →
      ∃ d, assembleChunks sha256 cleaned user upload file tmp n (stored start calls)
        = .ok (filePath user file, sha256 chunks.flatten, (chunks.flatten.length : ℤ)) d ∧
        d (storagePath user file) = some chunks.flatten
  missing : ∀ i, 0 ≤ i → i < n → lastStored start calls user upload i = none →
    ∃ d, assembleChunks sha256 cleaned user upload file tmp n (stored start calls)
      = .error .notFound d ∧
      d (storagePath user file) = start (storagePath user file) ∧
      ∀ j, d (chunkPath user upload j) = lastStored start calls user upload j
  others : ∀ user' upload', ¬ (user' = user ∧ upload' = upload) → ∀ i,
    leaves (assembleChunks sha256 cleaned user upload file tmp n) (stored start calls)
      (chunkPath user' upload' i) = lastStored start calls user' upload' i

/-- **Chunks are assembled as they were stored last**, in whatever order, how often and among what
other uploads they came. -/
theorem assembles (sha256 : Bytes → String) (cleaned : DiskPath → Bool) (start : Disk)
    (calls : List StoreCall) (user upload file tmp : Uuid) (n : ℤ) :
    Assembles sha256 cleaned start calls user upload file tmp n := by
  have hspec := @wp_assembleChunks (stored start calls) sha256 cleaned user upload file tmp n
  simp only [stored_chunkPath] at hspec
  refine ⟨fun chunks hchunks => ?_, fun i hi hin hnone => ?_, fun user' upload' hother i => ?_⟩
  · cases heq : assembleChunks sha256 cleaned user upload file tmp n (stored start calls) with
    | ok r d =>
      obtain ⟨chunks', hchunks', rfl, rfl⟩ := hspec.of_eq heq
      obtain rfl := List.map_injective_iff.mpr (Option.some_injective _) (hchunks'.symm.trans hchunks)
      refine ⟨_, rfl, ?_⟩
      rw [assembled, not_isPrefixOf_storagePath, Bool.false_and, if_neg Bool.false_ne_true,
        Function.update_self]
    | error e d =>
      obtain ⟨⟨i, hi, hnone⟩, -⟩ := hspec.of_error heq
      exact absurd hnone (ne_none_of_map_eq hchunks hi)
  · cases heq : assembleChunks sha256 cleaned user upload file tmp n (stored start calls) with
    | ok r d =>
      obtain ⟨chunks, hchunks, -⟩ := hspec.of_eq heq
      exact absurd hnone (ne_none_of_map_eq hchunks (mem_chunkIndexes.mpr ⟨hi, hin⟩))
    | error e d =>
      obtain ⟨-, rest, rfl⟩ := hspec.of_error heq
      refine ⟨_, rfl, ?_, fun j => ?_⟩
      · rw [Function.update_of_ne tmpFilePath_ne.symm, stored_storagePath]
      · rw [Function.update_of_ne chunkPath_ne_tmpFilePath, stored_chunkPath]
  · refine wp.leaves (P := fun d => d (chunkPath user' upload' i)
      = lastStored start calls user' upload' i) (wp_mono hspec ?_ ?_)
    · rintro r d ⟨chunks, -, -, rfl⟩
      rw [assembled, if_neg, Function.update_of_ne chunkPath_ne_storagePath,
        Function.update_of_ne chunkPath_ne_tmpFilePath, stored_chunkPath]
      rw [Bool.and_eq_true, isPrefixOf_chunkPath]
      exact fun h => hother h.1
    · rintro e d ⟨-, rest, rfl⟩
      rw [Function.update_of_ne chunkPath_ne_tmpFilePath, stored_chunkPath]

/-! ## The chunk directories of `World` -/

/-- The disk has the chunks and the files that the world has. -/
structure Represents (d : Disk) (w : World) : Prop where
  chunks : ∀ user upload i, d (chunkPath user upload i)
    = (w.chunkDirs user upload).bind fun chunks => chunks.lookup i
  files : ∀ user file, d (storagePath user file) = w.blobs (filePath user file)

variable {w : World}

/-- **A chunk that is stored is put in its directory.** -/
theorem Represents.storeChunk (h : Represents d w) (c : StoreCall) :
    Represents (leaves (storeChunk c) d) (w.putChunk c.user c.upload c.index c.data) := by
  refine ⟨fun user upload i => ?_, fun user file => ?_⟩
  · rw [leaves_storeChunk c tmpChunkPath_ne.symm, h.chunks]
    simp only [World.putChunk]
    by_cases hdir : user = c.user ∧ upload = c.upload
    · rw [if_pos hdir, Option.bind_some, List.lookup_cons, hdir.1, hdir.2]
      by_cases hi : i = c.index
      · rw [if_pos (by rw [hi]), hi, beq_self_eq_true]
      · rw [if_neg fun heq => hi (chunkPath_inj heq).2.2, beq_false_of_ne hi, lookup_filter_ne hi]
        cases w.chunkDirs c.user c.upload <;> rfl
    · rw [if_neg hdir, if_neg fun heq => hdir ⟨(chunkPath_inj heq).1, (chunkPath_inj heq).2.1⟩]
  · rw [leaves_storeChunk c tmpChunkPath_ne_storagePath.symm, if_neg chunkPath_ne_storagePath.symm]
    exact h.files user file

theorem readChunks_of_map {dir : Option (List (ℤ × Bytes))} {is : List ℤ} {chunks : List Bytes}
    (h : is.map (fun i => dir.bind fun cs => cs.lookup i) = chunks.map some) (acc : Bytes) :
    readChunks dir is acc = .ok (acc ++ chunks.flatten) := by
  induction is generalizing chunks acc with
  | nil => simp [readChunks, List.map_eq_nil_iff.mp h.symm]
  | cons i is ih =>
    obtain ⟨data, rest, rfl, hdata, hrest⟩ := List.map_eq_cons_iff.mp h.symm
    have hi : (dir.bind fun cs => cs.lookup i) = some data := hdata.symm
    rw [readChunks, hi, List.flatten_cons, ← List.append_assoc]
    exact ih hrest.symm _

theorem readChunks_of_none {dir : Option (List (ℤ × Bytes))} {is : List ℤ}
    (h : ∃ i ∈ is, (dir.bind fun cs => cs.lookup i) = none) (acc : Bytes) :
    ∃ part, readChunks dir is acc = .error part := by
  induction is generalizing acc with
  | nil => simp at h
  | cons i is ih =>
    rw [readChunks]
    cases hi : dir.bind fun cs => cs.lookup i with
    | none => exact ⟨acc, rfl⟩
    | some data =>
      obtain ⟨j, hj, hnone⟩ := h
      rcases List.mem_cons.mp hj with rfl | hj
      · exact absurd (hi.symm.trans hnone) (Option.some_ne_none data)
      · exact ih ⟨j, hj, hnone⟩ _

/-- **Assembly on the disk is that of the handlers**, if the clean-up succeeds. -/
theorem Represents.assembleChunks (h : Represents d w) (env : Env) (c : Call) (upload file : Uuid)
    (n : ℤ) (failed : String) :
    wp (assembleChunks env.sha256 (fun _ => true) c.user upload file c.tmpId n)
      (fun r d' => ∃ w', Pcos.assembleChunks env c upload file n failed w = .ok r w' ∧
        Represents d' w')
      (fun _ d' => ∃ e w', Pcos.assembleChunks env c upload file n failed w = .error e w' ∧
        Represents d' w') d := by
  refine wp_mono wp_assembleChunks ?_ ?_
  · rintro r d' ⟨chunks, hchunks, rfl, rfl⟩
    simp only [h.chunks] at hchunks
    refine ⟨(w.putBlob (filePath c.user file) chunks.flatten).dropChunks c.user upload, ?_, ?_, ?_⟩
    · refine ok_of_wp ?_
      simp only [Pcos.assembleChunks, wp_bind, wp_get]
      rw [readChunks_of_map hchunks]
      exact ⟨rfl, rfl⟩
    · intro user' upload' i
      simp only [assembled, World.dropChunks, World.putBlob, Bool.and_true, isPrefixOf_chunkPath]
      by_cases hdir : user' = c.user ∧ upload' = upload
      · rw [if_pos hdir, if_pos hdir]
        rfl
      · rw [if_neg hdir, if_neg hdir, Function.update_of_ne chunkPath_ne_storagePath,
          Function.update_of_ne chunkPath_ne_tmpFilePath]
        exact h.chunks user' upload' i
    · intro user' file'
      simp only [assembled, not_isPrefixOf_storagePath, Bool.false_and, Bool.false_eq_true, if_false,
        World.dropChunks, World.putBlob]
      by_cases hfile : user' = c.user ∧ file' = file
      · rw [hfile.1, hfile.2, Function.update_self, if_pos rfl]
      · rw [Function.update_of_ne fun heq => hfile (storagePath_inj heq),
          Function.update_of_ne tmpFilePath_ne.symm, if_neg fun heq => hfile (filePath_inj heq)]
        exact h.files user' file'
  · rintro e d' ⟨hnone, rest, rfl⟩
    simp only [h.chunks] at hnone
    obtain ⟨part, hpart⟩ := readChunks_of_none hnone []
    have hfails : wp (Pcos.assembleChunks env c upload file n failed) (fun _ _ => False)
        (fun _ w' => w' = w.putBlob (tmpAsmPath c.user file c.tmpId) part) w := by
      simp only [Pcos.assembleChunks, wp_bind, wp_get]
      rw [hpart]
      exact rfl
    cases heq : Pcos.assembleChunks env c upload file n failed w with
    | ok r w' => exact (hfails.of_eq heq).elim
    | error e w' =>
      obtain rfl := hfails.of_error heq
      refine ⟨e, _, rfl, fun user' upload' i => ?_, fun user' file' => ?_⟩
      · rw [Function.update_of_ne chunkPath_ne_tmpFilePath]
        exact h.chunks user' upload' i
      · rw [Function.update_of_ne tmpFilePath_ne.symm]
        exact (h.files user' file').trans (if_neg filePath_ne_tmpAsmPath).symm

end Pcos.ChunkStore
