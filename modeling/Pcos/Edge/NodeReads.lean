import Pcos.Edge.Durability
import Pcos.Foundations.Base64

/-!
# Edge/NodeReads — reading a file that a storage node has

The agent answers a read with at most 2 MiB, and says how much it gave and whether the file ends
there; the worker asks for up to 10 MiB in one read, and sends on what comes as if it were all it
asked for.

    Range ─▸ offset, length ──read_chunk──▸ file[offset, offset + min(length, 2 MiB)) ─▸ 200 │ 206

So **a 200 is the whole file only if one read gives it, and a 206 the range that was asked only if the
read starts where the range does** (`faithful_iff`).
-/

namespace Pcos.Edge.Files

open Foundations Accounts

/-! ## The agent (`fs_handler.rs`, `connection_manager.rs`) -/

structure ReadChunkResult where
  relativePath : String
  offset : ℕ
  length : ℕ
  totalSize : ℕ
  eof : Bool
  dataBase64 : String
deriving DecidableEq

/-- What one read of the file gives, where the system hands out at most `bytesRead` bytes at once. -/
def chunk (file : Bytes) (bytesRead offset maxLength : ℕ) : Bytes :=
  (file.drop offset).take (min bytesRead (min (min maxLength twoMiB) (file.length - offset)))

def readChunk (relPath : String) (file : Bytes) (bytesRead offset maxLength : ℕ) :
    ReadChunkResult :=
  if file.length ≤ offset then ⟨relPath, offset, 0, file.length, true, ""⟩
  else
    let buffer := chunk file bytesRead offset maxLength
    ⟨relPath, offset, buffer.length, file.length, decide (file.length ≤ offset + buffer.length),
      Base64.encode buffer⟩

/-- `as_u64` of a number, or of `null`. -/
def asU64 (n : Option ℤ) : Option ℕ := n.bind fun n => if 0 ≤ n ∧ n < 2 ^ 64 then some n.toNat else none

/-- `fs_read_chunk` -/
def fsReadChunk (relPath : String) (file : Bytes) (bytesRead : ℕ) (offset length : Option ℤ) :
    ReadChunkResult :=
  readChunk relPath file bytesRead ((asU64 offset).getD 0) ((asU64 length).getD (256 * 1024))

/-! ## The worker (`index.ts`) -/

/-- A `Content-Range`; `none` is `NaN`. -/
structure ContentRange where
  first : Option ℤ
  last : Option ℤ
  total : ℕ
deriving DecidableEq

/-- An answer: an error, bytes, or the agent's result as it came. -/
inductive Served
  | error (status : ℕ)
  | bytes (status : ℕ) (content : Bytes) (contentRange : Option ContentRange)
  | json (result : ReadChunkResult)
deriving DecidableEq

/-- `a || b` of numbers. -/
def orNumber (a b : ℕ) : ℕ := if a = 0 then b else a

/-- The bytes of a result, through `atob`. -/
def ReadChunkResult.data (result : ReadChunkResult) : Bytes := (Base64.decode result.dataBase64).getD []

/-- What the download asks the node for. -/
def FileEntry.askedChunk (f : FileEntry) (range : Option (ℕ × ℕ)) : ℕ × ℕ :=
  match range with
  | none => (0, min (orNumber f.sizeBytes nodeChunk) nodeChunk)
  | some (start, stop) => (start, min (stop - start + 1) nodeChunk)

/-- `GET /api/v1/files/:id/download` of a file that a node has, as this file. -/
def FileEntry.downloadNode (f : FileEntry) (file : Bytes) (bytesRead : ℕ)
    (rangeHeader : Option String) : Served :=
  let range := f.range rangeHeader
  if (truthy rangeHeader).isSome ∧ range = none ∧ 0 < f.sizeBytes then .error 416
  else
    let (offset, length) := f.askedChunk range
    let result := fsReadChunk f.relPath file bytesRead (some offset) (some length)
    if result.dataBase64 = "" then .error 404
    else
      match range with
      | none => .bytes 200 result.data none
      | some _ =>
        .bytes 206 result.data (some ⟨some offset, some (offset + result.data.length - 1),
          orNumber result.totalSize (orNumber f.sizeBytes result.data.length)⟩)

/-- The query and the header of `GET /api/v1/storage/nodes/:id/fs/read`. -/
structure FsReadRequest where
  path : Option String
  offset : Option String
  length : Option String
  format : Option String
  rangeHeader : Option String
deriving DecidableEq

/-- `parseInt(text, 10)` -/
def parseInteger (text : String) : Option ℤ :=
  match text.toList.dropWhile isSpace with
  | '-' :: digits => if digits.head?.any Char.isDigit then (parseInt digits).map (-(·)) else none
  | digits => (parseInt digits).map (·)

/-- The texts between the hyphens of a `Range` header, as numbers. -/
def rangeParts (rangeHeader : Option String) : Option (List (Option ℕ)) :=
  (rangeHeader.filter fun header => "bytes=".toList.isPrefixOf header.toList).map fun header =>
    ((header.toList.drop 6).splitOn '-').map parseInt

/-- `Math.min` with a number; with `NaN` it is `NaN`. -/
def minNumber (a : Option ℤ) (b : ℤ) : Option ℤ := a.map (min · b)

/-- The offset and the length that the agent is asked for. -/
def FsReadRequest.asked (q : FsReadRequest) : Option ℤ × Option ℤ :=
  let offset := parseInteger ((truthy q.offset).getD "0")
  let length := parseInteger ((truthy q.length).getD "1048576")
  match rangeParts q.rangeHeader with
  | some (some start :: some stop :: _) =>
    (some start, if start ≤ stop then minNumber length (stop - start + 1) else length)
  | some (some start :: _) => (some start, length)
  | _ => (offset, length)

/-- `GET /api/v1/storage/nodes/:id/fs/read` of a node that has this file. -/
def FsReadRequest.serve (q : FsReadRequest) (file : Bytes) (bytesRead : ℕ) : Served :=
  match truthy q.path with
  | none => .error 400
  | some relPath =>
    let result := fsReadChunk relPath file bytesRead q.asked.1 q.asked.2
    if q.format = some "json" then .json result
    else if (rangeParts q.rangeHeader).isSome ∧ 0 < result.totalSize then
      .bytes 206 result.data (some ⟨q.asked.1, q.asked.1.map (· + result.data.length - 1),
        result.totalSize⟩)
    else .bytes 200 result.data none

/-! ## What an answer should be -/

/-- A 200 has the whole file.  A 206 has the bytes that its `Content-Range` names, and those are the
range that was asked for, clamped to the file, from its first byte on. -/
def Faithful (file : Bytes) (rangeHeader : Option String) : Served → Prop
  | .error _ => True
  | .json result => result.data = file
  | .bytes status content contentRange =>
    if status = 200 then content = file
    else ∃ start stop last : ℕ, parseHttpRange rangeHeader file.length = some (start, stop) ∧
      contentRange = some ⟨some start, some last, file.length⟩ ∧ start ≤ last ∧ last ≤ stop ∧
      content = (file.take (last + 1)).drop start

/-- One read from the start gives the whole file. -/
def OneRead (file : Bytes) (bytesRead maxLength : ℕ) : Prop :=
  file.length ≤ bytesRead ∧ file.length ≤ maxLength ∧ file.length ≤ twoMiB

/-- A download's read gives all of the file, or nothing; and the first byte of a range is the same for
the size that the row records and for the file's. -/
def FileEntry.Whole (f : FileEntry) (file : Bytes) (bytesRead : ℕ) (rangeHeader : Option String) :
    Prop :=
  match f.range rangeHeader with
  | none => (truthy rangeHeader).isSome ∧ 0 < f.sizeBytes ∨ bytesRead = 0 ∨
      OneRead file bytesRead (orNumber f.sizeBytes nodeChunk)
  | some (start, _) => bytesRead = 0 ∨ file = [] ∨ file.length ≤ start ∧ start < 2 ^ 64 ∨
      (parseHttpRange rangeHeader file.length).map Prod.fst = some start

/-- A read without a range is of the file's start and gives all of it.  One with a range starts at the
range's first byte, and gives something, but no more than the range. -/
def FsReadRequest.Whole (q : FsReadRequest) (file : Bytes) (bytesRead : ℕ) : Prop :=
  let offset := (asU64 q.asked.1).getD 0
  let length := (asU64 q.asked.2).getD (256 * 1024)
  truthy q.path = none ∨ file = [] ∨
    if q.format = some "json" ∨ rangeParts q.rangeHeader = none then
      offset = 0 ∧ OneRead file bytesRead length
    else ∃ r ∈ parseHttpRange q.rangeHeader file.length, q.asked.1 = some (r.1 : ℤ) ∧
      0 < bytesRead ∧ 0 < length ∧
        (min bytesRead (min length twoMiB) ≤ r.2 + 1 - r.1 ∨ r.2 + 1 = file.length)

/-! ## What one read gives -/

section Chunk

variable {file : Bytes} {relPath : String} {bytesRead offset maxLength : ℕ}

theorem length_chunk (file : Bytes) (bytesRead offset maxLength : ℕ) :
    (chunk file bytesRead offset maxLength).length =
      min bytesRead (min (min maxLength twoMiB) (file.length - offset)) := by
  rw [chunk, List.length_take, List.length_drop]
  omega

theorem chunk_of_length_le (h : file.length ≤ offset) :
    chunk file bytesRead offset maxLength = [] := by
  rw [← List.length_eq_zero_iff, length_chunk]
  omega

theorem dataBase64_readChunk : (readChunk relPath file bytesRead offset maxLength).dataBase64 =
    Base64.encode (chunk file bytesRead offset maxLength) := by
  unfold readChunk
  split
  · rename_i h
    rw [chunk_of_length_le h]
    rfl
  · rfl

theorem data_readChunk : (readChunk relPath file bytesRead offset maxLength).data =
    chunk file bytesRead offset maxLength := by
  rw [ReadChunkResult.data, dataBase64_readChunk, Base64.decode_encode, Option.getD_some]

theorem totalSize_readChunk :
    (readChunk relPath file bytesRead offset maxLength).totalSize = file.length := by
  unfold readChunk
  split
  · rfl
  · rfl

theorem encode_eq_empty {data : Bytes} : Base64.encode data = "" ↔ data = [] := by
  constructor
  · intro h
    have hdecode := Base64.decode_encode data
    rw [h] at hdecode
    exact (Option.some.inj hdecode).symm
  · rintro rfl
    rfl

/-- **A read gives the whole file exactly if it is one read from the start.** -/
theorem chunk_eq_self_iff : chunk file bytesRead offset maxLength = file ↔
    file = [] ∨ offset = 0 ∧ OneRead file bytesRead maxLength := by
  constructor
  · intro h
    have hlength := length_chunk file bytesRead offset maxLength
    rw [h] at hlength
    rcases List.eq_nil_or_concat file with hnil | ⟨_, _, hconcat⟩
    · exact Or.inl hnil
    · have hpos : 0 < file.length := by
        rw [hconcat]
        simp
      exact Or.inr ⟨by omega, by omega, by omega, by omega⟩
  · rintro (rfl | ⟨rfl, hread, hmax, hcap⟩)
    · exact chunk_of_length_le (Nat.zero_le offset)
    · rw [chunk, List.drop_zero, List.take_of_length_le]
      omega

end Chunk

/-! ## Ranges -/

section Range

/-- The range of the numbers between the hyphens, clamped to the size. -/
def clampRange (size : ℕ) : List (Option ℕ) → Option (ℕ × ℕ)
  | [none, none] => none
  | [none, some suffix] => if suffix = 0 ∨ size = 0 then none else some (size - suffix, size - 1)
  | [some start, stop] =>
    let stop := stop.getD (size - 1)
    if size ≤ start ∨ stop < start then none else some (start, min stop (size - 1))
  | _ => none

theorem parseHttpRange_eq (rangeHeader : Option String) : ∃ parts : Option (List (Option ℕ)),
    ∀ size, parseHttpRange rangeHeader size = parts.bind (clampRange size) := by
  rcases rangeHeader with _ | header
  · exact ⟨none, fun size => rfl⟩
  · rcases hbytes : "bytes=".toList.isPrefixOf header.toList with _ | _
    · refine ⟨none, fun size => ?_⟩
      simp only [parseHttpRange, hbytes, Option.bind_eq_bind, Option.bind_some, Bool.not_false,
        if_true, Option.bind_none]
    · refine ⟨some (((trim isSpace (String.ofList (header.toList.drop 6))).toList.splitOn '-').map
        parseInt), fun size => ?_⟩
      simp only [parseHttpRange, hbytes, Bool.not_true, Bool.false_eq_true, if_false,
        Option.bind_eq_bind, Option.bind_some]
      generalize ((trim isSpace (String.ofList (header.toList.drop 6))).toList.splitOn '-').map
        parseInt = parts
      rfl

variable {parts : List (Option ℕ)} {size size' start stop stop' : ℕ}

theorem clampRange_bounds (h : clampRange size parts = some (start, stop)) :
    start ≤ stop ∧ stop < size := by
  unfold clampRange at h
  split at h
  · cases h
  · split at h
    · cases h
    · obtain ⟨rfl, rfl⟩ := Prod.mk.inj (Option.some.inj h)
      omega
  · dsimp only at h
    split at h
    · cases h
    · obtain ⟨rfl, rfl⟩ := Prod.mk.inj (Option.some.inj h)
      omega
  · cases h

/-- Clamped to two sizes, ranges that start together stop together, as far as the second goes. -/
theorem clampRange_stop (h : clampRange size parts = some (start, stop))
    (h' : clampRange size' parts = some (start, stop')) : min stop (size' - 1) ≤ stop' := by
  unfold clampRange at h h'
  split at h
  · cases h
  · dsimp only at h'
    split at h'
    · cases h'
    · obtain ⟨-, rfl⟩ := Prod.mk.inj (Option.some.inj h')
      omega
  · dsimp only at h h'
    split at h
    · cases h
    split at h'
    · cases h'
    · rename_i e _ _
      obtain ⟨-, rfl⟩ := Prod.mk.inj (Option.some.inj h)
      obtain ⟨-, rfl⟩ := Prod.mk.inj (Option.some.inj h')
      rcases e with _ | e
      · simp only [Option.getD_none]
        omega
      · simp only [Option.getD_some]
        omega
  · cases h

theorem parseHttpRange_bounds {rangeHeader : Option String}
    (h : parseHttpRange rangeHeader size = some (start, stop)) : start ≤ stop ∧ stop < size := by
  obtain ⟨parts, hparts⟩ := parseHttpRange_eq rangeHeader
  rw [hparts] at h
  obtain ⟨_, -, h⟩ := Option.bind_eq_some_iff.mp h
  exact clampRange_bounds h

theorem parseHttpRange_stop {rangeHeader : Option String}
    (h : parseHttpRange rangeHeader size = some (start, stop))
    (h' : parseHttpRange rangeHeader size' = some (start, stop')) : min stop (size' - 1) ≤ stop' := by
  obtain ⟨parts, hparts⟩ := parseHttpRange_eq rangeHeader
  rw [hparts] at h h'
  obtain ⟨p, hp, h⟩ := Option.bind_eq_some_iff.mp h
  obtain ⟨p', hp', h'⟩ := Option.bind_eq_some_iff.mp h'
  obtain rfl : p = p' := Option.some.inj (hp.symm.trans hp')
  exact clampRange_stop h h'

end Range

/-! ## Faithful answers -/

section Answers

variable {file content : Bytes} {rangeHeader : Option String} {bytesRead : ℕ}

/-- A 206 whose `Content-Range` is counted out from where it was read. -/
theorem faithful_span {offset : Option ℤ} :
    Faithful file rangeHeader (.bytes 206 content
        (some ⟨offset, offset.map (· + content.length - 1), file.length⟩)) ↔
      ∃ r, parseHttpRange rangeHeader file.length = some r ∧ offset = some (r.1 : ℤ) ∧
        0 < content.length ∧ content.length ≤ r.2 + 1 - r.1 ∧
        content = (file.drop r.1).take content.length := by
  constructor
  · rintro ⟨start, stop, last, hparse, hrange, hle, hlast, hcontent⟩
    have hfields := ContentRange.mk.inj (Option.some.inj hrange)
    have hoffset : offset = some (start : ℤ) := hfields.1
    have hmap := hfields.2.1
    rw [hoffset, Option.map_some, Option.some.injEq] at hmap
    rw [List.drop_take] at hcontent
    have hlength : content.length = last + 1 - start := by omega
    exact ⟨(start, stop), hparse, hoffset, by omega, by dsimp only; omega, hlength ▸ hcontent⟩
  · rintro ⟨⟨start, stop⟩, hparse, rfl, hpos, hle, hcontent⟩
    dsimp only at hle hcontent
    refine ⟨start, stop, start + content.length - 1, hparse, ?_, by omega, by omega, ?_⟩
    · rw [Option.map_some]
      congr 3
      omega
    · rw [List.drop_take, show start + content.length - 1 + 1 - start = content.length by omega]
      exact hcontent

theorem asU64_natCast {n : ℕ} (h : n < 2 ^ 64) : asU64 (some (n : ℤ)) = some n := by
  have hlt : (n : ℤ) < 2 ^ 64 := by exact_mod_cast h
  rw [asU64, Option.bind_some, if_pos ⟨Int.natCast_nonneg n, hlt⟩, Int.toNat_natCast]

theorem chunk_eq_take (offset maxLength : ℕ) : chunk file bytesRead offset maxLength =
    (file.drop offset).take (chunk file bytesRead offset maxLength).length := by
  rw [length_chunk]
  rfl

theorem oneRead_min {n : ℕ} : OneRead file bytesRead (min n nodeChunk) ↔ OneRead file bytesRead n := by
  have hchunk : twoMiB ≤ nodeChunk := by decide
  unfold OneRead
  constructor
  · rintro ⟨hread, hmax, hcap⟩
    exact ⟨hread, by omega, hcap⟩
  · rintro ⟨hread, hmax, hcap⟩
    exact ⟨hread, by omega, hcap⟩

/-- A 206 of what was read from the start of the range. -/
theorem faithful_chunk {offset : Option ℤ} {start maxLength : ℕ} (hstart : offset = some (start : ℤ)) :
    Faithful file rangeHeader (.bytes 206 (chunk file bytesRead start maxLength)
        (some ⟨offset, offset.map (· + (chunk file bytesRead start maxLength).length - 1),
          file.length⟩)) ↔
      ∃ r, parseHttpRange rangeHeader file.length = some r ∧ r.1 = start ∧
        0 < bytesRead ∧ 0 < maxLength ∧
        (min bytesRead (min maxLength twoMiB) ≤ r.2 + 1 - r.1 ∨ r.2 + 1 = file.length) := by
  have hcap : 0 < twoMiB := by decide
  rw [faithful_span]
  refine exists_congr fun r => and_congr_right fun hparse => ?_
  obtain ⟨hle, hlt⟩ := parseHttpRange_bounds hparse
  rw [hstart, Option.some.injEq, Int.ofNat_inj]
  constructor
  · rintro ⟨rfl, hpos, hlength, -⟩
    rw [length_chunk] at hpos hlength
    exact ⟨rfl, by omega, by omega, by omega⟩
  · rintro ⟨rfl, hread, hmax, hfits⟩
    refine ⟨rfl, ?_, ?_, chunk_eq_take _ _⟩
    · rw [length_chunk]
      omega
    · rw [length_chunk]
      omega

theorem faithful_fsRead_iff (hfile : file.length < 2 ^ 64) (q : FsReadRequest) :
    Faithful file q.rangeHeader (q.serve file bytesRead) ↔ q.Whole file bytesRead := by
  unfold FsReadRequest.serve FsReadRequest.Whole
  rcases truthy q.path with _ | relPath
  · exact ⟨fun _ => Or.inl rfl, fun _ => trivial⟩
  simp only [reduceCtorEq, false_or]
  by_cases hjson : q.format = some "json"
  · rw [if_pos hjson, if_pos (Or.inl hjson)]
    simp only [Faithful, fsReadChunk, data_readChunk, chunk_eq_self_iff]
  rw [if_neg hjson]
  rcases hparts : rangeParts q.rangeHeader with _ | parts
  · rw [if_pos (Or.inr rfl), if_neg (by simp)]
    simp only [Faithful, if_true, fsReadChunk, data_readChunk, chunk_eq_self_iff]
  have hform : ¬ (q.format = some "json" ∨ some parts = none) := by simp [hjson]
  rw [if_neg hform]
  by_cases hnil : file = []
  · rw [if_neg (by simp [fsReadChunk, totalSize_readChunk, hnil])]
    simp only [Faithful, if_true, fsReadChunk, data_readChunk, chunk_eq_self_iff, hnil, true_or]
  · have hpos : 0 < file.length := List.length_pos_iff.mpr hnil
    have hrange : (some parts).isSome ∧
        0 < (fsReadChunk relPath file bytesRead q.asked.1 q.asked.2).totalSize :=
      ⟨rfl, by rwa [fsReadChunk, totalSize_readChunk]⟩
    rw [if_pos hrange]
    simp only [hnil, false_or, fsReadChunk, data_readChunk, totalSize_readChunk, Option.mem_def]
    by_cases hstart : ∃ start : ℕ, q.asked.1 = some (start : ℤ) ∧ start < 2 ^ 64
    · obtain ⟨start, hoffset, hlt⟩ := hstart
      have hasked : (asU64 q.asked.1).getD 0 = start := by
        rw [hoffset, asU64_natCast hlt, Option.getD_some]
      rw [hasked, faithful_chunk hoffset]
      refine exists_congr fun r => and_congr_right fun _ => and_congr_left fun _ => ?_
      rw [hoffset, Option.some.injEq, Int.ofNat_inj, eq_comm]
    · -- the range's first byte is in the file, so the offset cannot be it
      have hno : ∀ r, parseHttpRange q.rangeHeader file.length = some r →
          q.asked.1 ≠ some (r.1 : ℤ) := fun r hparse hoffset =>
        hstart ⟨r.1, hoffset, by have := parseHttpRange_bounds hparse; omega⟩
      rw [faithful_span]
      refine exists_congr fun r => and_congr_right fun hparse => ?_
      exact iff_of_false (fun h => hno r hparse h.1) fun h => hno r hparse h.1

theorem faithful_download_iff (hfile : file.length < 2 ^ 64) (f : FileEntry) :
    Faithful file rangeHeader (f.downloadNode file bytesRead rangeHeader) ↔
      f.Whole file bytesRead rangeHeader := by
  have hchunk : nodeChunk < 2 ^ 64 := by decide
  have hnode : 0 < nodeChunk := by decide
  have hcap : 0 < twoMiB := by decide
  unfold FileEntry.downloadNode FileEntry.Whole
  rcases hrange : f.range rangeHeader with _ | ⟨start, stop⟩
  · by_cases hbad : (truthy rangeHeader).isSome ∧ 0 < f.sizeBytes
    · rw [if_pos ⟨hbad.1, rfl, hbad.2⟩]
      exact ⟨fun _ => Or.inl hbad, fun _ => trivial⟩
    rw [if_neg fun h => hbad ⟨h.1, h.2.2⟩]
    have hasked : fsReadChunk f.relPath file bytesRead (some ((0 : ℕ) : ℤ))
        (some ((min (orNumber f.sizeBytes nodeChunk) nodeChunk : ℕ) : ℤ)) =
          readChunk f.relPath file bytesRead 0 (min (orNumber f.sizeBytes nodeChunk) nodeChunk) := by
      rw [fsReadChunk, asU64_natCast (by decide), asU64_natCast (by omega)]
      rfl
    simp only [FileEntry.askedChunk, hasked, dataBase64_readChunk, encode_eq_empty, data_readChunk]
    have hlength : 0 < min (orNumber f.sizeBytes nodeChunk) nodeChunk := by
      unfold orNumber
      split
      · omega
      · omega
    split
    · rename_i hempty
      have hzero := congrArg List.length hempty
      rw [length_chunk, List.length_nil] at hzero
      refine ⟨fun _ => Or.inr ?_, fun _ => trivial⟩
      rcases Nat.eq_zero_or_pos bytesRead with hread | hread
      · exact Or.inl hread
      · have hnil : file.length = 0 := by omega
        exact Or.inr ⟨by omega, by omega, by omega⟩
    · rename_i hsome
      simp only [Faithful, if_true, chunk_eq_self_iff, true_and, oneRead_min]
      constructor
      · rintro (rfl | hone)
        · exact absurd (chunk_of_length_le (Nat.zero_le 0)) hsome
        · exact Or.inr (Or.inr hone)
      · rintro (h | rfl | hone)
        · exact absurd h hbad
        · exact absurd (List.length_eq_zero_iff.mp (by rw [length_chunk, Nat.zero_min])) hsome
        · exact Or.inr hone
  · rw [if_neg (by simp)]
    have hparse : parseHttpRange rangeHeader f.sizeBytes = some (start, stop) := by
      rw [FileEntry.range] at hrange
      split at hrange
      · exact hrange
      · cases hrange
    obtain ⟨hle, hlt⟩ := parseHttpRange_bounds hparse
    have hlength : (asU64 (some ((min (stop - start + 1) nodeChunk : ℕ) : ℤ))).getD (256 * 1024) =
        min (stop - start + 1) nodeChunk := by
      rw [asU64_natCast (by omega), Option.getD_some]
    simp only [FileEntry.askedChunk, fsReadChunk, hlength, dataBase64_readChunk, encode_eq_empty,
      data_readChunk, totalSize_readChunk]
    rcases Nat.eq_zero_or_pos bytesRead with rfl | hread
    · rw [if_pos (List.length_eq_zero_iff.mp (by rw [length_chunk, Nat.zero_min]))]
      exact ⟨fun _ => Or.inl rfl, fun _ => trivial⟩
    rcases Nat.eq_zero_or_pos file.length with hnil | hpos
    · rw [if_pos (chunk_of_length_le (by omega))]
      exact ⟨fun _ => Or.inr (Or.inl (List.length_eq_zero_iff.mp hnil)), fun _ => trivial⟩
    have htotal : ∀ n, orNumber file.length n = file.length := fun n => if_neg (by omega)
    have hne : file ≠ [] := List.length_pos_iff.mp hpos
    simp only [htotal, Nat.ne_of_gt hread, hne, false_or]
    by_cases hsmall : start < 2 ^ 64
    · have hoffset : (asU64 (some (start : ℤ))).getD 0 = start := by
        rw [asU64_natCast hsmall, Option.getD_some]
      rw [hoffset]
      by_cases hpast : file.length ≤ start
      · rw [if_pos (chunk_of_length_le hpast)]
        exact ⟨fun _ => Or.inl ⟨hpast, hsmall⟩, fun _ => trivial⟩
      have hsome : chunk file bytesRead start (min (stop - start + 1) nodeChunk) ≠ [] := by
        rw [← List.length_pos_iff, length_chunk]
        omega
      rw [if_neg hsome]
      refine (faithful_chunk rfl).trans ⟨?_, ?_⟩
      · rintro ⟨r, hr, rfl, -⟩
        exact Or.inr (by rw [hr]; rfl)
      · rintro (⟨hle', -⟩ | hfst)
        · exact absurd hle' hpast
        · obtain ⟨⟨start', stop'⟩, hr, heq⟩ := Option.map_eq_some_iff.mp hfst
          obtain rfl : start' = start := heq
          have hstop := parseHttpRange_stop hparse hr
          have hbounds := parseHttpRange_bounds hr
          exact ⟨_, hr, rfl, hread, by omega, by dsimp only; omega⟩
    · -- the node takes such an offset for none
      have hoffset : (asU64 (some (start : ℤ))).getD 0 = 0 := by
        have hbig : ¬ ((start : ℤ) < 2 ^ 64) := fun h => hsmall (by exact_mod_cast h)
        rw [asU64, Option.bind_some, if_neg fun h => hbig h.2]
        rfl
      have hno : ∀ r, parseHttpRange rangeHeader file.length = some r → r.1 ≠ start :=
        fun r hr heq => hsmall (by have := parseHttpRange_bounds hr; omega)
      have hsome : chunk file bytesRead 0 (min (stop - start + 1) nodeChunk) ≠ [] := by
        rw [← List.length_pos_iff, length_chunk]
        omega
      rw [hoffset, if_neg hsome]
      refine iff_of_false (fun h => ?_) ?_
      · obtain ⟨r, hr, heq, -⟩ := faithful_span.mp h
        exact hno r hr (Int.ofNat_inj.mp (Option.some.inj heq)).symm
      · rintro (⟨-, h⟩ | hfst)
        · exact hsmall h
        · obtain ⟨r, hr, heq⟩ := Option.map_eq_some_iff.mp hfst
          exact hno r hr heq

/-- **An answer with bytes of a node's file is what it says exactly if one read of the node gives what
was asked for.** -/
theorem faithful_iff (hfile : file.length < 2 ^ 64) (bytesRead : ℕ) :
    (∀ (f : FileEntry) (rangeHeader : Option String),
      Faithful file rangeHeader (f.downloadNode file bytesRead rangeHeader) ↔
        f.Whole file bytesRead rangeHeader) ∧
    ∀ q : FsReadRequest,
      Faithful file q.rangeHeader (q.serve file bytesRead) ↔ q.Whole file bytesRead :=
  ⟨fun f _ => faithful_download_iff hfile f, fun q => faithful_fsRead_iff hfile q⟩

/-! ## The download, of which this is the part at the node -/

/-- What an answer sends. -/
def Served.sent : Served → Option (ℕ × Bytes)
  | .bytes status content _ => some (status, content)
  | _ => none

/-- A node with the file, as the download knows it. -/
def agentRead (file : Bytes) (bytesRead : ℕ) : FsReadChunk := fun _ relPath offset length =>
  some (fsReadChunk relPath file bytesRead (some offset) (some length)).data |>.filter (· ≠ [])

theorem fromNode_agentRead (f : FileEntry) (node : StorageNode)
    (hrange : ¬ ((truthy rangeHeader).isSome ∧ f.range rangeHeader = none ∧ 0 < f.sizeBytes)) :
    (f.fromNode (agentRead file bytesRead) node (f.range rangeHeader)).map
        (fun c => (c.status, c.bytes)) =
      (f.downloadNode file bytesRead rangeHeader).sent := by
  have hempty : ∀ relPath offset length,
      (fsReadChunk relPath file bytesRead offset length).dataBase64 = "" ↔
        (fsReadChunk relPath file bytesRead offset length).data = [] := fun relPath offset length => by
    rw [fsReadChunk, dataBase64_readChunk, encode_eq_empty, data_readChunk]
  unfold FileEntry.downloadNode FileEntry.fromNode agentRead
  rw [if_neg hrange]
  rcases f.range rangeHeader with _ | ⟨start, stop⟩
  · have hlength : (if f.sizeBytes = 0 then nodeChunk else f.sizeBytes) =
        orNumber f.sizeBytes nodeChunk := rfl
    simp only [FileEntry.askedChunk, hempty, hlength]
    split
    · rename_i hnil
      simpa [Served.sent] using hnil
    · rename_i hsome
      simpa [Served.sent, FileEntry.content] using hsome
  · simp only [FileEntry.askedChunk, hempty]
    split
    · rename_i hnil
      rw [hnil]
      rfl
    · rename_i hsome
      rw [Option.filter_some, if_pos (decide_eq_true hsome)]
      rfl

end Answers

namespace Film

def film (sizeBytes : ℕ) : FileEntry where
  id := "film"
  userId := "alice"
  parentId := none
  name := "film.mp4"
  mimeType := "video/mp4"
  sizeBytes := sizeBytes
  sha256Hash := ""
  storagePath := "local"
  storageNodeId := some "sn_1"
  isTrashed := false
  dataBlob := none
  createdAt := 0
  updatedAt := 0

def lastByte : FsReadRequest := ⟨some "film.mp4", none, none, none, some "bytes=-1"⟩

end Film

open Film

theorem faithful_oneByte : Faithful [0x61] none ((film 1).downloadNode [0x61] 1 none) :=
  ((faithful_iff (by decide) 1).1 (film 1) none).mpr (Or.inr (Or.inr ⟨by decide, by decide, by decide⟩))

/-- A file of one byte more than 2 MiB comes short of its last byte; and the last byte of a file is
answered with its first ones. -/
theorem not_faithful :
    ¬ Faithful (List.replicate (twoMiB + 1) 0) none
      ((film (twoMiB + 1)).downloadNode (List.replicate (twoMiB + 1) 0) (twoMiB + 1) none)
    ∧ ¬ Faithful [1, 2, 3] lastByte.rangeHeader (lastByte.serve [1, 2, 3] 3) := by
  constructor
  · rw [faithful_download_iff (by rw [List.length_replicate]; decide)]
    rintro (⟨h, -⟩ | h | ⟨-, -, h⟩)
    · cases h
    · cases h
    · rw [List.length_replicate] at h
      omega
  · rw [faithful_fsRead_iff (by decide)]
    rintro (h | h | h)
    · revert h
      decide
    · cases h
    · rw [if_neg (by decide)] at h
      obtain ⟨r, hr, hoffset, -⟩ := h
      have hparse : parseHttpRange lastByte.rangeHeader 3 = some (2, 2) := by decide
      obtain rfl : (2, 2) = r := Option.some.inj (hparse.symm.trans hr)
      revert hoffset
      decide

end Pcos.Edge.Files
