import Mathlib.Data.List.Basic
import Pcos.Foundations.Digest
import Pcos.Foundations.Tiling

/-!
# Agent/Delta — content-defined chunking (`agent/src/delta.rs`)

`splitIntoChunks` cuts a file where a rolling hash of the bytes seen since the last cut vanishes
under a mask, or where the chunk has reached its maximal size.  The cut excludes the byte it is
found at; the byte that ends the file closes the last chunk *inclusively*, unless it is itself a cut.
-/

namespace Pcos

open Foundations

/-- Minimum chunk size: 64 KB. -/
def minChunk : ℕ := 64 * 1024

/-- Average target chunk size: 256 KB. -/
def avgChunk : ℕ := 256 * 1024

/-- Maximum chunk size: 1 MB. -/
def maxChunk : ℕ := 1024 * 1024

/-- Rolling hash mask, one below the average chunk size. -/
def mask : UInt32 := UInt32.ofNat avgChunk - 1

/-- A content-defined chunk with its hash and byte range. -/
structure ChunkInfo where
  index : ℕ
  offset : ℕ
  length : ℕ
  hash : String
  deriving DecidableEq, Repr

/-- The locals of the loop in `split_into_chunks`. -/
structure SplitState where
  offset : ℕ
  chunkStart : ℕ
  rollingHash : UInt32
  index : ℕ
  chunks : List ChunkInfo

/-- One byte of the Buzhash-style rolling hash, wrapping at 32 bits. -/
def rollHash (h : UInt32) (byte : UInt8) : UInt32 := h * 31 + byte.toUInt32

/-- The boundary test, on the length of the open chunk and the hash that includes the byte at hand. -/
def isBoundary (chunkLen : ℕ) (rollingHash : UInt32) : Bool :=
  (decide (minChunk ≤ chunkLen) && (rollingHash &&& mask) == 0) || decide (maxChunk ≤ chunkLen)

section Split

variable (sha256 : Bytes → String) (data : Bytes)

/-- The body of the loop, at the byte `data[offset]`. -/
def splitStep (s : SplitState) (byte : UInt8) : SplitState :=
  let rollingHash := rollHash s.rollingHash byte
  let chunkLen := s.offset - s.chunkStart
  let boundary := isBoundary chunkLen rollingHash
  if boundary || s.offset == data.length - 1 then
    let stop := if boundary then s.offset else s.offset + 1
    let chunkData := slice data (s.chunkStart, stop - s.chunkStart)
    { offset := s.offset + 1
      chunkStart := stop
      rollingHash := 0
      index := s.index + 1
      chunks := s.chunks ++ [⟨s.index, s.chunkStart, chunkData.length, sha256 chunkData⟩] }
  else
    { s with offset := s.offset + 1, rollingHash := rollingHash }

/-- The loop so far: `offset` runs over the bytes in order, so `k` iterations are a fold over the
first `k` bytes. -/
def splitScan (k : ℕ) : SplitState := (data.take k).foldl (splitStep sha256 data) ⟨0, 0, 0, 0, []⟩

/-- Split a byte slice into content-defined chunks. -/
def splitIntoChunks : List ChunkInfo := (splitScan sha256 data data.length).chunks

end Split

/-! ## Where the cuts fall

Cut points are a property of the bytes alone: from a cut at `s`, the next one is the first offset
whose open chunk passes the boundary test.  The hash restarts with the byte *after* a cut, since the
byte a cut is found at has already been hashed into the chunk it closes. -/

/-- The first byte hashed into the chunk that starts at `s`. -/
def resume (s : ℕ) : ℕ := if s = 0 then 0 else s + 1

/-- The rolling hash of a run of bytes. -/
def hashOf (l : Bytes) : UInt32 := l.foldl rollHash 0

/-- The rolling hash at offset `o`, in the chunk that starts at `s`. -/
def windowHash (data : Bytes) (s o : ℕ) : UInt32 := hashOf ((data.take (o + 1)).drop (resume s))

/-- Offset `o` passes the boundary test in the chunk that starts at `s`. -/
def CutsAt (data : Bytes) (s o : ℕ) : Prop := isBoundary (o - s) (windowHash data s o) = true

/-- **The cut points of a file**: its start, and from each of them the first offset that passes the
boundary test. -/
inductive CutPoint (data : Bytes) : ℕ → Prop
  | start : CutPoint data 0
  | next {s o : ℕ} (hs : CutPoint data s) (hso : s < o) (ho : o < data.length)
      (hcut : CutsAt data s o) (hfirst : ∀ o', s < o' → o' < o → ¬ CutsAt data s o') :
      CutPoint data o

/-- The last byte of the file is itself a cut point. -/
def EndsOnCut (data : Bytes) : Prop := 1 < data.length ∧ CutPoint data (data.length - 1)

theorem isBoundary_bounds {n : ℕ} {h : UInt32} (hb : isBoundary n h = true) : minChunk ≤ n := by
  simp only [isBoundary, Bool.or_eq_true, Bool.and_eq_true, decide_eq_true_eq] at hb
  rcases hb with hb | hb
  · exact hb.1
  · simp only [minChunk, maxChunk] at *
    omega

theorem lt_maxChunk_of_not_isBoundary {n : ℕ} {h : UInt32} (hb : ¬ isBoundary n h = true) :
    n < maxChunk := by
  simp only [isBoundary, Bool.or_eq_true, decide_eq_true_eq, not_or] at hb
  omega

@[simp] theorem hashOf_nil : hashOf [] = 0 := rfl

theorem hashOf_concat (l : Bytes) (b : UInt8) : hashOf (l ++ [b]) = rollHash (hashOf l) b := by
  rw [hashOf, List.foldl_append]
  rfl

theorem take_succ_eq {k : ℕ} {data : Bytes} (hk : k < data.length) :
    data.take (k + 1) = data.take k ++ [data[k]] := by
  rw [List.take_add_one, List.getElem?_eq_getElem hk]
  rfl

theorem resume_le {s k : ℕ} (h : s ≤ k) (hk : s = 0 ∨ s < k) : resume s ≤ k := by
  rw [resume]
  split <;> omega

/-- The hash of the open chunk, one byte on. -/
theorem windowHash_eq {data : Bytes} {s k : ℕ} (hk : k < data.length) (hs : resume s ≤ k) :
    windowHash data s k = rollHash (hashOf ((data.take k).drop (resume s))) data[k] := by
  have hlen : resume s ≤ (data.take k).length := by rw [List.length_take]; omega
  rw [windowHash, take_succ_eq hk, List.drop_append_of_le_length hlen, hashOf_concat]

/-! ## The loop, one byte at a time -/

variable (sha256 : Bytes → String) (data : Bytes)

@[simp] theorem splitScan_zero : splitScan sha256 data 0 = ⟨0, 0, 0, 0, []⟩ := rfl

theorem splitScan_succ {k : ℕ} (hk : k < data.length) :
    splitScan sha256 data (k + 1) = splitStep sha256 data (splitScan sha256 data k) data[k] := by
  rw [splitScan, take_succ_eq hk, List.foldl_append]
  rfl

/-- The chunk the loop emits for the bytes `[a, b)`. -/
def chunkOf (index a b : ℕ) : ChunkInfo :=
  ⟨index, a, (slice data (a, b - a)).length, sha256 (slice data (a, b - a))⟩

/-- The byte range of a chunk. -/
def ChunkInfo.range (c : ChunkInfo) : ℕ × ℕ := (c.offset, c.length)

/-- What the chunks emitted so far satisfy: they tile `[0, stop)`, count up, carry the hash of their
slice, and are of the sizes the boundary test allows. -/
structure Emitted (stop : ℕ) (chunks : List ChunkInfo) : Prop where
  tiles : Tiles 0 stop (chunks.map ChunkInfo.range)
  index : chunks.map ChunkInfo.index = List.range chunks.length
  hash : ∀ c ∈ chunks, c.hash = sha256 (slice data c.range)
  le_max : ∀ c ∈ chunks, c.length ≤ maxChunk

/-- **The loop invariant**, before the byte at offset `k`. -/
structure Scanned (k : ℕ) (s : SplitState) : Prop where
  offset : s.offset = k
  start_le : s.chunkStart = 0 ∨ s.chunkStart < k
  cut : CutPoint data s.chunkStart
  uncut : ∀ o, s.chunkStart < o → o < k → ¬ CutsAt data s.chunkStart o
  hash : s.rollingHash = hashOf ((data.take k).drop (resume s.chunkStart))
  index : s.index = s.chunks.length
  emitted : Emitted sha256 data s.chunkStart s.chunks
  min_le : ∀ c ∈ s.chunks, minChunk ≤ c.length

variable {sha256 data}

theorem Emitted.concat {a b : ℕ} {chunks : List ChunkInfo} (h : Emitted sha256 data a chunks)
    (hab : a < b) (hb : b ≤ data.length) (hmax : b - a ≤ maxChunk) :
    Emitted sha256 data b (chunks ++ [chunkOf sha256 data chunks.length a b]) := by
  have hlen : (slice data (a, b - a)).length = b - a := length_slice data (by simp only; omega)
  refine ⟨?_, ?_, ?_, ?_⟩
  · have hrange : (chunkOf sha256 data chunks.length a b).range = (a, b - a) := by
      rw [ChunkInfo.range, chunkOf, hlen]
    have htiles := h.tiles.concat (n := b - a) (by omega)
    rwa [Nat.add_sub_cancel' (Nat.le_of_lt hab), ← hrange, ← List.map_singleton,
      ← List.map_append] at htiles
  · rw [List.map_append, h.index, List.length_append, List.length_singleton, List.range_succ]
    rfl
  · intro c hc
    rcases List.mem_append.mp hc with hc | hc
    · exact h.hash c hc
    · obtain rfl := List.mem_singleton.mp hc
      rw [ChunkInfo.range, chunkOf, hlen]
  · intro c hc
    rcases List.mem_append.mp hc with hc | hc
    · exact h.le_max c hc
    · obtain rfl := List.mem_singleton.mp hc
      rw [chunkOf, hlen]
      exact hmax

namespace Scanned

variable {k : ℕ} {s : SplitState}

theorem start_le' (h : Scanned sha256 data k s) : s.chunkStart ≤ k := by
  rcases h.start_le with h0 | h0 <;> omega

theorem resume_le (h : Scanned sha256 data k s) : resume s.chunkStart ≤ k :=
  Pcos.resume_le h.start_le' h.start_le

/-- The hash the body computes is the window hash of the byte at hand. -/
theorem rollHash_eq (h : Scanned sha256 data k s) (hk : k < data.length) :
    rollHash s.rollingHash data[k] = windowHash data s.chunkStart k := by
  rw [h.hash, windowHash_eq hk h.resume_le]

/-- The body's boundary test asks whether the byte at hand is a cut. -/
theorem isBoundary_iff (h : Scanned sha256 data k s) (hk : k < data.length) :
    isBoundary (s.offset - s.chunkStart) (rollHash s.rollingHash data[k]) = true
      ↔ CutsAt data s.chunkStart k := by
  rw [h.rollHash_eq hk, h.offset]
  rfl

/-- The open chunk has not outgrown the maximum. -/
theorem sub_le_max (h : Scanned sha256 data k s) : k - s.chunkStart ≤ maxChunk := by
  by_cases hk : k ≤ s.chunkStart + 1
  · simp only [maxChunk]
    omega
  · have := lt_maxChunk_of_not_isBoundary (h.uncut (k - 1) (by omega) (by omega))
    omega

end Scanned

/-! ### One iteration -/

section Step

variable {k : ℕ} {s : SplitState}

/-- At a cut, the body closes the chunk before the byte at hand. -/
theorem splitStep_cut (h : Scanned sha256 data k s) (hk : k < data.length)
    (hcut : CutsAt data s.chunkStart k) :
    splitStep sha256 data s data[k]
      = ⟨k + 1, k, 0, s.index + 1, s.chunks ++ [chunkOf sha256 data s.index s.chunkStart k]⟩ := by
  have hb := (h.isBoundary_iff hk).mpr hcut
  simp only [splitStep, hb, Bool.true_or, if_true]
  rw [h.offset]
  rfl

/-- Elsewhere before the last byte, it only rolls the hash on. -/
theorem splitStep_roll (h : Scanned sha256 data k s) (hk : k + 1 < data.length)
    (hcut : ¬ CutsAt data s.chunkStart k) :
    splitStep sha256 data s data[k]
      = { s with offset := k + 1, rollingHash := windowHash data s.chunkStart k } := by
  have hb := Bool.eq_false_iff.mpr ((h.isBoundary_iff (by omega)).not.mpr hcut)
  have hlast : (s.offset == data.length - 1) = false := by
    rw [h.offset, beq_eq_false_iff_ne]
    omega
  simp only [splitStep, hb, hlast, Bool.or_false, Bool.false_eq_true, if_false]
  rw [h.rollHash_eq (by omega), h.offset]

/-- At the last byte, without a cut, it closes the chunk after that byte. -/
theorem splitStep_last (h : Scanned sha256 data k s) (hk : k + 1 = data.length)
    (hcut : ¬ CutsAt data s.chunkStart k) :
    splitStep sha256 data s data[k]
      = ⟨k + 1, k + 1, 0, s.index + 1,
          s.chunks ++ [chunkOf sha256 data s.index s.chunkStart (k + 1)]⟩ := by
  have hb := Bool.eq_false_iff.mpr ((h.isBoundary_iff (by omega)).not.mpr hcut)
  have hlast : (s.offset == data.length - 1) = true := by
    rw [h.offset, beq_iff_eq]
    omega
  simp only [splitStep, hb, hlast, Bool.false_or, if_true, Bool.false_eq_true, if_false]
  rw [h.offset]
  rfl

/-- A cut found by the loop is long enough, and later than the start of its chunk. -/
theorem CutsAt.start_lt {a o : ℕ} (h : CutsAt data a o) : a < o ∧ minChunk ≤ o - a := by
  have := isBoundary_bounds h
  refine ⟨?_, this⟩
  simp only [minChunk] at this
  omega

/-- **One iteration keeps the invariant**, as long as the last byte is not reached. -/
theorem Scanned.step (h : Scanned sha256 data k s) (hk : k + 1 < data.length) :
    Scanned sha256 data (k + 1) (splitStep sha256 data s data[k]) := by
  by_cases hcut : CutsAt data s.chunkStart k
  · obtain ⟨hlt, hmin⟩ := hcut.start_lt
    rw [splitStep_cut h (by omega) hcut, h.index]
    have hlen : k ≤ data.length := by omega
    refine ⟨rfl, Or.inr (by simp), h.cut.next hlt (Nat.lt_of_succ_lt hk) hcut h.uncut, ?_, ?_, ?_,
      h.emitted.concat hlt hlen h.sub_le_max, ?_⟩
    · intro o h1 h2
      simp only at h1
      omega
    · simp only [resume, show k ≠ 0 by omega, if_false]
      rw [List.drop_of_length_le (by rw [List.length_take]; omega), hashOf_nil]
    · simp
    · intro c hc
      rcases List.mem_append.mp hc with hc | hc
      · exact h.min_le c hc
      · obtain rfl := List.mem_singleton.mp hc
        rwa [chunkOf, length_slice data (by simp only; omega)]
  · rw [splitStep_roll h hk hcut]
    refine ⟨rfl, ?_, h.cut, ?_, rfl, h.index, h.emitted, h.min_le⟩
    · rcases h.start_le with h0 | h0
      · exact Or.inl h0
      · exact Or.inr (by simp only; omega)
    · intro o h1 h2
      rcases Nat.lt_succ_iff_lt_or_eq.mp h2 with h2 | rfl
      · exact h.uncut o h1 h2
      · exact hcut

end Step

/-- **The invariant holds up to the last byte.** -/
theorem scanned_splitScan : ∀ {k : ℕ}, k < data.length →
    Scanned sha256 data k (splitScan sha256 data k)
  | 0, _ =>
    { offset := rfl
      start_le := Or.inl rfl
      cut := .start
      uncut := fun _ _ h => absurd h (Nat.not_lt_zero _)
      hash := rfl
      index := rfl
      emitted := ⟨rfl, rfl, by simp, by simp⟩
      min_le := by simp }
  | k + 1, hk => by
    rw [splitScan_succ sha256 data (by omega)]
    exact (scanned_splitScan (by omega)).step hk

/-- **The loop finds every cut point**: right after a cut, its chunk starts there. -/
theorem chunkStart_of_cutPoint {o : ℕ} (h : CutPoint data o) (ho : o < data.length) :
    ∀ k, (o < k ∨ o = 0) → o ≤ k → k < data.length →
      (∀ o', o < o' → o' < k → ¬ CutsAt data o o') →
      (splitScan sha256 data k).chunkStart = o := by
  induction h with
  | start =>
    intro k
    induction k with
    | zero => exact fun _ _ _ _ => rfl
    | succ k ih =>
      intro _ _ hk huncut
      have hs : Scanned sha256 data k (splitScan sha256 data k) := scanned_splitScan (by omega)
      have hk0 := ih (Or.inr rfl) (by omega) (by omega) fun o' h1 h2 => huncut o' h1 (by omega)
      have hcut : ¬ CutsAt data (splitScan sha256 data k).chunkStart k := fun hc => by
        have := hc.start_lt
        rw [hk0] at hc
        exact huncut k (by omega) (by omega) hc
      rw [splitScan_succ sha256 data (by omega), splitStep_roll hs hk hcut]
      exact hk0
  | @next a o ha hao hol hcut hfirst ih =>
    intro k
    induction k with
    | zero => intro h1; omega
    | succ k ihk =>
      intro h1 h2 hk huncut
      have hs : Scanned sha256 data k (splitScan sha256 data k) := scanned_splitScan (by omega)
      rcases Nat.lt_or_ge o k with hok | hok
      · have hk0 := ihk (Or.inl hok) (by omega) (by omega) fun o' g1 g2 => huncut o' g1 (by omega)
        have hcut' : ¬ CutsAt data (splitScan sha256 data k).chunkStart k := by
          rw [hk0]
          exact huncut k hok (by omega)
        rw [splitScan_succ sha256 data (by omega), splitStep_roll hs hk hcut']
        exact hk0
      · obtain rfl : k = o := by omega
        have hk0 := ih (by omega) k (Or.inl hao) (by omega) (by omega) hfirst
        rw [splitScan_succ sha256 data (by omega), splitStep_cut hs (by omega) (by rwa [hk0])]

/-! ## The chunks of a whole file -/

/-- The loop cuts at the last byte exactly when that byte is a cut point. -/
theorem cutsAt_last_iff (sha256 : Bytes → String) {k : ℕ} (hk : k + 1 = data.length) :
    CutsAt data (splitScan sha256 data k).chunkStart k ↔ EndsOnCut data := by
  have hs : Scanned sha256 data k (splitScan sha256 data k) := scanned_splitScan (by omega)
  obtain rfl : k = data.length - 1 := by omega
  constructor
  · intro hcut
    have hlt := hcut.start_lt.1
    exact ⟨by omega, hs.cut.next hlt (by omega) hcut hs.uncut⟩
  · rintro ⟨hlen, hcp⟩
    generalize ho : data.length - 1 = o at hcp
    cases hcp with
    | start => omega
    | @next a _ ha hao hol hcut hfirst =>
      rwa [chunkStart_of_cutPoint ha (by omega) o (Or.inl hao) (by omega) hol hfirst]

theorem splitIntoChunks_eq {k : ℕ} (hk : k + 1 = data.length) :
    splitIntoChunks sha256 data
      = (splitStep sha256 data (splitScan sha256 data k) data[k]).chunks := by
  have h := splitScan_succ sha256 data (k := k) (by omega)
  rw [hk] at h
  rw [splitIntoChunks, h]

/-- A cut on the last byte leaves that byte out: the chunks stop one short of the end. -/
theorem emitted_of_endsOnCut (h : EndsOnCut data) :
    Emitted sha256 data (data.length - 1) (splitIntoChunks sha256 data) := by
  obtain ⟨k, hk⟩ : ∃ k, k + 1 = data.length := ⟨data.length - 1, by have := h.1; omega⟩
  have hs : Scanned sha256 data k (splitScan sha256 data k) := scanned_splitScan (by omega)
  have hcut := (cutsAt_last_iff sha256 hk).mpr h
  rw [splitIntoChunks_eq hk, splitStep_cut hs (by omega) hcut, hs.index, ← hk, Nat.add_sub_cancel]
  have hlen : k ≤ data.length := by omega
  exact hs.emitted.concat hcut.start_lt.1 hlen hs.sub_le_max

/-- Otherwise the chunks cover the file, and all but the last are of at least the minimal size. -/
theorem emitted_of_not_endsOnCut (sha256 : Bytes → String) (h : ¬ EndsOnCut data) :
    Emitted sha256 data data.length (splitIntoChunks sha256 data)
      ∧ ∀ c ∈ (splitIntoChunks sha256 data).dropLast, minChunk ≤ c.length := by
  rcases Nat.eq_zero_or_pos data.length with h0 | hpos
  · obtain rfl := List.eq_nil_of_length_eq_zero h0
    exact ⟨⟨rfl, rfl, by simp [splitIntoChunks], by simp [splitIntoChunks]⟩,
      by simp [splitIntoChunks]⟩
  · obtain ⟨k, hk⟩ : ∃ k, k + 1 = data.length := ⟨data.length - 1, by omega⟩
    have hs : Scanned sha256 data k (splitScan sha256 data k) := scanned_splitScan (by omega)
    have hcut := (cutsAt_last_iff sha256 hk).not.mpr h
    have hmax := lt_maxChunk_of_not_isBoundary hcut
    have hle := hs.start_le'
    rw [splitIntoChunks_eq hk, splitStep_last hs hk hcut, hs.index]
    refine ⟨?_, ?_⟩
    · rw [← hk]
      exact hs.emitted.concat (Nat.lt_succ_of_le hle) (Nat.le_of_eq hk) (by omega)
    · rw [List.dropLast_concat]
      exact hs.min_le

/-- **`chunks` is a partition of `data`**: the chunks count up from `0`, start at `0`, follow one
another, are non-empty and of legal size, end where the file ends, and reassemble it. -/
structure IsPartition (data : Bytes) (chunks : List ChunkInfo) : Prop where
  index : ∀ (i : ℕ) (hi : i < chunks.length), chunks[i].index = i
  first : ∀ c, chunks.head? = some c → c.offset = 0
  consecutive : ∀ (i : ℕ) (hi : i + 1 < chunks.length),
    chunks[i + 1].offset = chunks[i].offset + chunks[i].length
  nonempty : ∀ c ∈ chunks, 0 < c.length
  le_max : ∀ c ∈ chunks, c.length ≤ maxChunk
  min_le : ∀ c ∈ chunks.dropLast, minChunk ≤ c.length
  last : ∀ c, chunks.getLast? = some c → c.offset + c.length = data.length
  concat : chunks.flatMap (fun c => (data.drop c.offset).take c.length) = data
  empty : data = [] → chunks = []

theorem Emitted.flatMap_eq {stop : ℕ} {chunks : List ChunkInfo}
    (h : Emitted sha256 data stop chunks) :
    chunks.flatMap (fun c => (data.drop c.offset).take c.length) = data.take stop := by
  have := h.tiles.flatMap_slice data
  rwa [List.flatMap_map, List.drop_zero, Nat.sub_zero] at this

theorem Emitted.isPartition {chunks : List ChunkInfo} (h : Emitted sha256 data data.length chunks)
    (hmin : ∀ c ∈ chunks.dropLast, minChunk ≤ c.length) : IsPartition data chunks where
  index i hi := by
    have := congrArg (fun l : List ℕ => l[i]?) h.index
    simpa [hi] using this
  first c hc := h.tiles.head (p := c.range) (by rw [List.head?_map, hc]; rfl)
  consecutive i hi := by
    have := h.tiles.consecutive i (by rwa [List.length_map])
    rwa [List.getElem_map, List.getElem_map] at this
  nonempty c hc := h.tiles.pos c.range (List.mem_map_of_mem hc)
  le_max := h.le_max
  min_le := hmin
  last c hc := h.tiles.getLast (p := c.range) (by rw [List.getLast?_map, hc]; rfl)
  concat := by rw [h.flatMap_eq, List.take_length]
  empty h0 := by
    subst h0
    cases chunks with
    | nil => rfl
    | cons c cs =>
      obtain ⟨h1, h2, h3⟩ := h.tiles
      have := h3.le
      simp only [List.length_nil] at this
      omega

/-- The chunks cover the file but for at most its last byte. -/
theorem exists_emitted (sha256 : Bytes → String) (data : Bytes) :
    ∃ stop, data.length - 1 ≤ stop ∧ Emitted sha256 data stop (splitIntoChunks sha256 data) := by
  by_cases h : EndsOnCut data
  · exact ⟨_, Nat.le_refl _, emitted_of_endsOnCut h⟩
  · exact ⟨_, Nat.sub_le _ _, (emitted_of_not_endsOnCut sha256 h).1⟩

/-- A file that no chunk can cover has several. -/
theorem one_lt_length_splitIntoChunks (sha256 : Bytes → String) (h : maxChunk + 1 < data.length) :
    1 < (splitIntoChunks sha256 data).length := by
  obtain ⟨stop, hstop, hem⟩ := exists_emitted sha256 data
  match hch : splitIntoChunks sha256 data, hem with
  | [], hem =>
    have h0 : 0 = stop := hem.tiles
    omega
  | [ch], hem =>
    have h1 : 0 + ch.length = stop := hem.tiles.2.2
    have := hem.le_max ch (List.mem_singleton.mpr rfl)
    omega
  | _ :: _ :: rest, _ => simp

theorem not_isPartition_of_endsOnCut (h : EndsOnCut data) :
    ¬ IsPartition data (splitIntoChunks sha256 data) := by
  intro hp
  have hlen := congrArg List.length hp.concat
  rw [(emitted_of_endsOnCut h).flatMap_eq, List.length_take] at hlen
  have := h.1
  omega

/-- **Chunking partitions a file unless its last byte is a cut point** — there the cut closes the
chunk before the byte, and no later iteration picks the byte up. -/
theorem splitIntoChunks_isPartition_iff (sha256 : Bytes → String) (data : Bytes) :
    IsPartition data (splitIntoChunks sha256 data) ↔ ¬ EndsOnCut data := by
  refine ⟨fun hp h => not_isPartition_of_endsOnCut h hp, fun h => ?_⟩
  obtain ⟨h1, h2⟩ := emitted_of_not_endsOnCut sha256 h
  exact h1.isPartition h2

theorem hashOf_replicate_zero (n : ℕ) : hashOf (List.replicate n 0) = 0 := by
  induction n with
  | zero => rfl
  | succ n ih =>
    rw [List.replicate_succ', hashOf_concat, ih]
    rfl

/-- A file of zeros one byte longer than the minimal chunk ends on a cut. -/
theorem endsOnCut_zeros : EndsOnCut (List.replicate (minChunk + 1) 0) := by
  have hlen : (List.replicate (minChunk + 1) (0 : UInt8)).length = minChunk + 1 :=
    List.length_replicate
  refine ⟨by rw [hlen]; decide, ?_⟩
  rw [hlen, Nat.add_sub_cancel]
  refine CutPoint.start.next (by decide) (by rw [hlen]; omega) ?_ fun o h1 h2 hcut => ?_
  · have hw : windowHash (List.replicate (minChunk + 1) 0) 0 minChunk = 0 := by
      rw [windowHash, List.take_of_length_le (Nat.le_of_eq hlen)]
      exact hashOf_replicate_zero _
    rw [CutsAt, hw]
    decide
  · have := hcut.start_lt.2
    omega

/-- **The last byte of such a file is lost.** -/
theorem not_isPartition_zeros :
    ¬ IsPartition (List.replicate (minChunk + 1) 0)
      (splitIntoChunks (fun _ => "") (List.replicate (minChunk + 1) 0)) :=
  not_isPartition_of_endsOnCut endsOnCut_zeros

end Pcos
