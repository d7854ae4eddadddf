import Pcos.Agent.Delta

/-!
# Agent/DeltaEdits — what an edit costs (`diff_chunks` in `agent/src/delta.rs`)

    old   head · x · tail
    new   head · y · tail

As long as two files have the same bytes, they are cut at the same places (`splitScan_append`), and
after a cut that both have, with the same bytes to come, they are cut alike again
(`exists_shifted_tail`).  So of an edited file **only chunks that reach into the edit are uploaded, and no
more bytes than the new ones and a chunk of the largest size** (`diffChunks_edit`).
-/

namespace Pcos

open Foundations

/-- The chunks whose hash is not among those that the server knows. -/
def newChunks (loc server : List ChunkInfo) : List ChunkInfo :=
  loc.filter fun c => c.hash ∉ server.map ChunkInfo.hash

/-- The indices of the chunks that need to be uploaded. -/
def diffChunks (loc server : List ChunkInfo) : List ℕ := (newChunks loc server).map ChunkInfo.index

section Edits

variable {sha256 : Bytes → String} {data head p q t : Bytes} {k m n o : ℕ} {s s' : SplitState}

/-! ## The chunks that are yet to come -/

variable (sha256) in
/-- One more byte adds a chunk that ends there, or none. -/
theorem exists_splitScan_succ (hk : k < data.length) :
    ∃ more, (splitScan sha256 data (k + 1)).chunks = (splitScan sha256 data k).chunks ++ more ∧
      ∀ c ∈ more, k ≤ c.offset + c.length := by
  have hs : Scanned sha256 data k (splitScan sha256 data k) := scanned_splitScan hk
  have hle := hs.start_le'
  have hchunk : ∀ stop, k ≤ stop → stop ≤ data.length → ∀ c ∈
      [chunkOf sha256 data (splitScan sha256 data k).index (splitScan sha256 data k).chunkStart stop],
      k ≤ c.offset + c.length := by
    intro stop hstop hdata c hc
    rw [List.mem_singleton.mp hc, chunkOf, length_slice data (by simp only; omega)]
    simp only
    omega
  rw [splitScan_succ sha256 data hk]
  by_cases hcut : CutsAt data (splitScan sha256 data k).chunkStart k
  · rw [splitStep_cut hs hk hcut]
    exact ⟨_, rfl, hchunk k (Nat.le_refl _) (Nat.le_of_lt hk)⟩
  · by_cases hlast : k + 1 = data.length
    · rw [splitStep_last hs hlast hcut]
      exact ⟨_, rfl, hchunk (k + 1) (Nat.le_succ _) (Nat.le_of_eq hlast)⟩
    · rw [splitStep_roll hs (by omega) hcut]
      exact ⟨[], (List.append_nil _).symm, List.forall_mem_nil _⟩

variable (sha256) in
/-- The chunks found so far stay, and those to come end no earlier than here. -/
theorem exists_splitScan_add (hj : k + m ≤ data.length) :
    ∃ more, (splitScan sha256 data (k + m)).chunks = (splitScan sha256 data k).chunks ++ more ∧
      ∀ c ∈ more, k ≤ c.offset + c.length := by
  induction m with
  | zero => exact ⟨[], (List.append_nil _).symm, List.forall_mem_nil _⟩
  | succ m ih =>
    obtain ⟨more, hmore, hends⟩ := ih (by omega)
    have hlt : k + m < data.length := by omega
    obtain ⟨next, hnext, hend⟩ := exists_splitScan_succ sha256 hlt
    refine ⟨more ++ next, ?_, fun c hc => ?_⟩
    · rw [← Nat.add_assoc, hnext, hmore, List.append_assoc]
    · rcases List.mem_append.mp hc with hc | hc
      · exact hends c hc
      · exact Nat.le_trans (Nat.le_add_right k m) (hend c hc)

variable (sha256) in
theorem exists_splitIntoChunks (hk : k ≤ data.length) :
    ∃ more, splitIntoChunks sha256 data = (splitScan sha256 data k).chunks ++ more ∧
      ∀ c ∈ more, k ≤ c.offset + c.length := by
  have hadd : k + (data.length - k) ≤ data.length := by omega
  have hgrow := exists_splitScan_add sha256 hadd
  rwa [Nat.add_sub_cancel' hk] at hgrow

/-! ## As long as the bytes are the same -/

theorem slice_append (h : m + n ≤ p.length) : slice (p ++ q) (m, n) = slice p (m, n) := by
  simp only [slice]
  rw [List.drop_append_of_le_length (by omega),
    List.take_append_of_le_length (by rw [List.length_drop]; omega)]

/-- The body of the loop looks at the open chunk only, and at whether there is more to come. -/
theorem splitStep_congr {data' : Bytes} (hlast : s.offset ≠ data.length - 1)
    (hlast' : s.offset ≠ data'.length - 1) (hslice : slice data (s.chunkStart, s.offset - s.chunkStart) =
      slice data' (s.chunkStart, s.offset - s.chunkStart)) (byte : UInt8) :
    splitStep sha256 data s byte = splitStep sha256 data' s byte := by
  have hoff : (s.offset == data.length - 1) = false := beq_eq_false_iff_ne.mpr hlast
  have hoff' : (s.offset == data'.length - 1) = false := beq_eq_false_iff_ne.mpr hlast'
  simp only [splitStep, hoff, hoff', Bool.or_false]
  split
  · rw [hslice]
  · rfl

/-- **The loop does the same as long as the bytes are the same.** -/
theorem splitScan_append (hp : p ≠ []) (hq : q ≠ []) (hk : k ≤ head.length) :
    splitScan sha256 (head ++ p) k = splitScan sha256 (head ++ q) k := by
  have hppos := List.length_pos_iff.mpr hp
  have hqpos := List.length_pos_iff.mpr hq
  induction k with
  | zero => rfl
  | succ k ih =>
    have hltp : k < (head ++ p).length := by rw [List.length_append]; omega
    have hltq : k < (head ++ q).length := by rw [List.length_append]; omega
    have hs : Scanned sha256 (head ++ q) k (splitScan sha256 (head ++ q) k) := scanned_splitScan hltq
    have hle := hs.start_le'
    rw [splitScan_succ sha256 _ hltp, splitScan_succ sha256 _ hltq, ih (by omega),
      List.getElem_append_left (by omega), List.getElem_append_left (by omega)]
    refine splitStep_congr ?_ ?_ ?_ _
    · rw [hs.offset, List.length_append]
      omega
    · rw [hs.offset, List.length_append]
      omega
    · rw [hs.offset, slice_append (by omega), slice_append (by omega)]

/-! ## After a cut -/

/-- A chunk that has moved with the bytes: it is as far behind the cut, as long, and has the same
hash. -/
structure Shifted (m n : ℕ) (c c' : ChunkInfo) : Prop where
  offset : ∃ d, c.offset = m + d ∧ c'.offset = n + d
  length : c.length = c'.length
  hash : c.hash = c'.hash

/-- The states of the loop over two files that are `k` bytes behind a cut, when the chunks before it were
`cs` and `cs'`. -/
structure Aligned (m n k : ℕ) (cs cs' : List ChunkInfo) (s s' : SplitState) : Prop where
  offset : s.offset = m + k
  offset' : s'.offset = n + k
  start : ∃ d ≤ k, s.chunkStart = m + d ∧ s'.chunkStart = n + d
  hash : s.rollingHash = s'.rollingHash
  chunks : ∃ more more', s.chunks = cs ++ more ∧ s'.chunks = cs' ++ more' ∧
    List.Forall₂ (Shifted m n) more more'

theorem slice_append_right : slice (p ++ t) (p.length + m, n) = slice t (m, n) := by
  simp only [slice]
  rw [← List.drop_drop, List.drop_left]

variable {cs cs' : List ChunkInfo}

/-- **One more byte** is a cut in both files or in none. -/
theorem Aligned.step (h : Aligned p.length q.length k cs cs' s s') (hk : k < t.length) (byte : UInt8) :
    Aligned p.length q.length (k + 1) cs cs' (splitStep sha256 (p ++ t) s byte)
      (splitStep sha256 (q ++ t) s' byte) := by
  obtain ⟨d, hd, hstart, hstart'⟩ := h.start
  obtain ⟨more, more', hchunks, hchunks', hshifted⟩ := h.chunks
  have hlen : s.offset - s.chunkStart = s'.offset - s'.chunkStart := by
    rw [h.offset, h.offset', hstart, hstart']
    omega
  have hlast : (s.offset == (p ++ t).length - 1) = (s'.offset == (q ++ t).length - 1) := by
    rw [h.offset, h.offset', List.length_append, List.length_append, Bool.eq_iff_iff, beq_iff_eq,
      beq_iff_eq]
    omega
  have hslice : ∀ j, slice (p ++ t) (s.chunkStart, p.length + k + j - s.chunkStart) =
      slice (q ++ t) (s'.chunkStart, q.length + k + j - s'.chunkStart) := by
    intro j
    have hlen : p.length + k + j - (p.length + d) = q.length + k + j - (q.length + d) := by omega
    rw [hstart, hstart', hlen, slice_append_right, slice_append_right]
  have hclose : ∀ j index index', List.Forall₂ (Shifted p.length q.length)
      (more ++ [chunkOf sha256 (p ++ t) index s.chunkStart (p.length + k + j)])
      (more' ++ [chunkOf sha256 (q ++ t) index' s'.chunkStart (q.length + k + j)]) := by
    intro j index index'
    exact List.rel_append hshifted (.cons ⟨⟨d, hstart, hstart'⟩, congrArg List.length (hslice j),
      congrArg sha256 (hslice j)⟩ .nil)
  simp only [splitStep, ← hlen, ← h.hash, ← hlast]
  by_cases hb : isBoundary (s.offset - s.chunkStart) (rollHash s.rollingHash byte) = true
  · simp only [hb, Bool.true_or, if_true]
    have hpieces := hclose 0 s.index s'.index
    rw [Nat.add_zero, Nat.add_zero, ← h.offset, ← h.offset'] at hpieces
    refine ⟨by rw [h.offset]; rfl, by rw [h.offset']; rfl, ⟨k, Nat.le_succ k, h.offset, h.offset'⟩, rfl,
      ⟨_, _, ?_, ?_, hpieces⟩⟩
    · rw [hchunks, List.append_assoc]
      rfl
    · rw [hchunks', List.append_assoc]
      rfl
  · simp only [hb, Bool.false_or]
    split
    · have hpieces := hclose 1 s.index s'.index
      rw [← h.offset, ← h.offset'] at hpieces
      refine ⟨by rw [h.offset]; rfl, by rw [h.offset']; rfl,
        ⟨k + 1, Nat.le_refl _, by rw [h.offset]; rfl, by rw [h.offset']; rfl⟩, rfl,
        ⟨_, _, ?_, ?_, hpieces⟩⟩
      · rw [hchunks, List.append_assoc]
        rfl
      · rw [hchunks', List.append_assoc]
        rfl
    · exact ⟨by rw [h.offset]; rfl, by rw [h.offset']; rfl, ⟨d, Nat.le_succ_of_le hd, hstart, hstart'⟩,
        rfl, ⟨more, more', hchunks, hchunks', hshifted⟩⟩

theorem CutPoint.lt_length (h : CutPoint data o) (ho : 0 < o) : o < data.length := by
  cases h with
  | start => exact absurd ho (Nat.lt_irrefl 0)
  | next _ _ hlt _ _ => exact hlt

variable (sha256) in
/-- The state right after a cut. -/
theorem exists_splitScan_cut (h : CutPoint data o) (ho : 0 < o) :
    ∃ index cs, splitScan sha256 data (o + 1) = ⟨o + 1, o, 0, index, cs⟩ ∧ Emitted sha256 data o cs := by
  have hlt := h.lt_length ho
  have hs : Scanned sha256 data o (splitScan sha256 data o) := scanned_splitScan hlt
  cases h with
  | start => exact absurd ho (Nat.lt_irrefl 0)
  | @next a _ ha hao _ hcut hfirst =>
    have hstart : (splitScan sha256 data o).chunkStart = a :=
      chunkStart_of_cutPoint ha (by omega) o (Or.inl hao) (Nat.le_of_lt hao) hlt hfirst
    rw [← hstart] at hao hcut
    rw [splitScan_succ sha256 data hlt, splitStep_cut hs hlt hcut, hs.index]
    exact ⟨_, _, rfl, hs.emitted.concat hao (Nat.le_of_lt hlt) hs.sub_le_max⟩

variable (sha256) in
/-- **Behind a common cut the chunks are the same**, moved with the bytes. -/
theorem exists_shifted_tail (hp : 0 < p.length) (hq : 0 < q.length) (hcut : CutPoint (p ++ t) p.length)
    (hcut' : CutPoint (q ++ t) q.length) : ∃ cs cs' more more',
      splitIntoChunks sha256 (p ++ t) = cs ++ more ∧ splitIntoChunks sha256 (q ++ t) = cs' ++ more' ∧
      Emitted sha256 (q ++ t) q.length cs' ∧ List.Forall₂ (Shifted p.length q.length) more more' := by
  have ht : 1 ≤ t.length := by
    have hlt := hcut.lt_length hp
    rw [List.length_append] at hlt
    omega
  obtain ⟨index, cs, hscan, -⟩ := exists_splitScan_cut sha256 hcut hp
  obtain ⟨index', cs', hscan', hemitted⟩ := exists_splitScan_cut sha256 hcut' hq
  have haligned : ∀ k ≥ 1, k ≤ t.length → Aligned p.length q.length k cs cs'
      (splitScan sha256 (p ++ t) (p.length + k)) (splitScan sha256 (q ++ t) (q.length + k)) := by
    intro k hk
    induction k, hk using Nat.le_induction with
    | base =>
      intro _
      rw [hscan, hscan']
      exact ⟨rfl, rfl, ⟨0, Nat.zero_le 1, rfl, rfl⟩, rfl,
        ⟨[], [], (List.append_nil _).symm, (List.append_nil _).symm, .nil⟩⟩
    | succ k _ ih =>
      intro hk
      have hlt : p.length + k < (p ++ t).length := by rw [List.length_append]; omega
      have hlt' : q.length + k < (q ++ t).length := by rw [List.length_append]; omega
      have hbyte : (p ++ t)[p.length + k] = (q ++ t)[q.length + k] := by
        rw [List.getElem_append_right (by omega), List.getElem_append_right (by omega)]
        simp
      rw [← Nat.add_assoc, ← Nat.add_assoc, splitScan_succ sha256 _ hlt, splitScan_succ sha256 _ hlt',
        hbyte]
      exact (ih (by omega)).step (by omega) _
  obtain ⟨more, more', hchunks, hchunks', hshifted⟩ := (haligned t.length ht (Nat.le_refl _)).chunks
  rw [← List.length_append] at hchunks hchunks'
  exact ⟨cs, cs', more, more', hchunks, hchunks', hemitted, hshifted⟩

/-! ## An edit -/

variable {x y : Bytes}

variable (sha256) in
/-- A chunk that is not known reaches into the edit. -/
theorem mem_newChunks_edit (hx : head ++ x ≠ []) (hy : head ++ y ≠ [])
    (hcut : CutPoint (head ++ x ++ t) (head ++ x).length)
    (hcut' : CutPoint (head ++ y ++ t) (head ++ y).length) :
    ∃ cs more, splitIntoChunks sha256 (head ++ y ++ t) = cs ++ more ∧
      Emitted sha256 (head ++ y ++ t) (head ++ y).length cs ∧
      ∀ c ∈ newChunks (splitIntoChunks sha256 (head ++ y ++ t)) (splitIntoChunks sha256 (head ++ x ++ t)),
        c ∉ more ∧ head.length ≤ c.offset + c.length := by
  have hxpos := List.length_pos_iff.mpr hx
  have hypos := List.length_pos_iff.mpr hy
  obtain ⟨cs, cs', more, more', hchunks, hchunks', hemitted, hshifted⟩ :=
    exists_shifted_tail sha256 hxpos hypos hcut hcut'
  have ht : t ≠ [] := by
    rintro rfl
    have hlt := hcut.lt_length hxpos
    rw [List.append_nil] at hlt
    exact absurd hlt (Nat.lt_irrefl _)
  refine ⟨cs', more', hchunks', hemitted, fun c hc => ?_⟩
  obtain ⟨hmem, hnew⟩ := List.mem_filter.mp hc
  rw [decide_eq_true_eq] at hnew
  refine ⟨fun hc => hnew ?_, ?_⟩
  · have hhashes : more.map ChunkInfo.hash = more'.map ChunkInfo.hash :=
      List.forall₂_eq_eq_eq ▸ List.forall₂_map_left_iff.mpr
        (List.forall₂_map_right_iff.mpr (hshifted.imp fun _ _ h => h.hash))
    rw [hchunks, List.map_append, hhashes]
    exact List.mem_append_right _ (List.mem_map_of_mem hc)
  · have hlen : head.length ≤ (head ++ (y ++ t)).length := by rw [List.length_append]; omega
    have hlen' : head.length ≤ (head ++ (x ++ t)).length := by rw [List.length_append]; omega
    obtain ⟨later, hlater, hends⟩ := exists_splitIntoChunks sha256 hlen
    obtain ⟨later', hlater', -⟩ := exists_splitIntoChunks sha256 hlen'
    have hsame : splitScan sha256 (head ++ (y ++ t)) head.length =
        splitScan sha256 (head ++ (x ++ t)) head.length :=
      splitScan_append (List.append_ne_nil_of_right_ne_nil y ht)
        (List.append_ne_nil_of_right_ne_nil x ht) (Nat.le_refl _)
    rw [List.append_assoc] at hmem hnew
    rw [hlater] at hmem
    refine hends c ((List.mem_append.mp hmem).resolve_left fun hc => hnew ?_)
    rw [hlater', ← hsame, List.map_append]
    exact List.mem_append_left _ (List.mem_map_of_mem hc)

theorem injOn_index : Set.InjOn ChunkInfo.index {c | c ∈ splitIntoChunks sha256 data} := by
  obtain ⟨stop, -, hemitted⟩ := exists_emitted sha256 data
  refine fun c hc c' hc' heq => List.inj_on_of_nodup_map ?_ hc hc' heq
  rw [hemitted.index]
  exact List.nodup_range

variable (sha256) in
/-- **An edit costs the bytes that it brings and one chunk at most**, if after it both files are cut at
the same place. -/
theorem diffChunks_edit (hx : head ++ x ≠ []) (hy : head ++ y ≠ [])
    (hcut : CutPoint (head ++ x ++ t) (head ++ x).length)
    (hcut' : CutPoint (head ++ y ++ t) (head ++ y).length) :
    let old := splitIntoChunks sha256 (head ++ x ++ t)
    let new := splitIntoChunks sha256 (head ++ y ++ t)
    (∀ i ∈ diffChunks new old, ∃ c ∈ new, c.index = i ∧ head.length ≤ c.offset + c.length ∧
      c.offset + c.length ≤ head.length + y.length) ∧
    ((new.filter fun c => c.index ∈ diffChunks new old).map ChunkInfo.length).sum ≤
      y.length + maxChunk := by
  intro old new
  obtain ⟨cs, more, hchunks, hemitted, hmem⟩ := mem_newChunks_edit sha256 hx hy hcut hcut'
  have hnew : new = cs ++ more := hchunks
  have hbounds : ∀ c ∈ newChunks new old, c ∈ cs ∧ head.length ≤ c.offset + c.length ∧
      c.offset + c.length ≤ head.length + y.length := by
    intro c hc
    obtain ⟨hmore, hhead⟩ := hmem c hc
    have hcs : c ∈ cs := (List.mem_append.mp (hnew ▸ List.mem_of_mem_filter hc)).resolve_right hmore
    have hend := (hemitted.tiles.bounds c.range (List.mem_map_of_mem hcs)).2
    rw [List.length_append] at hend
    exact ⟨hcs, hhead, hend⟩
  have hindex : ∀ c ∈ new, c.index ∈ diffChunks new old → c ∈ newChunks new old := by
    intro c hc hi
    obtain ⟨c', hc', heq⟩ := List.mem_map.mp hi
    rwa [← injOn_index (List.mem_of_mem_filter hc') hc heq]
  refine ⟨fun i hi => ?_, ?_⟩
  · obtain ⟨c, hc, rfl⟩ := List.mem_map.mp hi
    exact ⟨c, List.mem_of_mem_filter hc, rfl, (hbounds c hc).2⟩
  · have hsplit : new.filter (fun c => c.index ∈ diffChunks new old) =
        cs.filter (fun c => c.index ∈ diffChunks new old) := by
      have hnone : more.filter (fun c => c.index ∈ diffChunks new old) = [] := by
        rw [List.filter_eq_nil_iff]
        intro c hc hi
        have hcnew : c ∈ new := hnew ▸ List.mem_append_right cs hc
        exact (hmem c (hindex c hcnew (of_decide_eq_true hi))).1 hc
      rw [hnew] at hnone ⊢
      rw [List.filter_append, hnone, List.append_nil]
    have htiles := hemitted.tiles.sum_filter_le (n := head.length) (m := maxChunk)
      (by rw [List.length_append]; omega) (List.forall_mem_map.mpr hemitted.le_max)
    rw [List.filter_map, List.map_map, List.length_append, Nat.add_sub_cancel_left] at htiles
    refine Nat.le_trans ?_ htiles
    rw [hsplit, sum_map_filter, sum_map_filter]
    refine List.sum_le_sum fun c hc => ?_
    have hcnew : c ∈ new := hnew ▸ List.mem_append_left more hc
    by_cases hi : c.index ∈ diffChunks new old
    · have hhead := (hbounds c (hindex c hcnew hi)).2.1
      rw [if_pos (decide_eq_true hi)]
      exact Nat.le_of_eq (if_pos (decide_eq_true hhead)).symm
    · rw [if_neg (by simpa using hi)]
      exact Nat.zero_le _

end Edits

/-- Files of zeros are cut as often as they can be. -/
theorem cutsAt_zeros {n s o : ℕ} : CutsAt (List.replicate n 0) s o ↔ minChunk ≤ o - s := by
  have hhash : windowHash (List.replicate n 0) s o = 0 := by
    rw [windowHash, List.take_replicate, List.drop_replicate, hashOf_replicate_zero]
  have hzero : ((0 : UInt32) &&& mask == 0) = true := by decide
  have hsizes : minChunk ≤ maxChunk := by decide
  rw [CutsAt, hhash, isBoundary, hzero, Bool.and_true, Bool.or_eq_true, decide_eq_true_eq,
    decide_eq_true_eq]
  omega

theorem cutPoint_zeros {n k : ℕ} (hk : k * minChunk < n) :
    CutPoint (List.replicate n 0) (k * minChunk) := by
  have hmin : 0 < minChunk := by decide
  induction k with
  | zero =>
    rw [Nat.zero_mul]
    exact .start
  | succ k ih =>
    have hsucc : (k + 1) * minChunk = k * minChunk + minChunk := Nat.succ_mul k minChunk
    refine (ih (by omega)).next (by omega) (by rwa [List.length_replicate]) ?_ fun o ho hlt => ?_
    · rw [cutsAt_zeros]
      omega
    · rw [cutsAt_zeros]
      omega

/-- The hash of a chunk of zeros. -/
def zerosSha256 : String := "de2f256064a0af797747c2b97505dc0b9f3df0de4f489eac731c23ae9ca9cc31"

theorem diffChunks_edit_zeros :
    let old := splitIntoChunks (fun _ => zerosSha256) ([] ++ List.replicate minChunk 0 ++ [0])
    let new := splitIntoChunks (fun _ => zerosSha256) ([] ++ List.replicate (2 * minChunk) 0 ++ [0])
    (∀ i ∈ diffChunks new old, ∃ c ∈ new, c.index = i ∧ ([] : Bytes).length ≤ c.offset + c.length ∧
      c.offset + c.length ≤ ([] : Bytes).length + (List.replicate (2 * minChunk) (0 : UInt8)).length) ∧
    ((new.filter fun c => c.index ∈ diffChunks new old).map ChunkInfo.length).sum ≤
      (List.replicate (2 * minChunk) (0 : UInt8)).length + maxChunk := by
  have hne : ∀ k, 0 < k → [] ++ List.replicate (k * minChunk) (0 : UInt8) ≠ [] := by
    intro k hk h
    have hlen := congrArg List.length h
    have hpos : 0 < k * minChunk := Nat.mul_pos hk (by decide)
    rw [List.nil_append, List.length_replicate, List.length_nil] at hlen
    omega
  have hcut : ∀ k, CutPoint ([] ++ List.replicate (k * minChunk) 0 ++ [0])
      ([] ++ List.replicate (k * minChunk) (0 : UInt8)).length := by
    intro k
    rw [List.nil_append, List.length_replicate, ← List.replicate_succ']
    exact cutPoint_zeros (Nat.lt_succ_self _)
  have hone := hne 1 Nat.one_pos
  have hcutOne := hcut 1
  rw [Nat.one_mul] at hone hcutOne
  exact diffChunks_edit (fun _ => zerosSha256) hone (hne 2 Nat.two_pos) hcutOne (hcut 2)

end Pcos
