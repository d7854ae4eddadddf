import Pcos.Agent.ChunkWrites
import Pcos.Edge.NodeReads
import Pcos.Foundations.Tiling

/-!
# Agent/ChunkRoundTrip — a file written in chunks, and read back in chunks (`fs_handler.rs`)

    pieces ──base64_encode──▸ fs_write_chunk ──▸ file ──fs_read_chunk──▸ pieces, until eof

The pieces of a tiling come in any order and as often as they like: once each has come, the file is
what was tiled (`writeChunks_eq`).  A read gives at least one byte while bytes remain, so reading on
from where the last read ended comes to the end, with all of the file (`readLoop_eq`).
-/

namespace Pcos.Agent

open Foundations Edge.Files

/-! ## Encoding -/

/-- `data.chunks(3)` -/
def chunksOfThree : Bytes → List Bytes
  | a :: b :: c :: rest => [a, b, c] :: chunksOfThree rest
  | [] => []
  | rest => [rest]

/-- The four characters of a chunk. -/
def encodeChunk (chunk : Bytes) : List Char :=
  let b0 := (chunk.getD 0 0).toNat
  let b1 := (chunk.getD 1 0).toNat
  let b2 := (chunk.getD 2 0).toNat
  let n := b0 <<< 16 ||| b1 <<< 8 ||| b2
  [Base64.digit (n >>> 18 &&& 63), Base64.digit (n >>> 12 &&& 63),
    if 1 < chunk.length then Base64.digit (n >>> 6 &&& 63) else '=',
    if 2 < chunk.length then Base64.digit (n &&& 63) else '=']

def base64Encode (data : Bytes) : String := String.ofList ((chunksOfThree data).flatMap encodeChunk)

section Encode

theorem or_eq_add (a b c : UInt8) :
    a.toNat <<< 16 ||| b.toNat <<< 8 ||| c.toNat = a.toNat * 65536 + b.toNat * 256 + c.toNat := by
  have hb := b.toNat_lt
  have hc := c.toNat_lt
  have hlow : b.toNat <<< 8 < 2 ^ 16 := by
    rw [Nat.shiftLeft_eq]
    omega
  have hab : a.toNat <<< 16 ||| b.toNat <<< 8 = (a.toNat * 256 + b.toNat) <<< 8 := by
    rw [← Nat.shiftLeft_add_eq_or_of_lt hlow, Nat.shiftLeft_eq, Nat.shiftLeft_eq, Nat.shiftLeft_eq]
    omega
  rw [hab, ← Nat.shiftLeft_add_eq_or_of_lt hc, Nat.shiftLeft_eq]
  omega

theorem and_63 (n : ℕ) : n &&& 63 = n % 64 := Nat.and_two_pow_sub_one_eq_mod n 6

/-- The four numbers of a chunk, and the two digits that may be missing. -/
theorem encodeChunk_eq (chunk : Bytes) {a b c : UInt8} (ha : chunk.getD 0 0 = a)
    (hb : chunk.getD 1 0 = b) (hc : chunk.getD 2 0 = c) :
    encodeChunk chunk = [Base64.digit (a.toNat / 4), Base64.digit (a.toNat % 4 * 16 + b.toNat / 16),
      if 1 < chunk.length then Base64.digit (b.toNat % 16 * 4 + c.toNat / 64) else '=',
      if 2 < chunk.length then Base64.digit (c.toNat % 64) else '='] := by
  have hbyte := b.toNat_lt
  have hbyte' := c.toNat_lt
  have hbyte'' := a.toNat_lt
  have h1 : (a.toNat * 65536 + b.toNat * 256 + c.toNat) / 2 ^ 18 % 64 = a.toNat / 4 := by omega
  have h2 : (a.toNat * 65536 + b.toNat * 256 + c.toNat) / 2 ^ 12 % 64
      = a.toNat % 4 * 16 + b.toNat / 16 := by omega
  have h3 : (a.toNat * 65536 + b.toNat * 256 + c.toNat) / 2 ^ 6 % 64
      = b.toNat % 16 * 4 + c.toNat / 64 := by omega
  have h4 : (a.toNat * 65536 + b.toNat * 256 + c.toNat) % 64 = c.toNat % 64 := by omega
  simp only [encodeChunk, ha, hb, hc, or_eq_add, and_63, Nat.shiftRight_eq_div_pow, h1, h2, h3, h4]

theorem encodeChars_eq (data : Bytes) :
    (chunksOfThree data).flatMap encodeChunk = Base64.encodeChars data := by
  fun_induction Base64.encodeChars data with
  | case1 a b c rest ih =>
    rw [chunksOfThree, List.flatMap_cons, ih, encodeChunk_eq [a, b, c] rfl rfl rfl]
    rfl
  | case2 a b =>
    have hone : chunksOfThree [a, b] = [[a, b]] := rfl
    rw [hone, List.flatMap_singleton, encodeChunk_eq [a, b] (a := a) (b := b) (c := 0) rfl rfl rfl]
    simp
  | case3 a =>
    have hone : chunksOfThree [a] = [[a]] := rfl
    rw [hone, List.flatMap_singleton, encodeChunk_eq [a] (a := a) (b := 0) (c := 0) rfl rfl rfl]
    simp
  | case4 => rfl

/-- **The agent encodes as the standard says.** -/
theorem base64Encode_eq (data : Bytes) : base64Encode data = Base64.encode data := by
  rw [base64Encode, encodeChars_eq, Base64.encode]

end Encode

/-! ## Writing -/

structure WriteChunkResult where
  relativePath : String
  offset : ℕ
  bytesWritten : ℕ
  totalSize : ℕ
  deriving DecidableEq

/-- `fs_write_chunk`, at the file that `safe_resolve` finds; `none` is a refusal for what was sent. -/
def fsWriteChunk (relPath : String) (file : Option Bytes) (offset : Option ℤ)
    (dataBase64 : Option String) : Option WriteChunkResult × Option Bytes :=
  let offset := (asU64 offset).getD 0
  match base64Decode (dataBase64.getD "") with
  | none => (none, file)
  | some bytes =>
    let file' := writeChunk file offset bytes .done
    (some ⟨relPath, offset, bytes.length, (file'.getD []).length⟩, file')

/-- A piece of `d`, sent as it is. -/
def sendPiece (relPath : String) (d : Bytes) (file : Option Bytes) (piece : ℕ × ℕ) : Option Bytes :=
  (fsWriteChunk relPath file (some piece.1) (some (base64Encode (slice d piece)))).2

/-- The pieces are sent one after the other. -/
def sendPieces (relPath : String) (d : Bytes) (file : Option Bytes) (pieces : List (ℕ × ℕ)) :
    Option Bytes := pieces.foldl (sendPiece relPath d) file

/-! ## Reading -/

/-- `fs_read_chunk` of a file that may not be there. -/
def fsReadFile (relPath : String) (file : Option Bytes) (bytesRead : ℕ) (offset length : Option ℤ) :
    Option ReadChunkResult := file.map fun file => fsReadChunk relPath file bytesRead offset length

/-- The `n`th read: how much is asked for, and how much the system hands out at most. -/
structure Reads where
  lengths : ℕ → ℤ
  bytesRead : ℕ → ℕ
  lengths_pos : ∀ n, 1 ≤ lengths n
  bytesRead_pos : ∀ n, 1 ≤ bytesRead n

/-- Reading on until `eof`, from the `n`th read on; `none` if that is not within so many reads, or a
read fails. -/
def readLoop (relPath : String) (file : Option Bytes) (reads : Reads) :
    ℕ → ℕ → ℕ → Option Bytes
  | 0, _, _ => none
  | fuel + 1, n, offset => do
    let result ← fsReadFile relPath file (reads.bytesRead n) (some offset) (some (reads.lengths n))
    let data ← base64Decode result.dataBase64
    if result.eof then some data
    else (readLoop relPath file reads fuel (n + 1) (offset + result.length)).map (data ++ ·)

/-! ## What is written -/

section Write

variable {relPath : String} {d : Bytes} {pieces tiling : List (ℕ × ℕ)}

theorem asU64_natCast {n : ℕ} (h : n < 2 ^ 64) : asU64 (some (n : ℤ)) = some n := by
  have hrange : 0 ≤ (n : ℤ) ∧ (n : ℤ) < 2 ^ 64 := ⟨Int.natCast_nonneg n, by exact_mod_cast h⟩
  rw [asU64, Option.bind_some, if_pos hrange, Int.toNat_natCast]

/-- A piece is written where it belongs. -/
theorem sendPiece_eq (file : Option Bytes) {piece : ℕ × ℕ} (h : piece.1 < 2 ^ 64) :
    sendPiece relPath d file piece = some (writeAt 0 (file.getD []) piece.1 (slice d piece)) := by
  simp only [sendPiece, fsWriteChunk, Option.getD_some, base64Encode_eq, base64Decode_encode,
    asU64_natCast h]
  rfl

theorem piece_slice (d : Bytes) (piece : ℕ × ℕ) : Piece d (piece.1, slice d piece) := by
  intro i hi
  have hlen : i < piece.2 := by
    dsimp only [slice] at hi
    rw [List.length_take] at hi
    omega
  dsimp only [slice]
  rw [List.getElem?_take_of_lt hlen, List.getElem?_drop]

theorem sendPieces_cons (file : Option Bytes) (piece : ℕ × ℕ) :
    sendPieces relPath d file (piece :: pieces)
      = sendPieces relPath d (sendPiece relPath d file piece) pieces := List.foldl_cons ..

/-- **Pieces that come in any order leave a file that shows what came**, and is no longer than what
they are pieces of. -/
theorem shows_sendPieces (hsmall : ∀ piece ∈ pieces, piece.1 < 2 ^ 64) {file : Option Bytes}
    {sent : List (ℕ × Bytes)} (hshows : Shows d sent (file.getD []))
    (hlength : (file.getD []).length ≤ d.length) :
    Shows d ((pieces.map fun piece => (piece.1, slice d piece)).reverse ++ sent)
        ((sendPieces relPath d file pieces).getD [])
      ∧ ((sendPieces relPath d file pieces).getD []).length ≤ d.length := by
  induction pieces generalizing file sent with
  | nil => exact ⟨hshows, hlength⟩
  | cons piece pieces ih =>
    rw [sendPieces_cons, sendPiece_eq file (hsmall piece List.mem_cons_self), List.map_cons,
      List.reverse_cons, List.append_assoc]
    refine ih (fun p hp => hsmall p (List.mem_cons_of_mem _ hp)) ?_ ?_
    · exact hshows.write (piece_slice d piece)
    · exact (piece_slice d piece).length_writeAt_le hlength

/-- The file is there once a piece has come. -/
theorem isSome_sendPieces (hsmall : ∀ piece ∈ pieces, piece.1 < 2 ^ 64) {file : Option Bytes}
    (h : file.isSome ∨ pieces ≠ []) : (sendPieces relPath d file pieces).isSome := by
  induction pieces generalizing file with
  | nil => exact h.resolve_right (not_not.mpr rfl)
  | cons piece pieces ih =>
    rw [sendPieces_cons, sendPiece_eq file (hsmall piece List.mem_cons_self)]
    exact ih (fun p hp => hsmall p (List.mem_cons_of_mem _ hp)) (.inl rfl)

/-- **Once every piece of a tiling has come, the file is what was tiled.** -/
theorem sendPieces_eq (hd : d ≠ []) (hsize : d.length < 2 ^ 64) (htiles : Tiles 0 d.length tiling)
    (hpieces : ∀ piece, piece ∈ pieces ↔ piece ∈ tiling) :
    sendPieces relPath d none pieces = some d := by
  have hcover (p : ℕ) (hp : p < d.length) := htiles.exists_mem (Nat.zero_le p) hp
  have hsmall : ∀ piece ∈ pieces, piece.1 < 2 ^ 64 := by
    intro piece hpiece
    have hin := (hpieces piece).mp hpiece
    have hpos := htiles.pos piece hin
    have hend := (htiles.bounds piece hin).2
    omega
  have hshows := @shows_sendPieces relPath d pieces hsmall none [] shows_nil (Nat.zero_le _)
  have hsome : (sendPieces relPath d none pieces).isSome := by
    refine isSome_sendPieces hsmall (.inr ?_)
    rintro rfl
    obtain ⟨piece, hpiece, -⟩ := hcover 0 (List.length_pos_iff.mpr hd)
    exact absurd ((hpieces piece).mpr hpiece) List.not_mem_nil
  obtain ⟨file, hfile⟩ := Option.isSome_iff_exists.mp hsome
  rw [hfile] at hshows ⊢
  refine congrArg some (hshows.1.eq_content hshows.2 fun p hp => ?_)
  obtain ⟨piece, hpiece, hstart, hstop⟩ := hcover p hp
  refine ⟨(piece.1, slice d piece), ?_, hstart, ?_⟩
  · rw [List.append_nil, List.mem_reverse]
    exact List.mem_map_of_mem ((hpieces piece).mpr hpiece)
  · dsimp only [slice]
    rw [List.length_take, List.length_drop]
    omega

end Write

/-! ## What is read -/

section Read

variable {relPath : String} {d : Bytes} {reads : Reads}

/-- One read, from where bytes remain. -/
theorem fsReadFile_eq (relPath : String) (d : Bytes) (reads : Reads) (n : ℕ) {offset : ℕ}
    (hsize : d.length < 2 ^ 64) (hoffset : offset < d.length) :
    ∃ k, 0 < k ∧ fsReadFile relPath (some d) (reads.bytesRead n) (some offset)
        (some (reads.lengths n)) = some ⟨relPath, offset, ((d.drop offset).take k).length, d.length,
          decide (d.length ≤ offset + ((d.drop offset).take k).length),
          Base64.encode ((d.drop offset).take k)⟩ := by
  have hlength : 1 ≤ (asU64 (some (reads.lengths n))).getD (256 * 1024) := by
    have hpos := reads.lengths_pos n
    rw [asU64, Option.bind_some]
    split
    · rw [Option.getD_some]
      omega
    · decide
  have hbytes := reads.bytesRead_pos n
  have hcap : 1 ≤ twoMiB := by decide
  refine ⟨min (reads.bytesRead n) (min (min ((asU64 (some (reads.lengths n))).getD (256 * 1024))
    twoMiB) (d.length - offset)), by omega, ?_⟩
  rw [fsReadFile, Option.map_some, fsReadChunk, asU64_natCast (by omega), Option.getD_some, readChunk,
    if_neg (by omega)]
  rfl

/-- **Reading on gives what remains**, if there are as many reads as bytes. -/
theorem readLoop_eq (hsize : d.length < 2 ^ 64) {fuel n offset : ℕ} (hoffset : offset < d.length)
    (hfuel : d.length ≤ offset + fuel) :
    readLoop relPath (some d) reads fuel n offset = some (d.drop offset) := by
  induction fuel generalizing n offset with
  | zero => omega
  | succ fuel ih =>
    obtain ⟨k, hk, hread⟩ := fsReadFile_eq relPath d reads n hsize hoffset
    have hlength : ((d.drop offset).take k).length = min k (d.length - offset) := by
      rw [List.length_take, List.length_drop]
    simp only [readLoop, hread, Option.bind_eq_bind, Option.bind_some, base64Decode_encode]
    split
    · rename_i heof
      have hall : d.length ≤ offset + ((d.drop offset).take k).length := of_decide_eq_true heof
      rw [List.take_of_length_le]
      rw [List.length_drop]
      omega
    · rename_i heof
      have hmore : ¬ d.length ≤ offset + ((d.drop offset).take k).length := fun h =>
        heof (decide_eq_true h)
      have hshort : min k (d.length - offset) = k := by omega
      rw [ih (by omega) (by omega), Option.map_some, hlength, hshort, ← List.drop_drop,
        List.take_append_drop]

end Read

/-- **What is written in chunks is read in chunks**: the pieces of any tiling, in any order and
repeated, make a file that reading on until `eof` gives back, whatever is asked for in each read. -/
theorem readLoop_sendPieces (relPath : String) {d : Bytes} (hd : d ≠ []) (hsize : d.length < 2 ^ 64)
    {tiling pieces : List (ℕ × ℕ)} (htiles : Tiles 0 d.length tiling)
    (hpieces : ∀ piece, piece ∈ pieces ↔ piece ∈ tiling) (reads : Reads) {fuel : ℕ}
    (hfuel : d.length ≤ fuel) :
    readLoop relPath (sendPieces relPath d none pieces) reads fuel 0 0 = some d := by
  rw [sendPieces_eq hd hsize htiles hpieces]
  exact readLoop_eq hsize (List.length_pos_iff.mpr hd) (by omega)

/-- Byte after byte, though more is asked for. -/
def oneByOne : Reads := ⟨fun _ => 5, fun _ => 1, fun _ => by decide, fun _ => Nat.le_refl 1⟩

/-- The last two bytes first, and then again. -/
theorem readLoop_sendPieces_backwards :
    sendPieces "a" [1, 2, 3] none [(1, 2), (0, 1), (1, 2)] = some [1, 2, 3]
      ∧ readLoop "a" (sendPieces "a" [1, 2, 3] none [(1, 2), (0, 1), (1, 2)]) oneByOne 3 0 0
        = some [1, 2, 3] := by
  have htiles : Tiles 0 ([1, 2, 3] : Bytes).length [(0, 1), (1, 2)] :=
    ⟨rfl, by decide, rfl, by decide, rfl⟩
  have hpieces (piece : ℕ × ℕ) : piece ∈ [(1, 2), (0, 1), (1, 2)] ↔ piece ∈ [(0, 1), (1, 2)] := by
    simp only [List.mem_cons, List.not_mem_nil, or_false]
    tauto
  exact ⟨by decide,
    readLoop_sendPieces "a" (by decide) (by decide) htiles hpieces oneByOne (Nat.le_refl 3)⟩

end Pcos.Agent
