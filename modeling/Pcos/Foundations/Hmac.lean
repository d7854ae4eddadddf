import Mathlib.Logic.Function.Iterate
import Pcos.Foundations.Digest
import Pcos.Foundations.Regroup

/-!
# Foundations/Hmac — HMAC, and what is derived with it

`hmac` is that of RFC 2104, over any hash; `hotp` the one-time password of RFC 4226 and `pbkdf2` the
key of RFC 8018.  The programs that derive these in loops of their own are compared with them.
-/

namespace Foundations.Hmac

open Regroup

/-! ## HMAC -/

section Hash

variable (hash : Bytes → Bytes) (blockSize : ℕ)

/-- The block that a key is filled up to; a longer key is hashed. -/
def keyBlock (key : Bytes) : Bytes :=
  let k := if blockSize < key.length then hash key else key
  k ++ List.replicate (blockSize - k.length) 0

def hmac (key message : Bytes) : Bytes :=
  hash ((keyBlock hash blockSize key).map (· ^^^ 0x5c) ++
    hash ((keyBlock hash blockSize key).map (· ^^^ 0x36) ++ message))

end Hash

/-! ## One-time passwords -/

theorem ofNat_congr {m n : ℕ} (h : m % 256 = n % 256) : UInt8.ofNat m = UInt8.ofNat n :=
  UInt8.toNat_inj.mp (by rw [UInt8.toNat_ofNat', UInt8.toNat_ofNat']; exact h)

/-- The last `k` bytes of a number, the high byte first. -/
def bigEndian (k n : ℕ) : Bytes := (digits 8 k n).map UInt8.ofNat

@[simp] theorem length_bigEndian (k n : ℕ) : (bigEndian k n).length = k := by
  rw [bigEndian, List.length_map, length_digits]

/-- The number that bytes write. -/
def number (bytes : Bytes) : ℕ := value 8 (bytes.map UInt8.toNat)

/-- Dynamic truncation: 31 bits, from where the last four bits say. -/
def truncated (mac : Bytes) : ℕ :=
  number ((mac.drop ((mac.getLast?.getD 0).toNat % 16)).take 4) % 2 ^ 31

/-- The one-time password of a counter, of six digits. -/
def hotp (hash : Bytes → Bytes) (key : Bytes) (counter : ℕ) : ℕ :=
  truncated (hmac hash 64 key (bigEndian 8 counter)) % 10 ^ 6

/-- **Truncation, byte by byte.** -/
theorem truncated_eq {mac : Bytes} {offset : ℕ}
    (hoffset : (mac.getLast?.getD 0).toNat % 16 = offset) (hlength : offset + 4 ≤ mac.length) :
    truncated mac = (mac.getD offset 0).toNat % 128 * 2 ^ 24 + (mac.getD (offset + 1) 0).toNat * 2 ^ 16
      + (mac.getD (offset + 2) 0).toNat * 2 ^ 8 + (mac.getD (offset + 3) 0).toNat := by
  have hget (i : ℕ) : mac.getD (offset + i) 0 = (mac.drop offset).getD i 0 := by
    simp [List.getD_eq_getElem?_getD, List.getElem?_drop]
  have hdrop : 4 ≤ (mac.drop offset).length := by
    rw [List.length_drop]
    omega
  rw [truncated, hoffset, ← add_zero offset, hget, add_zero, hget, hget, hget]
  match mac.drop offset, hdrop with
  | a :: b :: c :: d :: rest, _ =>
    have ha := a.toNat_lt
    have hb := b.toNat_lt
    have hc := c.toNat_lt
    have hd := d.toNat_lt
    simp only [List.take_succ_cons, List.take_zero, number, value, List.map_cons, List.map_nil,
      List.foldl_cons, List.foldl_nil, List.getD_cons_zero, List.getD_cons_succ]
    omega

/-! ## Derived keys -/

section Derive

variable (prf : Bytes → Bytes)

/-- `U₁ ⊕ … ⊕ Uⱼ₊₁`, of `U₁`. -/
def xorred (u : Bytes) : ℕ → Bytes
  | 0 => u
  | j + 1 => List.zipWith (· ^^^ ·) (xorred u j) (prf^[j + 1] u)

/-- The block of an index. -/
def block (salt : Bytes) (iterations index : ℕ) : Bytes :=
  xorred prf (prf (salt ++ bigEndian 4 index)) (iterations - 1)

/-- The key of a length, from blocks of `width` bytes. -/
def pbkdf2 (width : ℕ) (salt : Bytes) (iterations length : ℕ) : Bytes :=
  ((List.range (length / width + 1)).flatMap fun i => block prf salt iterations (i + 1)).take length

variable {prf} {width : ℕ} (hwidth : ∀ data, (prf data).length = width)
include hwidth

theorem length_xorred {u : Bytes} (hu : u.length = width) (j : ℕ) :
    (xorred prf u j).length = width := by
  induction j with
  | zero => exact hu
  | succ j ih =>
    rw [xorred, List.length_zipWith, ih, Function.iterate_succ_apply', hwidth, min_self]

theorem length_block (salt : Bytes) (iterations index : ℕ) :
    (block prf salt iterations index).length = width :=
  length_xorred hwidth (hwidth _) _

theorem length_pbkdf2 (hpos : 0 < width) (salt : Bytes) (iterations length : ℕ) :
    (pbkdf2 prf width salt iterations length).length = length := by
  have hblocks : ((List.range (length / width + 1)).flatMap fun i =>
      block prf salt iterations (i + 1)).length = (length / width + 1) * width := by
    rw [List.length_flatMap]
    simp only [length_block hwidth, List.map_const', List.sum_replicate_nat, List.length_range]
  rw [pbkdf2, List.length_take, hblocks, min_eq_left]
  have hdiv := Nat.div_add_mod length width
  have hmod := Nat.mod_lt length hpos
  calc length = width * (length / width) + length % width := hdiv.symm
    _ ≤ width * (length / width) + width := by omega
    _ = (length / width + 1) * width := by ring

end Derive

/-- An index is four bytes of it. -/
theorem bigEndian_mod (k n : ℕ) : bigEndian k (n % 2 ^ (8 * k)) = bigEndian k n := by
  rw [bigEndian, bigEndian, digits_mod]

/-! ## Comparison in constant time -/

/-- The bits in which two texts differ anywhere. -/
def difference (a b : Bytes) : UInt8 := (List.zipWith (· ^^^ ·) a b).foldl (· ||| ·) 0

theorem foldl_or_eq_zero (l : Bytes) (acc : UInt8) :
    l.foldl (· ||| ·) acc = 0 ↔ acc = 0 ∧ ∀ x ∈ l, x = 0 := by
  induction l generalizing acc with
  | nil => simp
  | cons x l ih => rw [List.foldl_cons, ih, UInt8.or_eq_zero_iff, List.forall_mem_cons, and_assoc]

/-- **Texts of one length differ nowhere if they are the same.** -/
theorem difference_eq_zero_iff {a b : Bytes} (hlength : a.length = b.length) :
    difference a b = 0 ↔ a = b := by
  rw [difference, foldl_or_eq_zero, and_iff_right rfl]
  induction a generalizing b with
  | nil => simp [List.length_eq_zero_iff.mp hlength.symm]
  | cons x a ih =>
    cases b with
    | nil => cases hlength
    | cons y b =>
      rw [List.zipWith_cons_cons, List.forall_mem_cons, UInt8.xor_eq_zero_iff,
        ih (Nat.succ.inj hlength), List.cons.injEq]

end Foundations.Hmac
