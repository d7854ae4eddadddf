import Pcos.Foundations.Regroup

/-!
# Foundations/SignedRegroup — the same loop on numbers with a sign

Where the operators on bits take numbers of 32 bits with a sign, the bits that come in at a right
shift are copies of the sign.  The digits are masked, and the buffer is short enough that none of
the copies is in a digit: the loop gives out what `regroup` does (`toBuffer_signedRegroup`).
-/

namespace Foundations.Regroup

/-- `x << k` -/
def shiftLeft (x : BitVec 32) (k : ℕ) : BitVec 32 := x <<< (k % 32)

/-- `x >> k`: the sign comes in. -/
def shiftRight (x : BitVec 32) (k : ℕ) : BitVec 32 := x.sshiftRight (k % 32)

/-- The digits given out, and the buffer with the number of its bits that wait. -/
structure SignedBuffer where
  out : List ℕ
  buf : BitVec 32
  count : ℕ

/-- Give out digits while there are bits for one and room for it. -/
def signedDrain (b : ℕ) (room : List ℕ → Bool) (s : SignedBuffer) : SignedBuffer :=
  if 0 < b ∧ b ≤ s.count ∧ room s.out = true then
    signedDrain b room
      ⟨s.out ++ [(shiftRight s.buf (s.count - b) &&& BitVec.ofNat 32 (2 ^ b - 1)).toNat], s.buf,
        s.count - b⟩
  else s
termination_by s.count
decreasing_by omega

/-- Take in a digit. -/
def signedFeed (a b : ℕ) (room : List ℕ → Bool) (s : SignedBuffer) (d : ℕ) : SignedBuffer :=
  signedDrain b room ⟨s.out, shiftLeft s.buf a ||| BitVec.ofNat 32 d, s.count + a⟩

def signedRegroup (a b : ℕ) (room : List ℕ → Bool) (ds : List ℕ) : SignedBuffer :=
  ds.foldl (signedFeed a b room) ⟨[], 0, 0⟩

/-! ## Bits of a number -/

/-- **Masked bits are bits of the number**, below the sign. -/
theorem toNat_shiftRight_and {x : BitVec 32} {k b : ℕ} (hk : k < 32) (hb : k + b ≤ 32) :
    (shiftRight x k &&& BitVec.ofNat 32 (2 ^ b - 1)).toNat = x.toNat / 2 ^ k % 2 ^ b := by
  refine Nat.eq_of_testBit_eq fun i => ?_
  rw [BitVec.toNat_and, Nat.testBit_and, BitVec.testBit_toNat, BitVec.testBit_toNat, shiftRight,
    Nat.mod_eq_of_lt hk, BitVec.getLsbD_sshiftRight, BitVec.getLsbD_ofNat,
    Nat.testBit_two_pow_sub_one, Nat.testBit_mod_two_pow, Nat.testBit_div_two_pow,
    BitVec.testBit_toNat]
  by_cases hi : i < b
  · rw [if_pos (by omega)]
    simp [hi, show ¬ 32 ≤ i by omega, show i < 32 by omega, Nat.add_comm]
  · simp [hi]

/-- **Bits come in on the right.** -/
theorem toNat_shiftLeft_or {x : BitVec 32} {a d : ℕ} (ha : a < 32) (hd : d < 2 ^ a) :
    (shiftLeft x a ||| BitVec.ofNat 32 d).toNat = (x.toNat * 2 ^ a + d) % 2 ^ 32 := by
  refine Nat.eq_of_testBit_eq fun i => ?_
  rw [BitVec.toNat_or, Nat.testBit_or, BitVec.testBit_toNat, BitVec.testBit_toNat, shiftLeft,
    Nat.mod_eq_of_lt ha, BitVec.getLsbD_shiftLeft, BitVec.getLsbD_ofNat, Nat.testBit_mod_two_pow,
    mul_comm, Nat.two_pow_add_eq_or_of_lt hd, Nat.testBit_or, Nat.testBit_two_pow_mul,
    BitVec.testBit_toNat, Bool.and_or_distrib_left]
  by_cases hi : i < a
  · simp [hi]
  · simp [hi, not_lt.mp hi]

/-! ## The loops -/

def SignedBuffer.toBuffer (s : SignedBuffer) : Buffer := ⟨s.out, s.buf.toNat, s.count⟩

variable {a b : ℕ} {room : List ℕ → Bool}

theorem toBuffer_signedDrain {s : SignedBuffer} (hcount : s.count ≤ 32) :
    (signedDrain b room s).toBuffer = drain b room s.toBuffer := by
  fun_induction signedDrain b room s with
  | case1 s hcond ih =>
    have hdigit : (shiftRight s.buf (s.count - b) &&& BitVec.ofNat 32 (2 ^ b - 1)).toNat = _ :=
      toNat_shiftRight_and (by omega) (by omega)
    have hgive : drain b room s.toBuffer = drain b room
        ⟨s.out ++ [s.buf.toNat / 2 ^ (s.count - b) % 2 ^ b], s.buf.toNat, s.count - b⟩ :=
      (drain.eq_def b room s.toBuffer).trans (if_pos hcond)
    rw [ih (by dsimp only; omega), SignedBuffer.toBuffer, hdigit, hgive]
  | case2 s hcond => exact ((drain.eq_def b room s.toBuffer).trans (if_neg hcond)).symm

/-- **The loop gives out what `regroup` does.** -/
theorem toBuffer_signedRegroup (hb : 0 < b) (hfits : b + a ≤ 33) (ha : a < 32) {ds : List ℕ}
    (hds : ∀ d ∈ ds, d < 2 ^ a)
    (hroom : ∀ out : List ℕ, b * (out.length + 1) ≤ a * ds.length → room out = true) :
    (signedRegroup a b room ds).toBuffer = regroup a b room ds := by
  induction ds using List.reverseRecOn with
  | nil => rfl
  | append_singleton ds d ih =>
    have hds' : ∀ e ∈ ds, e < 2 ^ a := fun e he => hds e (List.mem_append_left _ he)
    have hroom' : ∀ out : List ℕ, b * (out.length + 1) ≤ a * ds.length → room out = true :=
      fun out hout => hroom out (hout.trans (by simp [mul_add]))
    have hsame := ih hds' hroom'
    have hcount := (regroup_spec hb hfits hds' hroom').2
    rw [← hsame] at hcount
    have hd := hds d (List.mem_append_right _ (List.mem_singleton_self d))
    rw [signedRegroup, regroup, List.foldl_concat, List.foldl_concat, ← signedRegroup, ← regroup,
      signedFeed, feed, toBuffer_signedDrain ?_, SignedBuffer.toBuffer, toNat_shiftLeft_or ha hd,
      ← hsame]
    · rfl
    · change (signedRegroup a b room ds).count < b at hcount
      dsimp only
      omega

end Foundations.Regroup
