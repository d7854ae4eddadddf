import Pcos.Edge.Challenge
import Pcos.Foundations.Decimal

/-!
# Edge/TotpAgreement — the edge and the backend compute the same codes

The backend decodes the secret with a buffer, the edge through a string of bits.  Both regroup its
digits into the whole bytes that they write (`decodedKey`), and from there both compute the one-time
password of RFC 6238: `totp_agreement`.
-/

namespace Pcos.Edge.Accounts

open Foundations Regroup Hmac

/-! ## What both should compute -/

/-- A character of the alphabet, in either case. -/
def IsBase32 (c : Char) : Prop := c.toUpper ∈ Auth.base32Alphabet

instance (c : Char) : Decidable (IsBase32 c) := inferInstanceAs (Decidable (_ ∈ _))

/-- Its five bits. -/
def base32Value (c : Char) : ℕ := Auth.base32Alphabet.idxOf c.toUpper

/-- The key that a secret writes (RFC 4648): the whole bytes of its bits. -/
def decodedKey (secret : String) : Bytes :=
  (regrouped 5 8 (secret.toList.map base32Value)).map UInt8.ofNat

/-- A code is a number in six decimal digits. -/
structure SixDigits (code : String) (n : ℕ) : Prop where
  length : code.toList.length = 6
  digits : ∀ c ∈ code.toList, c.isDigit = true
  value : Nat.ofDigitChars 10 code.toList 0 = n

theorem sixDigits_spec {n : ℕ} (hn : n < 10 ^ 6) : SixDigits (Auth.sixDigits n) n :=
  ⟨length_zeroPadded (w := 6) (by decide) hn, fun _ hc => isDigit_of_mem_zeroPadded (w := 6) hc,
    ofDigitChars_zeroPadded 6 n⟩

/-! ## The alphabet -/

theorem alphabet_spec : ∀ u ∈ Auth.base32Alphabet,
    Auth.base32Alphabet.findIdx? (fun b => b.toNat = u.toNat % 256)
      = some (Auth.base32Alphabet.idxOf u) ∧
    Auth.base32Alphabet.idxOf? u = some (Auth.base32Alphabet.idxOf u) ∧
    Auth.base32Alphabet.idxOf u < 2 ^ 5 :=
  forall_mem_of_all (by decide)

theorem ascii_of_mem_alphabet : ∀ u ∈ Auth.base32Alphabet, u.toNat < 128 :=
  forall_mem_of_all (by decide)

variable {c : Char} {cs : List Char}

theorem base32Index_eq (hc : IsBase32 c) : Auth.base32Index c = some (base32Value c) :=
  (alphabet_spec c.toUpper hc).1

theorem base32Value_lt (hc : IsBase32 c) : base32Value c < 2 ^ 5 := (alphabet_spec c.toUpper hc).2.2

/-- Upper case changes ASCII letters only. -/
theorem IsBase32.ascii (hc : IsBase32 c) : c.toNat < 128 := by
  have hupper := ascii_of_mem_alphabet _ hc
  unfold Char.toUpper at hupper
  split at hupper
  · rename_i hlower
    exact Nat.lt_of_le_of_lt (UInt32.le_iff_toNat_le.mp hlower.2) (by decide)
  · exact hupper

theorem digits_lt (hcs : ∀ c ∈ cs, IsBase32 c) : ∀ d ∈ cs.map base32Value, d < 2 ^ 5 := by
  intro d hd
  obtain ⟨c, hc, rfl⟩ := List.mem_map.mp hd
  exact base32Value_lt (hcs c hc)

/-! ## The backend's buffer -/

theorem toNat_ofNat_map {ds : List ℕ} {bytes : Bytes} (h : bytes.map UInt8.toNat = ds) :
    bytes = ds.map UInt8.ofNat := by
  rw [← h, List.map_map]
  exact (List.map_id bytes).symm.trans (List.map_congr_left fun b _ => (UInt8.ofNat_toNat).symm)

/-- **The loop gives out the bytes that the digits write**: the buffer holds, digit by digit. -/
theorem base32DecodeLoop_eq (hcs : ∀ c ∈ cs, IsBase32 c) {ds : List ℕ} {buffer bits : ℕ}
    {result : Bytes} (h : Regroup.Holds 5 8 ds ⟨result.map UInt8.toNat, buffer, bits⟩)
    (hbits : bits < 8) :
    Auth.base32DecodeLoop cs buffer bits result
      = some ((regrouped 5 8 (ds ++ cs.map base32Value)).map UInt8.ofNat) := by
  induction cs generalizing ds buffer bits result with
  | nil =>
    rw [Auth.base32DecodeLoop, List.map_nil, List.append_nil, ← h.out_eq hbits,
      ← toNat_ofNat_map rfl]
  | cons c cs ih =>
    have hc := hcs c List.mem_cons_self
    have htail := fun c' hc' => hcs c' (List.mem_cons_of_mem c hc')
    have htake : Regroup.Holds 5 8 (ds ++ [base32Value c]) _ :=
      h.take (w := 64) (base32Value_lt hc) (by dsimp only; omega)
    rw [Auth.base32DecodeLoop, base32Index_eq hc, List.map_cons, ← List.singleton_append,
      ← List.append_assoc]
    dsimp only
    split
    · rename_i hfull
      refine ih htail ?_ (by omega)
      have hgive := htake.give hfull
      rw [List.map_append, List.map_singleton, UInt8.toNat_ofNat']
      exact hgive
    · exact ih htail htake (by omega)

theorem base32Decode_eq {secret : String} (hsecret : ∀ c ∈ secret.toList, IsBase32 c) :
    Auth.base32Decode secret = some (decodedKey secret) := by
  have hempty : Regroup.Holds 5 8 [] ⟨([] : Bytes).map UInt8.toNat, 0, 0⟩ :=
    ⟨rfl, rfl, List.forall_mem_nil _⟩
  exact base32DecodeLoop_eq hsecret hempty (by decide)

/-! ## The edge's string of bits -/

/-- The bits of a string, as digits. -/
def bitDigits (bits : List Bool) : List ℕ := bits.map Bool.toNat

theorem bitDigits_lt (bits : List Bool) : ∀ d ∈ bitDigits bits, d < 2 ^ 1 := by
  intro d hd
  obtain ⟨b, -, rfl⟩ := List.mem_map.mp hd
  exact Bool.toNat_lt b

theorem base32Bits_eq : ∀ u ∈ Auth.base32Alphabet, (base32Bits u).length = 5 ∧
    value 1 (bitDigits (base32Bits u)) = Auth.base32Alphabet.idxOf u :=
  forall_mem_of_all (by decide)

/-- The bits write the number that the digits do. -/
theorem value_bits {us : List Char} (hus : ∀ u ∈ us, u ∈ Auth.base32Alphabet) :
    (us.flatMap base32Bits).length = 5 * us.length ∧
    value 1 (bitDigits (us.flatMap base32Bits)) = value 5 (us.map fun u =>
      Auth.base32Alphabet.idxOf u) := by
  induction us using List.reverseRecOn with
  | nil => exact ⟨rfl, rfl⟩
  | append_singleton us u ih =>
    obtain ⟨hlength, hvalue⟩ := ih fun v hv => hus v (List.mem_append_left _ hv)
    obtain ⟨hbits, hdigit⟩ := base32Bits_eq u (hus u (List.mem_append_right _
      (List.mem_singleton_self u)))
    rw [List.flatMap_append, List.flatMap_singleton, List.map_append, List.map_singleton,
      value_concat, ← hvalue, ← hdigit]
    constructor
    · rw [List.length_append, List.length_append, hlength, hbits]
      rfl
    · rw [bitDigits, List.map_append, value_append, List.length_map, hbits]
      rfl

/-- Eight bits are a byte. -/
theorem toNat_byte (b₇ b₆ b₅ b₄ b₃ b₂ b₁ b₀ : Bool) :
    (UInt8.ofNat ([b₇, b₆, b₅, b₄, b₃, b₂, b₁, b₀].foldl (fun n b => 2 * n + b.toNat) 0)).toNat
      = value 1 (bitDigits [b₇, b₆, b₅, b₄, b₃, b₂, b₁, b₀]) := by
  revert b₇ b₆ b₅ b₄ b₃ b₂ b₁ b₀
  decide

/-- **Eight bits at a time**: the bytes and the bits left over write what the string writes. -/
theorem holds_bitsToBytes (bits : List Bool) : ∃ rest, Regroup.Holds 1 8 (bitDigits bits)
    ⟨(bitsToBytes bits).map UInt8.toNat, rest, bits.length % 8⟩ := by
  fun_induction bitsToBytes bits with
  | case1 b₇ b₆ b₅ b₄ b₃ b₂ b₁ b₀ bits ih =>
    obtain ⟨rest, hvalue, hlength, hdigits⟩ := ih
    have hcount : (b₇ :: b₆ :: b₅ :: b₄ :: b₃ :: b₂ :: b₁ :: b₀ :: bits).length % 8
        = bits.length % 8 := Nat.add_mod_right bits.length 8
    have hbits : bitDigits (b₇ :: b₆ :: b₅ :: b₄ :: b₃ :: b₂ :: b₁ :: b₀ :: bits)
        = bitDigits [b₇, b₆, b₅, b₄, b₃, b₂, b₁, b₀] ++ bitDigits bits := rfl
    have hoctet : (bitDigits [b₇, b₆, b₅, b₄, b₃, b₂, b₁, b₀]).length = 8 := rfl
    have hbyte := value_lt (bitDigits_lt [b₇, b₆, b₅, b₄, b₃, b₂, b₁, b₀])
    rw [hcount, hbits, List.map_cons, toNat_byte]
    generalize bitDigits [b₇, b₆, b₅, b₄, b₃, b₂, b₁, b₀] = octet at hoctet hbyte
    dsimp only at hvalue hlength
    refine ⟨rest, ?_, ?_, List.forall_mem_cons.mpr ⟨by rwa [hoctet] at hbyte, hdigits⟩⟩
    · rw [value_cons, value_append, ← hvalue, ← hlength, pow_add]
      ring
    · dsimp only
      rw [List.length_cons, List.length_append, hoctet]
      omega
  | case2 bits hshort =>
    have hlength : bits.length < 8 := by
      rcases bits with _ | ⟨b₇, _ | ⟨b₆, _ | ⟨b₅, _ | ⟨b₄, _ | ⟨b₃, _ | ⟨b₂, _ | ⟨b₁, _ | ⟨b₀, bits⟩⟩⟩⟩⟩⟩⟩⟩
      all_goals first | exact (hshort _ _ _ _ _ _ _ _ _ rfl).elim | simp
    have hsmall := value_lt (bitDigits_lt bits)
    have hcount : (bitDigits bits).length = bits.length := List.length_map ..
    rw [hcount, one_mul] at hsmall
    refine ⟨value 1 (bitDigits bits), ?_, ?_, List.forall_mem_nil _⟩
    · dsimp only
      rw [Nat.mod_eq_of_lt hlength, Nat.mod_eq_of_lt hsmall]
      exact (congrArg (· + _) (Nat.zero_mul _)).trans (Nat.zero_add _)
    · dsimp only
      rw [Nat.mod_eq_of_lt hlength, hcount, one_mul]
      exact Nat.zero_add _

theorem bitsToBytes_eq (bits : List Bool) :
    bitsToBytes bits = (regrouped 1 8 (bitDigits bits)).map UInt8.ofNat := by
  obtain ⟨rest, h⟩ := holds_bitsToBytes bits
  exact toNat_ofNat_map (h.out_eq (Nat.mod_lt _ (by decide)))

variable (p : Platform)

/-- What JavaScript's `toUpperCase` does to texts in ASCII. -/
def UppersAscii : Prop :=
  ∀ s : String, (∀ c ∈ s.toList, c.toNat < 128) →
    p.toUpperCase s = String.ofList (s.toList.map Char.toUpper)

variable {p}

theorem base32ToBytes_eq (hupper : UppersAscii p) {secret : String}
    (hsecret : ∀ c ∈ secret.toList, IsBase32 c) : base32ToBytes p secret = decodedKey secret := by
  have hus : ∀ u ∈ secret.toList.map Char.toUpper, u ∈ Auth.base32Alphabet := by
    intro u hu
    obtain ⟨c, hc, rfl⟩ := List.mem_map.mp hu
    exact hsecret c hc
  obtain ⟨hlength, hvalue⟩ := value_bits hus
  rw [base32ToBytes, hupper secret fun c hc => (hsecret c hc).ascii, String.toList_ofList,
    bitsToBytes_eq, decodedKey, regrouped, regrouped, hvalue, bitDigits, List.length_map, hlength,
    one_mul, List.length_map, List.length_map, List.map_map]
  rfl

/-! ## From the key to the code -/

/-- Two letters are a byte. -/
theorem decodedKey_ne_nil {secret : String} (htwo : 2 ≤ secret.toList.length) :
    decodedKey secret ≠ [] := by
  intro h
  have hlength := congrArg List.length h
  rw [decodedKey, List.length_map, regrouped, length_digits, List.length_map, List.length_nil]
    at hlength
  omega

theorem beBytes_eq (n : ℕ) : Auth.beBytes n = bigEndian 8 n := by
  simp only [Auth.beBytes, bigEndian, digits, List.range, List.range.loop, List.map_cons, List.map_nil,
    List.nil_append, List.cons_append, List.cons.injEq, and_true]
  refine ⟨?_, ?_, ?_, ?_, ?_, ?_, ?_, ?_⟩ <;> exact ofNat_congr (by omega)

theorem uint32_eq (n : ℕ) : uint32 n = bigEndian 4 n := by
  have hword : ((n : ℤ) % 2 ^ 32).toNat = n % 2 ^ 32 := by omega
  simp only [uint32, hword, bigEndian, digits, List.map_cons, List.map_nil, List.nil_append,
    List.cons_append, List.cons.injEq, and_true, Nat.shiftRight_eq_div_pow]
  refine ⟨?_, ?_, ?_, ?_⟩ <;> exact ofNat_congr (by omega)

/-- **Two words are a counter.** -/
theorem counter_eq (n : ℕ) : uint32 ((n : ℤ) / 2 ^ 32) ++ uint32 n = bigEndian 8 n := by
  have hhigh : (n : ℤ) / 2 ^ 32 = ((n / 2 ^ 32 : ℕ) : ℤ) := by push_cast; rfl
  rw [hhigh, uint32_eq, uint32_eq, bigEndian, bigEndian, bigEndian, digits_add 8 4 4, List.map_append]

/-- The last byte of a MAC of SHA-1. -/
theorem getLast_eq_getD {mac : Bytes} (hlength : mac.length = 20) :
    mac.getLast?.getD 0 = mac.getD 19 0 := by
  rw [List.getLast?_eq_getElem?, hlength, List.getD_eq_getElem?_getD]

theorem code_eq {mac : Bytes} (hlength : mac.length = 20) :
    ((mac.getD ((mac.getD 19 0).toNat % 16 + 0) 0).toNat % 128 * 2 ^ 24
      + (mac.getD ((mac.getD 19 0).toNat % 16 + 1) 0).toNat * 2 ^ 16
      + (mac.getD ((mac.getD 19 0).toNat % 16 + 2) 0).toNat * 2 ^ 8
      + (mac.getD ((mac.getD 19 0).toNat % 16 + 3) 0).toNat) % 1000000
      = truncated mac % 10 ^ 6 := by
  rw [truncated_eq (by rw [getLast_eq_getD hlength]) (by omega)]
  rfl

/-- **The edge and the backend compute the same code**, and it is that of RFC 6238: of the key that
the secret writes and the eight bytes of the step. -/
theorem totp_agreement (hsha : ∀ data, (p.sha1 data).length = 20) (hupper : UppersAscii p)
    {secret : String} (hsecret : ∀ c ∈ secret.toList, IsBase32 c)
    (htwo : 2 ≤ secret.toList.length) {step : ℕ} (_hstep : step < 2 ^ 53) :
    ∃ code, Auth.computeTotp p.sha1 secret step = some code ∧ computeTotp p secret step = some code ∧
      SixDigits code (hotp p.sha1 (decodedKey secret) step) := by
  have hmac : (hmac p.sha1 64 (decodedKey secret) (bigEndian 8 step)).length = 20 := hsha _
  refine ⟨Auth.sixDigits (hotp p.sha1 (decodedKey secret) step), ?_, ?_,
    sixDigits_spec (Nat.mod_lt _ (by decide))⟩
  · rw [Auth.computeTotp, base32Decode_eq hsecret, Option.map_some, beBytes_eq]
    exact congrArg (fun n => some (Auth.sixDigits n)) (code_eq hmac)
  · rw [computeTotp, base32ToBytes_eq hupper hsecret, if_neg (decodedKey_ne_nil htwo), counter_eq]
    dsimp only
    rw [getLast_eq_getD hmac]
    exact congrArg (fun n => some (Auth.sixDigits n)) (code_eq hmac)

namespace Noon

/-- SHA-1 of what the code below hashes: the message ends in a 1, the inner digest does not. -/
def sha1 (data : Bytes) : Bytes :=
  if data.getLast? = some 1 then
    [174, 57, 138, 210, 229, 57, 214, 92, 93, 162, 218, 156, 138, 97, 52, 65, 151, 57, 58, 140]
  else [117, 164, 138, 25, 212, 203, 225, 0, 100, 78, 138, 193, 57, 126, 234, 116, 122, 45, 51, 171]

end Noon

/-- The second of the test vectors of RFC 6238, in lower case. -/
theorem totp_agreement_secondStep :
    Auth.computeTotp Noon.sha1 "gezdgnbvgy3tqojqgezdgnbvgy3tqojq" 1 = some "287082" ∧
    ∃ code, Auth.computeTotp Noon.sha1 "gezdgnbvgy3tqojqgezdgnbvgy3tqojq" 1 = some code ∧
      computeTotp { Noon.platform with sha1 := Noon.sha1 } "gezdgnbvgy3tqojqgezdgnbvgy3tqojq" 1
        = some code ∧
      SixDigits code (hotp Noon.sha1 (decodedKey "gezdgnbvgy3tqojqgezdgnbvgy3tqojq") 1) :=
  ⟨by decide, totp_agreement (p := { Noon.platform with sha1 := Noon.sha1 })
    (fun data => by dsimp only [Noon.sha1]; split <;> rfl) (fun _ _ => rfl)
    (forall_mem_of_all (by decide)) (by decide) (by decide)⟩

end Pcos.Edge.Accounts
