import Pcos.Edge.TotpAgreement

/-!
# Backend/TotpSecrets — writing a secret in base32 (`auth/src/mfa.rs`)

Encoder and decoder run over one buffer of 64 bits that is never cut down: what has been given out
goes on moving up in it, until it falls out at the top.  What waits is in the low bits, and it is all
that both read (`Regroup.Holds`).
-/

namespace Pcos.Auth

open Foundations Regroup Edge.Accounts

/-! ## The encoder -/

def base32Letter (n : ℕ) : Char := base32Alphabet.getD n 'A'

/-- The inner loop of `base32_encode`: letters are given out while there are bits for one. -/
def base32Give (buffer bits : ℕ) (result : List Char) : List Char × ℕ :=
  if 5 ≤ bits then
    base32Give buffer (bits - 5) (result ++ [base32Letter (buffer / 2 ^ (bits - 5) % 32)])
  else (result, bits)
termination_by bits

/-- The loop over the bytes, and the letter after it. -/
def base32EncodeLoop : Bytes → ℕ → ℕ → List Char → List Char
  | [], buffer, bits, result =>
    if 0 < bits then result ++ [base32Letter (buffer * 2 ^ (5 - bits) % 2 ^ 64 % 32)] else result
  | byte :: data, buffer, bits, result =>
    let buffer := (buffer * 256 + byte.toNat) % 2 ^ 64
    let given := base32Give buffer (bits + 8) result
    base32EncodeLoop data buffer given.2 given.1

def base32Encode (data : Bytes) : String := String.ofList (base32EncodeLoop data 0 0 [])

/-! ## What it writes -/

/-- The encoding of RFC 4648 without padding: the bits of the data, filled up with zeros to whole
letters. -/
def base32Rfc (data : Bytes) : List Char := (padded 8 5 (data.map UInt8.toNat)).map base32Letter

theorem base32Give_eq (room : List ℕ → Bool) (hroom : ∀ out, room out = true) (s : Buffer) :
    base32Give s.buf s.count (s.out.map base32Letter) =
      ((drain 5 room s).out.map base32Letter, (drain 5 room s).count)
    ∧ (drain 5 room s).buf = s.buf := by
  fun_induction drain 5 room s with
  | case1 s hcond ih =>
    rw [base32Give, if_pos hcond.2.1]
    simpa using ih
  | case2 s hcond =>
    rw [base32Give, if_neg fun hbits => hcond ⟨by decide, hbits, hroom s.out⟩]
    exact ⟨rfl, rfl⟩

/-- The low five bits of the buffer, moved up, are those that wait. -/
theorem last_letter {buffer bits : ℕ} (hbits : bits < 5) :
    buffer * 2 ^ (5 - bits) % 2 ^ 64 % 32 = buffer % 2 ^ bits * 2 ^ (5 - bits) := by
  obtain rfl | rfl | rfl | rfl | rfl : bits = 0 ∨ bits = 1 ∨ bits = 2 ∨ bits = 3 ∨ bits = 4 := by
    omega
  all_goals omega

/-- **The loop gives out the letters of the data**: the buffer holds, byte by byte. -/
theorem base32EncodeLoop_eq (data : Bytes) {ds : List ℕ} {s : Buffer} (h : Regroup.Holds 8 5 ds s)
    (hcount : s.count < 5) :
    base32EncodeLoop data s.buf s.count (s.out.map base32Letter) =
      (padded 8 5 (ds ++ data.map UInt8.toNat)).map base32Letter := by
  induction data generalizing ds s with
  | nil =>
    rw [base32EncodeLoop, List.map_nil, List.append_nil, ← h.concat_eq hcount, last_letter hcount]
    split
    · rw [List.map_append, List.map_singleton]
    · rfl
  | cons byte data ih =>
    let t : Buffer := ⟨s.out, (s.buf * 2 ^ 8 + byte.toNat) % 2 ^ 64, s.count + 8⟩
    have htake : Regroup.Holds 8 5 (ds ++ [byte.toNat]) t := h.take byte.toNat_lt (by omega)
    have hdrain : (drain 5 (fun _ => true) t).count < 5 :=
      count_drain (by decide) htake fun _ _ => rfl
    obtain ⟨hgive, hbuf⟩ := base32Give_eq (fun _ => true) (fun _ => rfl) t
    have hstep : base32EncodeLoop (byte :: data) s.buf s.count (s.out.map base32Letter) =
        base32EncodeLoop data t.buf (base32Give t.buf t.count (t.out.map base32Letter)).2
          (base32Give t.buf t.count (t.out.map base32Letter)).1 := rfl
    rw [hstep, hgive, ← hbuf, ih htake.drain hdrain, List.map_cons,
      List.append_cons ds byte.toNat (data.map UInt8.toNat)]

/-- **The encoder writes base32.** -/
theorem toList_base32Encode (data : Bytes) : (base32Encode data).toList = base32Rfc data := by
  have hempty : Regroup.Holds 8 5 [] ⟨[], 0, 0⟩ := ⟨rfl, rfl, List.forall_mem_nil _⟩
  rw [base32Encode, String.toList_ofList]
  exact base32EncodeLoop_eq data hempty (by decide)

/-! ## Reading it back -/

theorem base32Letter_spec : ∀ n < 2 ^ 5, base32Letter n ∈ base32Alphabet
    ∧ (base32Letter n).toUpper = base32Letter n ∧ (base32Letter n).toLower.toUpper = base32Letter n
    ∧ base32Alphabet.idxOf (base32Letter n) = n := by
  decide

variable {data : Bytes} {s : String}

theorem mem_alphabet_of_mem {c : Char} (hc : c ∈ base32Rfc data) : c ∈ base32Alphabet := by
  obtain ⟨n, hn, rfl⟩ := List.mem_map.mp hc
  exact (base32Letter_spec n (lt_of_mem_digits hn)).1

/-- **What is encoded is decoded**, in whatever case its letters are. -/
theorem base32Decode_of_toUpper (hs : s.toList.map Char.toUpper = base32Rfc data) :
    base32Decode s = some data := by
  have hbytes : ∀ d ∈ data.map UInt8.toNat, d < 2 ^ 8 := by
    intro d hd
    obtain ⟨b, -, rfl⟩ := List.mem_map.mp hd
    exact b.toNat_lt
  have hletters : ∀ c ∈ s.toList, IsBase32 c := fun c hc =>
    mem_alphabet_of_mem (hs ▸ List.mem_map_of_mem hc)
  have hvalues : s.toList.map base32Value = padded 8 5 (data.map UInt8.toNat) := by
    calc s.toList.map base32Value
        = (s.toList.map Char.toUpper).map fun c => base32Alphabet.idxOf c := by
          rw [List.map_map]
          rfl
      _ = (padded 8 5 (data.map UInt8.toNat)).map fun n =>
            base32Alphabet.idxOf (base32Letter n) := by
          rw [hs, base32Rfc, List.map_map]
          rfl
      _ = padded 8 5 (data.map UInt8.toNat) :=
          List.map_congr_left (fun n hn => (base32Letter_spec n (lt_of_mem_digits hn)).2.2.2)
            |>.trans (List.map_id _)
  rw [base32Decode_eq hletters, decodedKey, hvalues,
    regrouped_padded (by decide) (by decide) hbytes, ← toNat_ofNat_map rfl]

theorem map_base32Rfc {f : Char → Char}
    (hf : ∀ n < 2 ^ 5, f (base32Letter n) = base32Letter n) : (base32Rfc data).map f = base32Rfc data := by
  rw [base32Rfc, List.map_map]
  exact List.map_congr_left fun n hn => hf n (lt_of_mem_digits hn)

/-- **A secret of any length is written in base32, and read back** in upper and in lower case. -/
theorem base32_codec (data : Bytes) :
    (base32Encode data).length = (8 * data.length + 4) / 5
    ∧ (∀ c ∈ (base32Encode data).toList, c ∈ base32Alphabet)
    ∧ (base32Encode data).toList = base32Rfc data
    ∧ base32Decode (base32Encode data) = some data
    ∧ base32Decode (String.ofList ((base32Encode data).toList.map Char.toLower)) = some data := by
  have htext := toList_base32Encode data
  refine ⟨?_, ?_, htext, base32Decode_of_toUpper ?_, base32Decode_of_toUpper ?_⟩
  · rw [← String.length_toList, htext, base32Rfc, List.length_map, length_padded, List.length_map]
  · rw [htext]
    exact fun c hc => mem_alphabet_of_mem hc
  · rw [htext]
    exact map_base32Rfc fun n hn => (base32Letter_spec n hn).2.1
  · rw [String.toList_ofList, htext, List.map_map]
    exact map_base32Rfc fun n hn => (base32Letter_spec n hn).2.2.1

end Pcos.Auth
