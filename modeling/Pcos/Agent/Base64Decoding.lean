import Pcos.Agent.ChunkRoundTrip
import Pcos.Foundations.Base64Url

/-!
# Agent/Base64Decoding — what the agent takes for base64 (`fs_handler.rs`)

The decoder reads symbols up to the first `=`, skips white space, and never looks at what follows.

    "YQ==Yg==" is read as "YQ=="        what follows the padding is dropped
    "YWJjZ"    is read as "YWJj"        … a symbol too many
    "YR=="     is read as "YQ=="        … spare bits

It reads every encoding back, and more: `accepts_only_encodings_iff` says of which texts it reads what
they encode.
-/

namespace Pcos.Agent

open Foundations

/-! ## What is read -/

/-- A text without its white space. -/
def stripped (s : String) : List Char := s.toList.filter fun c => !isWhiteSpace c

/-- The part that is read… -/
def symbols (s : String) : List Char := (stripped s).takeWhile (· ≠ '=')

/-- …and the part that is not. -/
def unread (s : String) : List Char := (stripped s).dropWhile (· ≠ '=')

/-- The bytes that are given out for the values of the symbols. -/
def bytesFrom (buffer bits : ℕ) : List ℕ → Bytes
  | [] => []
  | val :: vals =>
    let buffer := (buffer * 64 + val) % 2 ^ 32
    if 8 ≤ bits + 6 then
      UInt8.ofNat (buffer / 2 ^ (bits + 6 - 8) % 256) :: bytesFrom buffer (bits + 6 - 8) vals
    else bytesFrom buffer (bits + 6) vals

/-- The letters, the digits and the two signs, by their values. -/
theorem sextet_eq_some {c : Char} {v : ℕ} : sextet c = some v →
    (65 ≤ c.toNat ∧ c.toNat ≤ 90 ∧ c.toNat = v + 65) ∨ (97 ≤ c.toNat ∧ c.toNat ≤ 122 ∧ c.toNat = v + 71)
    ∨ (48 ≤ c.toNat ∧ c.toNat ≤ 57 ∧ c.toNat + 4 = v) ∨ (c.toNat = 43 ∧ v = 62)
    ∨ (c.toNat = 47 ∧ v = 63) := by
  have hupper : 'A' ≤ c ∧ c ≤ 'Z' ↔ 65 ≤ c.toNat ∧ c.toNat ≤ 90 := Iff.rfl
  have hlower : 'a' ≤ c ∧ c ≤ 'z' ↔ 97 ≤ c.toNat ∧ c.toNat ≤ 122 := Iff.rfl
  have hdigit : '0' ≤ c ∧ c ≤ '9' ↔ 48 ≤ c.toNat ∧ c.toNat ≤ 57 := Iff.rfl
  have hsigns : 'A'.toNat = 65 ∧ 'a'.toNat = 97 ∧ '0'.toNat = 48 := ⟨rfl, rfl, rfl⟩
  intro h
  unfold sextet at h
  simp only [hupper, hlower, hdigit, hsigns] at h
  split_ifs at h with h1 h2 h3 h4 h5
  · have := Option.some.inj h
    omega
  · have := Option.some.inj h
    omega
  · have := Option.some.inj h
    omega
  · exact Or.inr (Or.inr (Or.inr (Or.inl ⟨congrArg Char.toNat h4, (Option.some.inj h).symm⟩)))
  · exact Or.inr (Or.inr (Or.inr (Or.inr ⟨congrArg Char.toNat h5, (Option.some.inj h).symm⟩)))

/-- A symbol is the digit of its value. -/
theorem of_sextet {c : Char} {v : ℕ} (h : sextet c = some v) : v < 64 ∧ Base64.digit v = c := by
  have hc := sextet_eq_some h
  have hv : v < 64 := by omega
  have hd := sextet_eq_some (sextet_digit v hv)
  have htoNat : (Base64.digit v).toNat = c.toNat := by omega
  exact ⟨hv, Char.toNat_inj.mp htoNat⟩

theorem isWhiteSpace_of_sextet {c : Char} {v : ℕ} (h : sextet c = some v) :
    isWhiteSpace c = false := by
  obtain ⟨hv, rfl⟩ := of_sextet h
  exact isWhiteSpace_digit v hv

/-- **The loop reads the symbols before the first `=`.** -/
theorem decodeLoop_eq (buffer bits : ℕ) (chars : List Char) :
    decodeLoop buffer bits chars =
      (((chars.filter fun c => !isWhiteSpace c).takeWhile (· ≠ '=')).mapM sextet).map
        (bytesFrom buffer bits) := by
  induction chars generalizing buffer bits with
  | nil => rfl
  | cons c chars ih =>
    rw [decodeLoop]
    by_cases hpad : c = '='
    · subst hpad
      rfl
    rw [if_neg hpad]
    cases hsextet : sextet c with
    | none =>
      by_cases hwhite : isWhiteSpace c = true
      · rw [List.filter_cons_of_neg (by simp [hwhite]), ← ih]
        exact if_pos hwhite
      · rw [List.filter_cons_of_pos (by simp [hwhite]), List.takeWhile_cons_of_pos (by simp [hpad]),
          List.mapM_cons, hsextet]
        exact if_neg hwhite
    | some v =>
      rw [List.filter_cons_of_pos (by simp [isWhiteSpace_of_sextet hsextet]),
        List.takeWhile_cons_of_pos (by simp [hpad]), List.mapM_cons, hsextet]
      simp only [Option.bind_eq_bind, Option.bind_some, ih]
      split
      · rename_i hbits
        cases List.mapM sextet _ with
        | none => rfl
        | some vs =>
          simp only [Option.map_some, Option.bind_some, Option.pure_def, bytesFrom]
          rw [if_pos hbits]
      · rename_i hbits
        cases List.mapM sextet _ with
        | none => rfl
        | some vs =>
          simp only [Option.map_some, Option.bind_some, Option.pure_def, bytesFrom]
          rw [if_neg hbits]

/-- Whatever is left in the buffer, bytes are put together from four symbols at a time. -/
theorem bytesFrom_eq {vs : List ℕ} (h : ∀ v ∈ vs, v < 64) (buffer : ℕ) :
    bytesFrom buffer 0 vs = Base64.ofSixes vs := by
  fun_induction Base64.ofSixes vs generalizing buffer with
  | case1 w x y z rest ih =>
    simp only [List.forall_mem_cons] at h
    obtain ⟨hw, hx, hy, hz, hrest⟩ := h
    simp only [bytesFrom, Nat.reduceAdd, Nat.reduceLeDiff, if_false, if_true, Nat.reduceSub,
      ih hrest]
    refine congrArg₂ _ (congrArg _ (by omega)) (congrArg₂ _ (congrArg _ (by omega)) ?_)
    exact congrArg₂ _ (congrArg _ (by omega)) rfl
  | case2 w x y =>
    simp only [List.forall_mem_cons] at h
    obtain ⟨hw, hx, hy, -⟩ := h
    simp only [bytesFrom, Nat.reduceAdd, Nat.reduceLeDiff, if_false, if_true, Nat.reduceSub]
    exact congrArg₂ _ (congrArg _ (by omega)) (congrArg₂ _ (congrArg _ (by omega)) rfl)
  | case3 w x =>
    simp only [List.forall_mem_cons] at h
    obtain ⟨hw, hx, -⟩ := h
    simp only [bytesFrom, Nat.reduceAdd, Nat.reduceLeDiff, if_false, if_true, Nat.reduceSub]
    exact congrArg₂ _ (congrArg _ (by omega)) rfl
  | case4 vs hfour hthree htwo =>
    rcases vs with _ | ⟨w, _ | ⟨x, _ | ⟨y, _ | ⟨z, rest⟩⟩⟩⟩
    · rfl
    · rfl
    · exact absurd rfl (htwo w x)
    · exact absurd rfl (hthree w x y)
    · exact absurd rfl (hfour w x y z rest)

/-- **The symbols are the digits of their values.** -/
theorem mapM_sextet : ∀ {cs : List Char} {vs : List ℕ},
    cs.mapM sextet = some vs ↔ (∀ v ∈ vs, v < 64) ∧ cs = vs.map Base64.digit
  | [], vs => by cases vs <;> simp
  | c :: cs, vs => by
      rw [List.mapM_cons]
      simp only [Option.bind_eq_bind, Option.bind_eq_some_iff, mapM_sextet, Option.pure_def,
        Option.some.injEq]
      constructor
      · rintro ⟨v, hv, vs, ⟨hvs, rfl⟩, rfl⟩
        have hc := of_sextet hv
        exact ⟨List.forall_mem_cons.mpr ⟨hc.1, hvs⟩, by rw [List.map_cons, hc.2]⟩
      · rintro ⟨hvs, hcs⟩
        obtain ⟨v, vs, rfl⟩ := List.exists_cons_of_ne_nil (l := vs) (by rintro rfl; cases hcs)
        obtain ⟨hv, hvs⟩ := List.forall_mem_cons.mp hvs
        obtain ⟨rfl, rfl⟩ := List.cons.inj hcs
        exact ⟨v, sextet_digit v hv, vs, ⟨hvs, rfl⟩, rfl⟩

/-- **What is decoded**: the values of the symbols, put together. -/
theorem base64Decode_eq (s : String) :
    base64Decode s = ((symbols s).mapM sextet).map Base64.ofSixes := by
  rw [base64Decode, decodeLoop_eq, filter_trim]
  exact Option.map_congr fun vs hvs => bytesFrom_eq (mapM_sextet.mp hvs).1 0

/-! ## What is accepted -/

/-- The characters are the encoding of the bytes, with its padding or without. -/
def IsEncodingOf (t : List Char) (bytes : Bytes) : Prop :=
  t = Base64.encodeChars bytes ∨ t = Base64.unpadded bytes
deriving Decidable

/-- The padding that brings the digits to a multiple of four. -/
def paddingFor (vs : List ℕ) : List Char := List.replicate ((4 - vs.length % 4) % 4) '='

/-- If the symbols have values, these are cut from bytes, and nothing but the padding goes unread. -/
def WellFormed (s : String) : Prop :=
  ∀ vs, (symbols s).mapM sextet = some vs →
    Base64.Canonical vs ∧ (unread s = [] ∨ unread s = paddingFor vs)

theorem symbols_append_unread (s : String) : symbols s ++ unread s = stripped s :=
  List.takeWhile_append_dropWhile

/-- Where the part that is read ends. -/
theorem stripped_eq_append (s : String) {ds : List Char} (hds : ∀ d ∈ ds, d ≠ '=') (pad : List Char)
    (hpad : ∀ c ∈ pad, c = '=') : stripped s = ds ++ pad ↔ symbols s = ds ∧ unread s = pad := by
  constructor
  · intro h
    have hdigits : ∀ d ∈ ds, decide (d ≠ '=') = true := fun d hd => decide_eq_true (hds d hd)
    rw [symbols, unread, h, List.takeWhile_append_of_pos hdigits, List.dropWhile_append_of_pos hdigits]
    cases pad with
    | nil => exact ⟨List.append_nil ds, rfl⟩
    | cons c cs =>
      have hc : ¬decide (c ≠ '=') = true := by simpa using hpad c List.mem_cons_self
      rw [List.takeWhile_cons_of_neg (p := fun a => decide (a ≠ '=')) hc,
        List.dropWhile_cons_of_neg (p := fun a => decide (a ≠ '=')) hc]
      exact ⟨List.append_nil ds, rfl⟩
  · rintro ⟨rfl, rfl⟩
    exact (symbols_append_unread s).symm

variable {s : String} {vs : List ℕ}

/-- The symbols are those of bytes exactly if their values are. -/
theorem symbols_eq_iff (hvs : (symbols s).mapM sextet = some vs) (bytes : Bytes) :
    symbols s = (Base64.sixes bytes).map Base64.digit ↔ Base64.sixes bytes = vs := by
  constructor
  · intro h
    have hsixes := mapM_sextet.mpr ⟨Base64.sixes_lt bytes, h⟩
    exact Option.some.inj (hsixes.symm.trans hvs)
  · rintro rfl
    exact (mapM_sextet.mp hvs).2

theorem isEncodingOf_iff (hvs : (symbols s).mapM sextet = some vs) :
    IsEncodingOf (stripped s) (Base64.ofSixes vs) ↔
      Base64.Canonical vs ∧ (unread s = [] ∨ unread s = paddingFor vs) := by
  have hdigits := Base64.digits_ne_pad (Base64.sixes_lt (Base64.ofSixes vs))
  have hpadded := stripped_eq_append s hdigits
    (List.replicate (Base64.padding (Base64.ofSixes vs)) '=') fun c hc => List.eq_of_mem_replicate hc
  have hunpadded := stripped_eq_append s hdigits [] (List.forall_mem_nil _)
  rw [List.append_nil] at hunpadded
  rw [IsEncodingOf, Base64.encodeChars_eq, Base64.unpadded_eq, hpadded, hunpadded,
    symbols_eq_iff hvs, Base64.sixes_ofSixes_iff (mapM_sextet.mp hvs).1, ← and_or_left, or_comm]
  refine and_congr_right fun hcanonical => ?_
  have hsixes := (Base64.sixes_ofSixes_iff (mapM_sextet.mp hvs).1).mpr hcanonical
  rw [(Base64.length_sixes _).1, hsixes, paddingFor]

/-- **The agent decodes what it encodes**, and accepts nothing else than encodings exactly where the
text is well formed. -/
theorem accepts_only_encodings_iff (s : String) :
    (∀ data, base64Decode (base64Encode data) = some data)
    ∧ ((∀ bytes, base64Decode s = some bytes → IsEncodingOf (stripped s) bytes) ↔
        WellFormed s) := by
  refine ⟨fun data => by rw [base64Encode_eq, base64Decode_encode], ?_⟩
  simp only [base64Decode_eq, Option.map_eq_some_iff, forall_exists_index, and_imp]
  constructor
  · intro h vs hvs
    exact (isEncodingOf_iff hvs).mp (h _ vs hvs rfl)
  · rintro h _ vs hvs rfl
    exact (isEncodingOf_iff hvs).mpr (h vs hvs)

/-- What follows the padding is dropped, and so is a dangling symbol. -/
theorem accepts_more :
    (¬∀ s bytes, base64Decode s = some bytes → IsEncodingOf (stripped s) bytes)
    ∧ base64Decode "YQ==Yg==" = some [0x61] ∧ base64Decode "YWJjZ" = some [0x61, 0x62, 0x63] := by
  refine ⟨fun h => ?_, by decide, by decide⟩
  have hafter := h "YQ==Yg==" [0x61] (by decide)
  revert hafter
  decide

end Pcos.Agent
