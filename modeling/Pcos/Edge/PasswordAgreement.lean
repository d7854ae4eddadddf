import Mathlib.Algebra.Group.Nat.Even
import Mathlib.Data.List.Induction
import Pcos.Backend.Passwords
import Pcos.Edge.Accounts

/-!
# Edge/PasswordAgreement — the edge and the backend verify the same passwords (`services/auth.ts`)

A stored hash has its number of iterations in decimal and its salt and its hash in hexadecimal.  The
edge derives 32 bytes, and throws if the number is not one for WebCrypto; it reads an odd last digit
as a byte.  The backend turns odd digits down, takes a 0 for a 1, and derives as many bytes as are
stored.  They agree, and take the full hash only, exactly if the number is in range and a hash that is
not well-formed does not match anyway: `agrees_iff`.
-/

namespace Pcos.Edge.Accounts

open Foundations Hmac Passwords

/-! ## The edge's function -/

/-- What `.` does not match. -/
def isLineTerminator (c : Char) : Bool :=
  c = '\n' || c = '\r' || c = '\u2028' || c = '\u2029'

/-- `match(/.{1,2}/g)` -/
def matchPairs : List Char → List (List Char)
  | [] => []
  | [a] => if isLineTerminator a then [] else [[a]]
  | a :: b :: rest =>
    if isLineTerminator a then matchPairs (b :: rest)
    else if isLineTerminator b then [a] :: matchPairs rest
    else [a, b] :: matchPairs rest

/-- `parseInt`, with `none` for `NaN`. -/
def parseInt (s : List Char) (radix : ℕ) : Option ℤ :=
  let s := s.dropWhile isSpace
  let (sign, s) : ℤ × List Char := match s with
    | '-' :: rest => (-1, rest)
    | '+' :: rest => (1, rest)
    | _ => (1, s)
  let s := match s with
    | '0' :: x :: rest => if radix = 16 ∧ (x = 'x' ∨ x = 'X') then rest else s
    | _ => s
  let digits := s.takeWhile fun c => (hexValue c).any (· < radix)
  if digits = [] then none
  else some (sign * (digits.foldl (fun n c => radix * n + (hexValue c).getD 0) 0 : ℕ))

/-- The bytes of a `Uint8Array` of hexadecimal pairs; `NaN` is a 0. -/
def hexBytes (hex : List Char) : Bytes :=
  (matchPairs hex).map fun byte => UInt8.ofNat (((parseInt byte 16).getD 0) % 256).toNat

variable (sha : Sha256)

/-- `deriveBits` to 256 bits; it throws at a number that is not one of 32 bits, and at 0. -/
def deriveBits (password salt : Bytes) (iterations : Option ℤ) : Option Bytes :=
  match iterations with
  | some n =>
    if 1 ≤ n ∧ n < 2 ^ 32 then some (pbkdf2 (hmac sha.digest 64 password) 32 salt n.toNat 32) else none
  | none => none

/-- Whether the password is the stored one; `none` if it throws. -/
def verifyPassword (password storedHash : String) : Option Bool :=
  match storedHash.toList.splitOnP (· = '$') with
  | [scheme, iterations, saltHex, expectedHashHex] =>
    if scheme ≠ "pbkdf2".toList then some false
    else
      let iterations := parseInt iterations 10
      let salt := hexBytes saltHex
      (deriveBits sha password.toUTF8.toList salt iterations).map fun actualHash =>
        let expectedBytes := hexBytes expectedHashHex
        if actualHash.length ≠ expectedBytes.length then false
        else difference actualHash expectedBytes = 0
  | _ => some false

/-! ## Stored hashes -/

/-- A stored hash: a number in decimal, and a salt and a hash in hexadecimal. -/
structure StoredHash where
  iterations : List Char
  salt : List Char
  hash : List Char
  iterations_ne : iterations ≠ []
  iterations_digits : ∀ c ∈ iterations, c.isDigit = true
  salt_digits : ∀ c ∈ salt, (hexValue c).isSome = true
  hash_digits : ∀ c ∈ hash, (hexValue c).isSome = true

namespace StoredHash

def text (s : StoredHash) : String :=
  String.ofList (['$'].intercalate ["pbkdf2".toList, s.iterations, s.salt, s.hash])

/-- The number of iterations. -/
def count (s : StoredHash) : ℕ := Nat.ofDigitChars 10 s.iterations 0

/-- The digits are pairs. -/
def IsPaired (s : StoredHash) : Prop := Even s.salt.length ∧ Even s.hash.length

instance (s : StoredHash) : Decidable s.IsPaired := inferInstanceAs (Decidable (_ ∧ _))

/-- …and the hash is of 32 bytes. -/
def IsWellFormed (s : StoredHash) : Prop := s.IsPaired ∧ s.hash.length = 64

/-- The password derives what is read of a hash, to the length that is compared. -/
def Matches (sha : Sha256) (s : StoredHash) (password : String) : Prop :=
  pbkdf2 (prf sha password.toUTF8.toList) 32 (hexBytes s.salt) s.count
    (if s.IsPaired then (hexBytes s.hash).length else 32) = hexBytes s.hash

end StoredHash

/-- The backend and the edge give one answer, and say yes to the full hash only. -/
structure Agrees (argon2 : String → String → Except String Bool) (s : StoredHash)
    (password : String) : Prop where
  same : ∃ answer, Passwords.verifyPassword sha argon2 password s.text = .ok answer ∧
    verifyPassword sha password s.text = some answer
  full : Passwords.verifyPassword sha argon2 password s.text = .ok true →
    ∃ salt, hexDecode s.salt = some salt ∧
      hexDecode s.hash = some (pbkdf2 (prf sha password.toUTF8.toList) 32 salt s.count 32)

/-! ## Reading digits -/

theorem hexAlphabet_spec : ∀ n < 128, (hexValue (Char.ofNat n)).isSome = true →
    isSpace (Char.ofNat n) = false ∧ isLineTerminator (Char.ofNat n) = false ∧
    Char.ofNat n ≠ '-' ∧ Char.ofNat n ≠ '+' ∧ Char.ofNat n ≠ 'x' ∧ Char.ofNat n ≠ 'X' ∧
    Char.ofNat n ≠ '$' ∧ (hexValue (Char.ofNat n)).any (· < 16) = true := by
  decide

theorem digit_spec : ∀ n < 128, (Char.ofNat n).isDigit = true →
    hexValue (Char.ofNat n) = some (n - 48) ∧ n - 48 < 10 := by
  decide

variable {c : Char} {l : List Char}

theorem ascii_of_hexAlphabet : ∀ u ∈ hexAlphabet, u.toNat < 128 :=
  forall_mem_of_all (by decide)

/-- Lower case changes ASCII letters only. -/
theorem ascii_of_hexValue (hc : (hexValue c).isSome = true) : c.toNat < 128 := by
  have hmem : c.toLower ∈ hexAlphabet := by
    rw [hexValue, List.isSome_idxOf?] at hc
    exact hc
  have hlower := ascii_of_hexAlphabet _ hmem
  unfold Char.toLower at hlower
  split at hlower
  · rename_i hupper
    exact Nat.lt_of_le_of_lt (UInt32.le_iff_toNat_le.mp hupper.2) (by decide)
  · exact hlower

theorem hex_spec (hc : (hexValue c).isSome = true) :
    isSpace c = false ∧ isLineTerminator c = false ∧ c ≠ '-' ∧ c ≠ '+' ∧ c ≠ 'x' ∧ c ≠ 'X' ∧
    c ≠ '$' ∧ (hexValue c).any (· < 16) = true := by
  have hspec := hexAlphabet_spec c.toNat (ascii_of_hexValue hc)
  rw [Char.ofNat_toNat] at hspec
  exact hspec hc

theorem ascii_of_isDigit (hc : c.isDigit = true) : c.toNat < 128 :=
  Nat.lt_of_le_of_lt (Char.isDigit_iff_toNat.mp hc).2 (by decide)

/-- A digit of a number is one of base 16. -/
theorem hexValue_of_isDigit (hc : c.isDigit = true) :
    hexValue c = some (c.toNat - 48) ∧ c.toNat - 48 < 10 := by
  have hspec := digit_spec c.toNat (ascii_of_isDigit hc)
  rw [Char.ofNat_toNat] at hspec
  exact hspec hc

/-- **What is all digits is read in full.** -/
theorem parseInt_of_digits {radix : ℕ} (hne : l ≠ [])
    (hl : ∀ c ∈ l, (hexValue c).any (· < radix) = true) :
    parseInt l radix
      = some ((l.foldl (fun n c => radix * n + (hexValue c).getD 0) 0 : ℕ) : ℤ) := by
  have hhex : ∀ c ∈ l, (hexValue c).isSome = true := fun c hc => Option.isSome_of_any (hl c hc)
  obtain ⟨c, cs, rfl⟩ := List.exists_cons_of_ne_nil hne
  have hc := hex_spec (hhex c List.mem_cons_self)
  have hspace : (c :: cs).dropWhile isSpace = c :: cs := by
    rw [List.dropWhile_cons, hc.1, if_neg Bool.false_ne_true]
  have hsign : (match c :: cs with
      | '-' :: rest => ((-1 : ℤ), rest)
      | '+' :: rest => (1, rest)
      | _ => (1, c :: cs)) = (1, c :: cs) := by
    split <;> simp_all
  have hstarts : (match c :: cs with
      | '0' :: x :: rest => if radix = 16 ∧ (x = 'x' ∨ x = 'X') then rest else c :: cs
      | _ => c :: cs) = c :: cs := by
    split
    · rename_i x rest heq
      have hx := hex_spec (hhex x (by rw [heq]; exact List.mem_cons_of_mem _ List.mem_cons_self))
      exact if_neg fun h => h.2.elim hx.2.2.2.2.1 hx.2.2.2.2.2.1
    · rfl
  have hdigits : (c :: cs).takeWhile (fun c => (hexValue c).any (· < radix)) = c :: cs :=
    List.takeWhile_eq_self_iff.mpr hl
  simp only [parseInt, hspace, hsign, hstarts, hdigits, reduceCtorEq, if_false, one_mul]

theorem parseInt_count (s : StoredHash) : parseInt s.iterations 10 = some (s.count : ℤ) := by
  have hvalue := fun c hc => hexValue_of_isDigit (s.iterations_digits c hc)
  rw [parseInt_of_digits s.iterations_ne fun c hc => ?_, StoredHash.count, Nat.ofDigitChars_eq_foldl]
  · congr 2
    refine List.foldl_ext _ _ _ fun n c hc => ?_
    rw [(hvalue c hc).1]
    rfl
  · rw [(hvalue c hc).1]
    exact decide_eq_true (hvalue c hc).2

theorem parseU32_count (s : StoredHash) :
    parseU32 s.iterations = if s.count < 2 ^ 32 then some s.count else none := by
  obtain ⟨c, cs, hcons⟩ := List.exists_cons_of_ne_nil s.iterations_ne
  have hplus : c ≠ '+' := by
    rintro rfl
    exact absurd (s.iterations_digits '+' (hcons ▸ List.mem_cons_self)) (by decide)
  have hsign : stripPlus s.iterations = s.iterations := by
    rw [hcons]
    unfold stripPlus
    split
    · rename_i rest heq
      exact absurd (List.cons.inj heq).1 hplus
    · rfl
  have hall : s.iterations.all Char.isDigit = true := List.all_eq_true.mpr s.iterations_digits
  simp only [parseU32, hsign, hall, s.iterations_ne, StoredHash.count, ne_eq, not_false_eq_true,
    true_and]
  exact if_congr Iff.rfl rfl rfl

theorem parseInt_hex (hne : l ≠ []) (hl : ∀ c ∈ l, (hexValue c).isSome = true) :
    parseInt l 16 = some ((l.foldl (fun n c => 16 * n + (hexValue c).getD 0) 0 : ℕ) : ℤ) :=
  parseInt_of_digits hne fun c hc => (hex_spec (hl c hc)).2.2.2.2.2.2.2

/-- **Pairs of digits are bytes.** -/
theorem hexBytes_pair {a b : Char} {x y : ℕ} (ha : hexValue a = some x) (hb : hexValue b = some y)
    (rest : List Char) : hexBytes (a :: b :: rest) = UInt8.ofNat (16 * x + y) :: hexBytes rest := by
  have hasome : (hexValue a).isSome = true := by rw [ha, Option.isSome_some]
  have hbsome : (hexValue b).isSome = true := by rw [hb, Option.isSome_some]
  have hvalue : parseInt [a, b] 16 = some ((16 * x + y : ℕ) : ℤ) := by
    rw [parseInt_hex (List.cons_ne_nil _ _) (by simp [hasome, hbsome])]
    simp [ha, hb]
  rw [hexBytes, matchPairs, if_neg (by rw [(hex_spec hasome).2.1]; exact Bool.false_ne_true),
    if_neg (by rw [(hex_spec hbsome).2.1]; exact Bool.false_ne_true), List.map_cons, hvalue]
  congr 1
  exact ofNat_congr (by rw [Option.getD_some]; omega)

/-- To the edge, a last digit alone is one too. -/
theorem length_hexBytes (hl : ∀ c ∈ l, (hexValue c).isSome = true) :
    (hexBytes l).length = (l.length + 1) / 2 := by
  induction l using List.twoStepInduction with
  | nil => rfl
  | singleton a =>
    have hline := (hex_spec (hl a List.mem_cons_self)).2.1
    rw [hexBytes, matchPairs, if_neg (by rw [hline]; exact Bool.false_ne_true), List.length_map,
      List.length_singleton, List.length_singleton]
  | cons_cons a b rest ih _ =>
    obtain ⟨x, hx⟩ := Option.isSome_iff_exists.mp (hl a List.mem_cons_self)
    obtain ⟨y, hy⟩ := Option.isSome_iff_exists.mp (hl b (List.mem_cons_of_mem _ List.mem_cons_self))
    rw [hexBytes_pair hx hy, List.length_cons, ih fun c hc =>
      hl c (List.mem_cons_of_mem _ (List.mem_cons_of_mem _ hc)), List.length_cons, List.length_cons]
    omega

/-- **The backend reads what the edge reads**, of pairs. -/
theorem hexDecode_eq (hl : ∀ c ∈ l, (hexValue c).isSome = true) :
    hexDecode l = if Even l.length then some (hexBytes l) else none := by
  induction l using List.twoStepInduction with
  | nil => rfl
  | singleton a => rfl
  | cons_cons a b rest ih _ =>
    obtain ⟨x, hx⟩ := Option.isSome_iff_exists.mp (hl a List.mem_cons_self)
    obtain ⟨y, hy⟩ := Option.isSome_iff_exists.mp (hl b (List.mem_cons_of_mem _ List.mem_cons_self))
    have hparity : Even (a :: b :: rest).length ↔ Even rest.length := by
      rw [List.length_cons, List.length_cons, Nat.even_add_one, Nat.even_add_one, not_not]
    rw [hexDecode, hx, hy, hexBytes_pair hx hy, ih fun c hc =>
      hl c (List.mem_cons_of_mem _ (List.mem_cons_of_mem _ hc))]
    simp only [hparity]
    split <;> rfl

/-! ## What the two answer -/

namespace StoredHash

variable (s : StoredHash) (password : String)

/-- What the stored hash is split into. -/
theorem splitOnP_text :
    s.text.toList.splitOnP (· = '$') = ["pbkdf2".toList, s.iterations, s.salt, s.hash] := by
  rw [text, String.toList_ofList]
  refine splitOnP_intercalate (decide_eq_true rfl) (List.cons_ne_nil _ _) fun piece hpiece c hc => ?_
  rw [decide_eq_false_iff_not]
  simp only [List.mem_cons, List.not_mem_nil, or_false] at hpiece
  rcases hpiece with rfl | rfl | rfl | rfl
  · rintro rfl
    exact absurd hc (by decide)
  · rintro rfl
    exact absurd (s.iterations_digits '$' hc) (by decide)
  · exact (hex_spec (s.salt_digits c hc)).2.2.2.2.2.2.1
  · exact (hex_spec (s.hash_digits c hc)).2.2.2.2.2.2.1

theorem backend_answer (argon2 : String → String → Except String Bool) :
    Passwords.verifyPassword sha argon2 password s.text = .ok (decide (s.count < 2 ^ 32 ∧ s.IsPaired ∧
      pbkdf2 (prf sha password.toUTF8.toList) 32 (hexBytes s.salt) s.count (hexBytes s.hash).length
        = hexBytes s.hash)) := by
  have hstarts : "pbkdf2$".toList.isPrefixOf s.text.toList = true := by
    rw [List.isPrefixOf_iff_prefix, text, String.toList_ofList]
    exact ⟨s.iterations ++ ['$'] ++ s.salt ++ ['$'] ++ s.hash, by
      simp [List.intercalate_cons_cons, List.intercalate_singleton]⟩
  rw [Passwords.verifyPassword, if_pos hstarts, verifyPbkdf2, splitOnP_text]
  dsimp only
  rw [if_neg (not_not.mpr rfl), parseU32_count, hexDecode_eq s.salt_digits,
    hexDecode_eq s.hash_digits]
  congr 1
  by_cases hcount : s.count < 2 ^ 32
  · by_cases hsalt : Even s.salt.length
    · by_cases hhash : Even s.hash.length
      · have hlength := length_pbkdf2 (length_prf sha password.toUTF8.toList) (by decide)
          (hexBytes s.salt) s.count (hexBytes s.hash).length
        rw [if_pos hcount, if_pos hsalt, if_pos hhash]
        dsimp only
        rw [pbkdf2HmacSha256_eq, hlength, Bool.eq_iff_iff, Bool.and_eq_true, decide_eq_true_eq,
          decide_eq_true_eq, decide_eq_true_eq, difference_eq_zero_iff hlength]
        exact ⟨fun h => ⟨hcount, ⟨hsalt, hhash⟩, h.2⟩, fun h => ⟨rfl, h.2.2⟩⟩
      · rw [if_pos hcount, if_pos hsalt, if_neg hhash, decide_eq_false fun h => hhash h.2.1.2]
    · rw [if_pos hcount, if_neg hsalt, decide_eq_false fun h => hsalt h.2.1.1]
  · rw [if_neg hcount, decide_eq_false fun h => hcount h.1]

theorem edge_answer : verifyPassword sha password s.text =
    if 1 ≤ s.count ∧ s.count < 2 ^ 32 then
      some (decide (pbkdf2 (prf sha password.toUTF8.toList) 32 (hexBytes s.salt) s.count 32
        = hexBytes s.hash))
    else none := by
  have hlength := length_pbkdf2 (length_prf sha password.toUTF8.toList) (by decide)
    (hexBytes s.salt) s.count 32
  have hrange : (1 ≤ (s.count : ℤ) ∧ (s.count : ℤ) < 2 ^ 32) ↔ (1 ≤ s.count ∧ s.count < 2 ^ 32) := by
    omega
  rw [verifyPassword, splitOnP_text]
  dsimp only
  rw [if_neg (not_not.mpr rfl), parseInt_count, deriveBits]
  simp only [hrange, Int.toNat_natCast]
  split
  · rw [Option.map_some, hlength]
    congr 1
    split
    · rename_i hother
      exact (decide_eq_false fun h => hother (hlength.symm.trans (congrArg List.length h))).symm
    · rename_i hsame
      exact decide_eq_decide.mpr (difference_eq_zero_iff (hlength.trans (not_not.mp hsame)))
  · rfl

theorem length_hash_eq (hpaired : s.IsPaired) :
    (hexBytes s.hash).length = 32 ↔ s.hash.length = 64 := by
  obtain ⟨k, hk⟩ := hpaired.2
  rw [length_hexBytes s.hash_digits]
  omega

end StoredHash

/-- **They agree exactly if** the number of iterations is one for WebCrypto, and a hash that is not
well-formed does not match. -/
theorem agrees_iff (argon2 : String → String → Except String Bool) (s : StoredHash)
    (password : String) : Agrees sha argon2 s password ↔
      (1 ≤ s.count ∧ s.count < 2 ^ 32) ∧ (¬ s.IsWellFormed → ¬ s.Matches sha password) := by
  have hbackend := s.backend_answer sha password argon2
  have hedge := s.edge_answer sha password
  constructor
  · rintro ⟨⟨answer, hok, hsome⟩, hfull⟩
    have hcount : 1 ≤ s.count ∧ s.count < 2 ^ 32 := by
      by_contra hcount
      rw [hedge, if_neg hcount] at hsome
      cases hsome
    refine ⟨hcount, fun hformed hmatches => ?_⟩
    rw [hedge, if_pos hcount] at hsome
    rw [hbackend] at hok
    by_cases hpaired : s.IsPaired
    · -- the backend takes a hash that is of another length
      rw [StoredHash.Matches, if_pos hpaired] at hmatches
      obtain ⟨salt, -, hhash⟩ := hfull (by rw [hbackend, decide_eq_true ⟨hcount.2, hpaired, hmatches⟩])
      rw [hexDecode_eq s.hash_digits, if_pos hpaired.2] at hhash
      refine hformed ⟨hpaired, (s.length_hash_eq hpaired).mp ?_⟩
      rw [Option.some.inj hhash]
      exact length_pbkdf2 (length_prf sha password.toUTF8.toList) (by decide) _ _ _
    · -- the edge takes a hash that is of odd digits
      rw [StoredHash.Matches, if_neg hpaired] at hmatches
      rw [decide_eq_true hmatches, Option.some.injEq] at hsome
      rw [decide_eq_false fun h => hpaired h.2.1, Except.ok.injEq] at hok
      exact Bool.false_ne_true (hok.trans hsome.symm)
  · rintro ⟨hcount, hformed⟩
    rw [if_pos hcount] at hedge
    by_cases hwell : s.IsWellFormed
    · have hlength := (s.length_hash_eq hwell.1).mpr hwell.2
      rw [hlength] at hbackend
      refine ⟨⟨_, hbackend, hedge.trans ?_⟩, fun htrue => ?_⟩
      · exact congrArg some (decide_eq_decide.mpr ⟨fun h => ⟨hcount.2, hwell.1, h⟩, fun h => h.2.2⟩)
      · rw [hbackend, Except.ok.injEq, decide_eq_true_eq] at htrue
        refine ⟨hexBytes s.salt, ?_, ?_⟩
        · rw [hexDecode_eq s.salt_digits, if_pos hwell.1.1]
        · rw [hexDecode_eq s.hash_digits, if_pos hwell.1.2, htrue.2.2]
    · -- neither takes it
      have hmatches := hformed hwell
      have hbackend' : Passwords.verifyPassword sha argon2 password s.text = .ok false := by
        rw [hbackend]
        refine congrArg _ (decide_eq_false fun h => hmatches ?_)
        rw [StoredHash.Matches, if_pos h.2.1]
        exact h.2.2
      refine ⟨⟨false, hbackend', hedge.trans (congrArg some (decide_eq_false fun h => ?_))⟩,
        fun htrue => ?_⟩
      · by_cases hpaired : s.IsPaired
        · have hlength := length_pbkdf2 (length_prf sha password.toUTF8.toList) (by decide)
            (hexBytes s.salt) s.count 32
          exact hwell ⟨hpaired, (s.length_hash_eq hpaired).mp (h ▸ hlength)⟩
        · rw [StoredHash.Matches, if_neg hpaired] at hmatches
          exact hmatches h
      · rw [hbackend', Except.ok.injEq] at htrue
        exact absurd htrue Bool.false_ne_true

/-- A stored hash whose last part is empty: `pbkdf2$1000$00$`. -/
def StoredHash.noHash : StoredHash where
  iterations := "1000".toList
  salt := "00".toList
  hash := []
  iterations_ne := by decide
  iterations_digits := forall_mem_of_all (by decide)
  salt_digits := forall_mem_of_all (by decide)
  hash_digits := forall_mem_of_all (by decide)

theorem StoredHash.noHash_matches (sha : Sha256) (password : String) :
    StoredHash.noHash.Matches sha password := List.eq_nil_of_length_eq_zero
  (length_pbkdf2 (length_prf sha _) (by decide) _ _ _)

/-- The backend takes any password for it. -/
theorem not_agrees : ¬ ∃ (sha : Sha256) (argon2 : String → String → Except String Bool),
    Agrees sha argon2 StoredHash.noHash "guess" := by
  rintro ⟨sha, argon2, hagrees⟩
  have hbackend := StoredHash.noHash.backend_answer sha "guess" argon2
  rw [decide_eq_true ⟨by decide, by decide, StoredHash.noHash_matches sha "guess"⟩] at hbackend
  obtain ⟨salt, -, hhash⟩ := hagrees.full hbackend
  have hlength := congrArg List.length (Option.some.inj hhash)
  rw [length_pbkdf2 (length_prf sha _) (by decide)] at hlength
  cases hlength

end Pcos.Edge.Accounts
