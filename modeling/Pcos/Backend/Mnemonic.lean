import Pcos.Backend.Resumable
import Pcos.Foundations.Regroup
import Mathlib.Data.List.GetD
import Pcos.Foundations.Text

/-!
# Backend/Mnemonic — phrases of twelve words (`auth/src/recovery.rs`, `services/bip39.ts`)

Sixteen bytes and the first four bits of their SHA-256 are twelve numbers of eleven bits, and each
number is a word of a list.  Both servers write and read phrases in the same way.
-/

namespace Pcos.Mnemonic

open Foundations Regroup

/-- The English list: 2048 words of lower-case letters. -/
structure WordList where
  words : List String
  length_words : words.length = 2048
  nodup_words : words.Nodup
  letters : ∀ w ∈ words, w ≠ "" ∧ ∀ c ∈ w.toList, c.isLower = true

/-! ## Bytes and numbers -/

def hexDigits : List Char := "0123456789abcdef".toList

/-- The first four bits of a digest, which is written in hexadecimal. -/
def checksum (sha256 : Bytes → String) (entropy : Bytes) : ℕ :=
  ((sha256 entropy).toList.head?.bind hexDigits.idxOf?).getD 0

/-- The 128 random bits of a phrase. -/
abbrev Entropy := { bytes : Bytes // bytes.length = 16 }

/-- The twelve numbers of sixteen bytes and a checksum. -/
def entropyIndices (entropy : Bytes) (checksum : ℕ) : List ℕ :=
  let s := regroup 8 11 (fun _ => true) (entropy.map UInt8.toNat)
  s.out ++ [(s.buf * 2 ^ 4 + checksum) % 2 ^ 32 % 2 ^ 11]

/-- The sixteen bytes of twelve numbers, and their checksum. -/
def indicesEntropy (indices : List ℕ) : Bytes × ℕ :=
  let s := regroup 11 8 (fun out => out.length < 16) (indices.take 11)
  let buf := (s.buf * 2 ^ 11 + indices.getD 11 0) % 2 ^ 32
  (((s.out ++ List.replicate (16 - s.out.length) 0).set 15 (buf / 2 ^ 4 % 2 ^ 8)).map UInt8.ofNat,
    buf % 2 ^ 4)

theorem checksum_lt (sha256 : Bytes → String) (entropy : Bytes) : checksum sha256 entropy < 16 := by
  unfold checksum
  cases h : (sha256 entropy).toList.head?.bind hexDigits.idxOf? with
  | none => exact Nat.zero_lt_succ _
  | some i =>
    obtain ⟨c, -, hc⟩ := Option.bind_eq_some_iff.mp h
    exact (List.findIdx?_eq_some_iff_getElem.mp hc).1

section RoundTrip

variable {entropy : Bytes} {cs : ℕ}

/-- What the twelve numbers write. -/
theorem entropyIndices_spec (hlength : entropy.length = 16) (hcs : cs < 16) :
    (entropyIndices entropy cs).length = 12 ∧ (∀ i ∈ entropyIndices entropy cs, i < 2 ^ 11) ∧
      value 11 (entropyIndices entropy cs) = value 8 (entropy.map UInt8.toNat) * 2 ^ 4 + cs := by
  have hbytes : ∀ d ∈ entropy.map UInt8.toNat, d < 2 ^ 8 := by
    intro d hd
    obtain ⟨b, -, rfl⟩ := List.mem_map.mp hd
    exact b.toNat_lt
  have hspec := @regroup_spec 8 11 (fun _ => true) (by omega) (by omega) _ hbytes fun _ _ => rfl
  unfold entropyIndices
  generalize regroup 8 11 (fun _ => true) (entropy.map UInt8.toNat) = s at hspec
  obtain ⟨hholds, hcount⟩ := hspec
  obtain ⟨hvalue, hbits, hdigits⟩ := hholds
  rw [List.length_map, hlength] at hbits
  have hseven : s.count = 7 := by omega
  have hlast : (s.buf * 2 ^ 4 + cs) % 2 ^ 32 % 2 ^ 11 = s.buf % 2 ^ 7 * 2 ^ 4 + cs := by omega
  rw [hseven] at hvalue
  refine ⟨?_, fun i hi => ?_, ?_⟩
  · rw [List.length_append, List.length_singleton]
    omega
  · rcases List.mem_append.mp hi with hi | hi
    · exact hdigits i hi
    · rw [List.mem_singleton.mp hi]
      exact Nat.mod_lt _ (by positivity)
  · rw [value_concat, hlast, ← hvalue]
    ring

/-- What sixteen bytes and their checksum write. -/
theorem indicesEntropy_spec {indices : List ℕ} (hlength : indices.length = 12)
    (hindices : ∀ i ∈ indices, i < 2 ^ 11) :
    ∃ ds cs, indicesEntropy indices = (ds.map UInt8.ofNat, cs) ∧ ds.length = 16 ∧
      (∀ d ∈ ds, d < 2 ^ 8) ∧ cs < 2 ^ 4 ∧ value 8 ds * 2 ^ 4 + cs = value 11 indices := by
  have htake : ∀ i ∈ indices.take 11, i < 2 ^ 11 := fun i hi => hindices i (List.mem_of_mem_take hi)
  have hspec := @regroup_spec 11 8 (fun out => out.length < 16) (by omega) (by omega) _ htake
    fun out hout => by
      rw [List.length_take, hlength] at hout
      exact decide_eq_true (by omega)
  have hmem : indices.getD 11 0 ∈ indices := by
    rw [List.getD_eq_getElem _ _ (by omega)]
    exact List.getElem_mem _
  have hsplit : indices = indices.take 11 ++ [indices.getD 11 0] := by
    rw [List.getD_eq_getElem _ _ (by omega), List.take_append_getElem, List.take_of_length_le (by omega)]
  have hlast : indices.getD 11 0 < 2 ^ 11 := hindices _ hmem
  unfold indicesEntropy
  generalize regroup 11 8 (fun out => out.length < 16) (indices.take 11) = s at hspec
  obtain ⟨hholds, hcount⟩ := hspec
  obtain ⟨hvalue, hbits, hdigits⟩ := hholds
  rw [List.length_take, hlength] at hbits
  have hone : s.count = 1 := by omega
  have hfifteen : s.out.length = 15 := by omega
  generalize indices.getD 11 0 = last at hsplit hlast
  have hbyte : (s.buf * 2 ^ 11 + last) % 2 ^ 32 / 2 ^ 4 % 2 ^ 8 = s.buf % 2 * 2 ^ 7 + last / 2 ^ 4 := by
    omega
  have hlow : (s.buf * 2 ^ 11 + last) % 2 ^ 32 % 2 ^ 4 = last % 2 ^ 4 := by omega
  refine ⟨s.out ++ [s.buf % 2 * 2 ^ 7 + last / 2 ^ 4], last % 2 ^ 4, ?_, ?_, ?_, ?_, ?_⟩
  · simp only [hbyte, hlow, hfifteen, Nat.reduceSub, List.replicate_one]
    rw [List.set_append_right _ _ (by omega), hfifteen]
    rfl
  · rw [List.length_append, hfifteen, List.length_singleton]
  · intro d hd
    rcases List.mem_append.mp hd with hd | hd
    · exact hdigits d hd
    · rw [List.mem_singleton.mp hd]
      omega
  · exact Nat.mod_lt _ (by positivity)
  · rw [hone] at hvalue
    rw [hsplit, value_concat, value_concat, ← hvalue]
    omega

/-- **The twelve numbers are read back.** -/
theorem indicesEntropy_entropyIndices (hlength : entropy.length = 16) (hcs : cs < 16) :
    indicesEntropy (entropyIndices entropy cs) = (entropy, cs) := by
  obtain ⟨htwelve, hindices, hvalue⟩ := entropyIndices_spec hlength hcs
  obtain ⟨ds, cs', heq, hsixteen, hds, hcs', hvalue'⟩ := indicesEntropy_spec htwelve hindices
  rw [hvalue] at hvalue'
  have hchecksum : cs' = cs := by omega
  have hbytes : ds = entropy.map UInt8.toNat := by
    refine value_inj (by omega) (by rw [hsixteen, List.length_map, hlength]) hds ?_ (by omega)
    intro d hd
    obtain ⟨b, -, rfl⟩ := List.mem_map.mp hd
    exact b.toNat_lt
  have hid : (entropy.map UInt8.toNat).map UInt8.ofNat = entropy := by
    rw [List.map_map]
    exact (List.map_congr_left fun b _ => UInt8.ofNat_toNat).trans (List.map_id' entropy)
  rw [heq, hchecksum, hbytes, hid]

end RoundTrip

/-! ## Words -/

/-- What is wrong with a phrase. -/
inductive MnemonicError
  | count
  | unknown (word : String)
  | checksum
  deriving DecidableEq, Repr

/-- The number of a word. -/
def wordIndex (L : WordList) (word : String) : Except MnemonicError ℕ :=
  match L.words.idxOf? word with
  | some i => .ok i
  | none => .error (.unknown word)

/-- The words of sixteen bytes. -/
def phraseWords (L : WordList) (sha256 : Bytes → String) (entropy : Bytes) : List String :=
  (entropyIndices entropy (checksum sha256 entropy)).map fun i => L.words.getD i ""

/-- …and their phrase. -/
def phrase (L : WordList) (sha256 : Bytes → String) (entropy : Bytes) : String :=
  " ".intercalate (phraseWords L sha256 entropy)

/-- The words are twelve, of the list, and have the right checksum. -/
def checkWords (L : WordList) (sha256 : Bytes → String) (words : List String) :
    Except MnemonicError Unit :=
  if words.length ≠ 12 then .error .count
  else do
    let indices ← words.mapM (wordIndex L)
    let (entropy, provided) := indicesEntropy indices
    if provided ≠ checksum sha256 entropy then .error .checksum else .ok ()

section Words

variable {L : WordList} {sha256 : Bytes → String} {entropy : Bytes}

/-- The word of a number of eleven bits. -/
theorem getD_word {i : ℕ} (hi : i < 2 ^ 11) :
    L.words.getD i "" ∈ L.words ∧ wordIndex L (L.words.getD i "") = .ok i := by
  have hlength : i < L.words.length := by
    rw [L.length_words]
    exact hi
  rw [List.getD_eq_getElem _ _ hlength]
  refine ⟨List.getElem_mem _, ?_⟩
  have hindex : L.words.idxOf? L.words[i] = some i := by
    refine List.idxOf?_eq_some_iff.mpr ⟨hlength, rfl, fun j hj => ?_⟩
    exact fun h => hj.ne ((List.Nodup.getElem_inj_iff L.nodup_words).mp h)
  rw [wordIndex, hindex]

theorem length_phraseWords (hlength : entropy.length = 16) :
    (phraseWords L sha256 entropy).length = 12 := by
  rw [phraseWords, List.length_map]
  exact (entropyIndices_spec hlength (checksum_lt sha256 entropy)).1

theorem phraseWords_mem (hlength : entropy.length = 16) :
    ∀ w ∈ phraseWords L sha256 entropy, w ∈ L.words := by
  intro w hw
  obtain ⟨i, hi, rfl⟩ := List.mem_map.mp hw
  exact (getD_word ((entropyIndices_spec hlength (checksum_lt sha256 entropy)).2.1 i hi)).1

/-- The words have the numbers they were chosen by. -/
theorem mapM_wordIndex {indices : List ℕ} (hindices : ∀ i ∈ indices, i < 2 ^ 11) :
    (indices.map fun i => L.words.getD i "").mapM (wordIndex L) = .ok indices := by
  induction indices with
  | nil => rfl
  | cons i indices ih =>
    rw [List.map_cons, List.mapM_cons, (getD_word (hindices i List.mem_cons_self)).2,
      ih fun j hj => hindices j (List.mem_cons_of_mem _ hj)]
    rfl

/-- **A phrase passes the check.** -/
theorem checkWords_phraseWords (hlength : entropy.length = 16) :
    checkWords L sha256 (phraseWords L sha256 entropy) = .ok () := by
  have hcs := checksum_lt sha256 entropy
  rw [checkWords, if_neg (not_not.mpr (length_phraseWords hlength)), phraseWords,
    mapM_wordIndex (entropyIndices_spec hlength hcs).2.1]
  change (if (indicesEntropy _).2 ≠ checksum sha256 (indicesEntropy _).1 then _ else _) = _
  rw [indicesEntropy_entropyIndices hlength hcs, if_neg (not_not.mpr rfl)]

/-- Numbers that words have are theirs only. -/
theorem getD_of_wordIndex {w : String} {i : ℕ} (h : wordIndex L w = .ok i) :
    i < 2 ^ 11 ∧ L.words.getD i "" = w := by
  unfold wordIndex at h
  split at h
  · rename_i j hj
    obtain rfl : j = i := Except.ok.inj h
    obtain ⟨hlength, heq, -⟩ := List.idxOf?_eq_some_iff.mp hj
    refine ⟨hlength.trans_eq L.length_words, ?_⟩
    rw [List.getD_eq_getElem _ _ hlength, heq]
  · cases h

theorem map_getD_of_mapM : ∀ {words : List String} {indices : List ℕ},
    words.mapM (wordIndex L) = .ok indices →
      (∀ i ∈ indices, i < 2 ^ 11) ∧ indices.map (fun i => L.words.getD i "") = words
  | [], indices, h => by
      obtain rfl : [] = indices := Except.ok.inj h
      exact ⟨List.forall_mem_nil _, rfl⟩
  | w :: words, indices, h => by
      rw [List.mapM_cons] at h
      cases hw : wordIndex L w with
      | error e =>
        rw [hw] at h
        cases h
      | ok i =>
        cases hrest : words.mapM (wordIndex L) with
        | error e =>
          rw [hw, hrest] at h
          cases h
        | ok rest =>
          rw [hw, hrest] at h
          obtain rfl : i :: rest = indices := Except.ok.inj h
          obtain ⟨hi, hword⟩ := getD_of_wordIndex hw
          obtain ⟨hindices, hwords⟩ := map_getD_of_mapM hrest
          exact ⟨List.forall_mem_cons.mpr ⟨hi, hindices⟩, by rw [List.map_cons, hword, hwords]⟩

/-- **What passes the check is a phrase.** -/
theorem checkWords_ok_iff {words : List String} : checkWords L sha256 words = .ok () ↔
    ∃ entropy : Entropy, words = phraseWords L sha256 entropy.1 := by
  constructor
  · intro h
    unfold checkWords at h
    split at h
    · cases h
    rename_i hlength
    cases hmap : words.mapM (wordIndex L) with
    | error e =>
      rw [hmap] at h
      cases h
    | ok indices =>
      obtain ⟨hindices, rfl⟩ := map_getD_of_mapM hmap
      rw [List.length_map] at hlength
      obtain ⟨ds, cs, heq, hsixteen, hds, hcs, hvalue⟩ :=
        indicesEntropy_spec (not_not.mp hlength) hindices
      have hbytes : (ds.map UInt8.ofNat).map UInt8.toNat = ds := by
        rw [List.map_map]
        refine (List.map_congr_left fun d hd => ?_).trans (List.map_id' ds)
        exact UInt8.toNat_ofNat_of_lt' (hds d hd)
      have hentropy : (ds.map UInt8.ofNat).length = 16 := by rw [List.length_map, hsixteen]
      -- the checksum that was written is the right one
      have hright : cs = checksum sha256 (ds.map UInt8.ofNat) := by
        by_contra hwrong
        rw [hmap] at h
        change (if (indicesEntropy indices).2 ≠ checksum sha256 (indicesEntropy indices).1 then _
          else _) = _ at h
        rw [heq, if_pos hwrong] at h
        cases h
      refine ⟨⟨_, hentropy⟩, ?_⟩
      obtain ⟨htwelve, hsame, hvalue'⟩ := entropyIndices_spec hentropy hcs
      rw [hbytes, hvalue] at hvalue'
      rw [phraseWords, ← hright, value_inj (by omega)
        (htwelve.trans (not_not.mp hlength).symm) hsame hindices hvalue']
  · rintro ⟨entropy, rfl⟩
    exact checkWords_phraseWords entropy.2

/-- The characters of a phrase. -/
theorem toList_phrase :
    (phrase L sha256 entropy).toList = [' '].intercalate ((phraseWords L sha256 entropy).map String.toList) := by
  rw [phrase, String.toList_intercalate]
  rfl

theorem pieces_phrase (hlength : entropy.length = 16) {p : Char → Bool}
    (hp : ∀ c : Char, c.isLower = true → p c = false) :
    ∀ l ∈ (phraseWords L sha256 entropy).map String.toList, l ≠ [] ∧ ∀ c ∈ l, p c = false := by
  intro l hl
  obtain ⟨w, hw, rfl⟩ := List.mem_map.mp hl
  obtain ⟨hne, hletters⟩ := L.letters w (phraseWords_mem hlength w hw)
  exact ⟨fun h => hne (String.toList_injective h), fun c hc => hp c (hletters c hc)⟩

theorem phraseWords_ne_nil (hlength : entropy.length = 16) :
    (phraseWords L sha256 entropy).map String.toList ≠ [] := by
  intro h
  have htwelve : (phraseWords L sha256 entropy).length = 12 := length_phraseWords hlength
  rw [List.map_eq_nil_iff.mp h] at htwelve
  cases htwelve

/-- **A phrase splits into its words.** -/
theorem splitOnP_phrase (hlength : entropy.length = 16) {p : Char → Bool} (hspace : p ' ' = true)
    (hp : ∀ c : Char, c.isLower = true → p c = false) :
    ((phrase L sha256 entropy).toList.splitOnP p) = (phraseWords L sha256 entropy).map String.toList := by
  rw [toList_phrase]
  exact splitOnP_intercalate hspace (phraseWords_ne_nil hlength) fun l hl =>
    (pieces_phrase hlength hp l hl).2

/-- **A phrase has no space around it.** -/
theorem trim_phrase (hlength : entropy.length = 16) {p : Char → Bool}
    (hp : ∀ c : Char, c.isLower = true → p c = false) :
    trim p (phrase L sha256 entropy) = phrase L sha256 entropy :=
  trim_intercalate (phraseWords_ne_nil hlength) (pieces_phrase hlength hp) toList_phrase

/-- The characters of a phrase are lower-case letters and spaces. -/
theorem phrase_chars (hlength : entropy.length = 16) :
    ∀ c ∈ (phrase L sha256 entropy).toList, c.isLower = true ∨ c = ' ' := by
  intro c hc
  rw [toList_phrase] at hc
  rcases eq_or_mem_of_mem_intercalate hc with hspace | ⟨l, hl, hmem⟩
  · exact Or.inr hspace
  · obtain ⟨w, hw, rfl⟩ := List.mem_map.mp hl
    exact Or.inl ((L.letters w (phraseWords_mem hlength w hw)).2 c hmem)

end Words

/-! ## A list for concrete phrases -/

namespace Sample

def letter (n : ℕ) : Char := Char.ofNat (97 + n)

theorem letter_inj : ∀ m < 26, ∀ n < 26, letter m = letter n → m = n := by decide

theorem isLower_letter : ∀ n < 26, (letter n).isLower = true := by decide

theorem length_zeros : (List.replicate 16 (0 : UInt8)).length = 16 := rfl

/-- Two words of the English list, and three letters for each of the others. -/
def word (i : ℕ) : String :=
  if i = 0 then "abandon"
  else if i = 3 then "about"
  else String.ofList [letter (i / 676 % 26), letter (i / 26 % 26), letter (i % 26)]

theorem length_word {i : ℕ} (h0 : i ≠ 0) (h3 : i ≠ 3) : (word i).length = 3 := by
  rw [word, if_neg h0, if_neg h3, String.length_ofList]
  rfl

theorem word_inj {i j : ℕ} (hi : i < 2048) (hj : j < 2048) (h : word i = word j) : i = j := by
  have hlength : (word i).length = (word j).length := congrArg String.length h
  by_cases hi' : i = 0 ∨ i = 3
  · by_cases hj' : j = 0 ∨ j = 3
    · rcases hi' with rfl | rfl <;> rcases hj' with rfl | rfl <;> first | rfl | exact absurd h (by decide)
    · obtain ⟨hj0, hj3⟩ := not_or.mp hj'
      rw [length_word hj0 hj3] at hlength
      rcases hi' with rfl | rfl <;> exact absurd hlength (by decide)
  · obtain ⟨hi0, hi3⟩ := not_or.mp hi'
    by_cases hj' : j = 0 ∨ j = 3
    · rw [length_word hi0 hi3] at hlength
      rcases hj' with rfl | rfl <;> exact absurd hlength (by decide)
    · obtain ⟨hj0, hj3⟩ := not_or.mp hj'
      rw [word, word, if_neg hi0, if_neg hi3, if_neg hj0, if_neg hj3] at h
      have hletters := String.ofList_injective h
      simp only [List.cons.injEq, and_true] at hletters
      have h1 := letter_inj _ (Nat.mod_lt _ (by omega)) _ (Nat.mod_lt _ (by omega)) hletters.1
      have h2 := letter_inj _ (Nat.mod_lt _ (by omega)) _ (Nat.mod_lt _ (by omega)) hletters.2.1
      have h3 := letter_inj _ (Nat.mod_lt _ (by omega)) _ (Nat.mod_lt _ (by omega)) hletters.2.2
      omega

def wordList : WordList where
  words := (List.range 2048).map word
  length_words := by rw [List.length_map, List.length_range]
  nodup_words := by
    refine List.Nodup.map_on (fun i hi j hj h => ?_) List.nodup_range
    exact word_inj (List.mem_range.mp hi) (List.mem_range.mp hj) h
  letters w hw := by
    obtain ⟨i, -, rfl⟩ := List.mem_map.mp hw
    rw [word]
    split
    · exact ⟨by decide, List.all_eq_true.mp (by decide)⟩
    · split
      · exact ⟨by decide, List.all_eq_true.mp (by decide)⟩
      · refine ⟨fun h => ?_, fun c hc => ?_⟩
        · have hlength := congrArg String.length h
          rw [String.length_ofList] at hlength
          cases hlength
        · rw [String.toList_ofList] at hc
          simp only [List.mem_cons, List.not_mem_nil, or_false] at hc
          rcases hc with rfl | rfl | rfl <;> exact isLower_letter _ (Nat.mod_lt _ (by omega))

theorem getD_wordList {i : ℕ} (hi : i < 2048) : wordList.words.getD i "" = word i := by
  have hlength : i < wordList.words.length := hi.trans_eq wordList.length_words.symm
  rw [List.getD_eq_getElem _ _ hlength]
  simp [wordList]

end Sample

end Pcos.Mnemonic
