import Pcos.Backend.Spelling
import Pcos.Edge.Challenge
import Pcos.Edge.Recovery
import Pcos.Foundations.SignedRegroup

/-!
# Edge/Mnemonic — the phrases of the edge are those of the backend (`services/bip39.ts`)

The edge regroups bits in numbers of 32 bits with a sign, and puts a phrase in lower case before it
splits it.  It generates the same phrases, and **accepts the same texts** where white space is that
of ASCII: those whose words are the phrase of some sixteen bytes (`bip39_codec`).
-/

namespace Pcos.Edge.Bip39

open Foundations Regroup Mnemonic Accounts

/-! ## The edge's functions -/

/-- The twelve numbers of sixteen bytes and a checksum. -/
def entropyIndices (entropy : Bytes) (checksum : ℕ) : List ℕ :=
  let s := signedRegroup 8 11 (fun _ => true) (entropy.map UInt8.toNat)
  let bitBuffer := shiftLeft s.buf 4 ||| BitVec.ofNat 32 checksum
  s.out ++ [(bitBuffer &&& 0x7ff).toNat]

/-- The sixteen bytes of twelve numbers, and their checksum. -/
def indicesEntropy (indices : List ℕ) : Bytes × ℕ :=
  let s := signedRegroup 11 8 (fun out => out.length < 16) (indices.take 11)
  let bitBuffer := shiftLeft s.buf 11 ||| BitVec.ofNat 32 (indices.getD 11 0)
  (((s.out ++ List.replicate (16 - s.out.length) 0).set 15
    (shiftRight bitBuffer 4 &&& 0xff).toNat).map UInt8.ofNat, (bitBuffer &&& 0x0f).toNat)

section Functions

variable (L : WordList) (p : Platform)

/-- Generate a phrase of 128 bits. -/
def generateBip39Mnemonic (entropy : Bytes) : Except String String :=
  if entropy.length ≠ 16 then
    .error "BIP-39 12-word phrase requires exactly 16 bytes (128 bits) of entropy"
  else
    let indices := entropyIndices entropy (checksum p.sha256 entropy)
    .ok (" ".intercalate (indices.map fun idx => L.words.getD idx ""))

def validateBip39Mnemonic (phrase : String) : Except String Unit :=
  let words := splitSpaces (Accounts.normalize p phrase)
  if words.length ≠ 12 then .error (bip39Message .count)
  else do
    let indices ← (words.mapM (wordIndex L)).mapError bip39Message
    let (entropy, providedChecksum) := indicesEntropy indices
    if providedChecksum ≠ checksum p.sha256 entropy then .error (bip39Message .checksum) else .ok ()

end Functions

/-! ## The signs do not matter -/

/-- A mask without shift. -/
theorem toNat_and {x : BitVec 32} {b : ℕ} (hb : b ≤ 32) :
    (x &&& BitVec.ofNat 32 (2 ^ b - 1)).toNat = x.toNat % 2 ^ b := by
  have hshift : shiftRight x 0 = x := BitVec.sshiftRight_zero
  have hbits := toNat_shiftRight_and (x := x) (k := 0) (by omega) (by omega : 0 + b ≤ 32)
  rwa [hshift, pow_zero, Nat.div_one] at hbits

theorem entropyIndices_eq (entropy : Bytes) {cs : ℕ} (hcs : cs < 2 ^ 4) :
    entropyIndices entropy cs = Mnemonic.entropyIndices entropy cs := by
  have hbytes : ∀ d ∈ entropy.map UInt8.toNat, d < 2 ^ 8 := by
    intro d hd
    obtain ⟨b, -, rfl⟩ := List.mem_map.mp hd
    exact b.toNat_lt
  have hsame := @toBuffer_signedRegroup 8 11 (fun _ => true) (by omega) (by omega) (by omega) _
    hbytes fun _ _ => rfl
  have hlast (x : BitVec 32) : (shiftLeft x 4 ||| BitVec.ofNat 32 cs) &&& 0x7ff =
      (shiftLeft x 4 ||| BitVec.ofNat 32 cs) &&& BitVec.ofNat 32 (2 ^ 11 - 1) := rfl
  rw [entropyIndices, Mnemonic.entropyIndices, ← hsame]
  dsimp only [SignedBuffer.toBuffer]
  rw [hlast, toNat_and (by omega), toNat_shiftLeft_or (by omega) hcs]

theorem indicesEntropy_eq {indices : List ℕ} (hlength : indices.length = 12)
    (hindices : ∀ i ∈ indices, i < 2 ^ 11) :
    indicesEntropy indices = Mnemonic.indicesEntropy indices := by
  have htake : ∀ i ∈ indices.take 11, i < 2 ^ 11 := fun i hi => hindices i (List.mem_of_mem_take hi)
  have hsame := @toBuffer_signedRegroup 11 8 (fun out => out.length < 16) (by omega) (by omega)
    (by omega) _ htake fun out hout => by
      rw [List.length_take, hlength] at hout
      exact decide_eq_true (by omega)
  have hlast : indices.getD 11 0 < 2 ^ 11 := by
    rw [List.getD_eq_getElem _ _ (by omega)]
    exact hindices _ (List.getElem_mem _)
  have hbyte (x : BitVec 32) : shiftRight x 4 &&& 0xff =
      shiftRight x 4 &&& BitVec.ofNat 32 (2 ^ 8 - 1) := rfl
  have hlow (x : BitVec 32) : x &&& 0x0f = x &&& BitVec.ofNat 32 (2 ^ 4 - 1) := rfl
  rw [indicesEntropy, Mnemonic.indicesEntropy, ← hsame]
  dsimp only [SignedBuffer.toBuffer]
  rw [hbyte, toNat_shiftRight_and (by omega) (by omega), hlow, toNat_and (by omega),
    toNat_shiftLeft_or (by omega) hlast]

section Same

variable {L : WordList} {p : Platform}

/-- **The phrases are the same**… -/
theorem generateBip39Mnemonic_eq (entropy : Entropy) :
    generateBip39Mnemonic L p entropy.1 = .ok (phrase L p.sha256 entropy.1) := by
  rw [generateBip39Mnemonic, if_neg (not_not.mpr entropy.2),
    entropyIndices_eq _ (checksum_lt p.sha256 entropy.1)]
  rfl

/-- …and **the checks** are. -/
theorem validateBip39Mnemonic_eq (text : String) : validateBip39Mnemonic L p text =
    (checkWords L p.sha256 (splitSpaces (Accounts.normalize p text))).mapError bip39Message := by
  rw [validateBip39Mnemonic, checkWords]
  generalize splitSpaces (Accounts.normalize p text) = words
  dsimp only
  split
  · rfl
  rename_i hlength
  cases hmap : words.mapM (wordIndex L) with
  | error e => rfl
  | ok indices =>
    obtain ⟨hindices, rfl⟩ := map_getD_of_mapM hmap
    rw [List.length_map] at hlength
    change (if (indicesEntropy indices).2 ≠ checksum p.sha256 (indicesEntropy indices).1 then _
      else _) = Except.mapError bip39Message (if (Mnemonic.indicesEntropy indices).2 ≠
        checksum p.sha256 (Mnemonic.indicesEntropy indices).1 then _ else _)
    rw [indicesEntropy_eq (not_not.mp hlength) hindices]
    split <;> rfl

theorem validateBip39Mnemonic_ok_iff {text : String} : validateBip39Mnemonic L p text = .ok () ↔
    checkWords L p.sha256 (splitSpaces (Accounts.normalize p text)) = .ok () := by
  rw [validateBip39Mnemonic_eq, Auth.mapError_eq_ok]

end Same

/-! ## The texts are split in the same way -/

/-- The text has no white space but that of ASCII. -/
def SpacesAreAscii (s : String) : Prop :=
  ∀ c ∈ s.toList, isWhiteSpace c = true ∨ isSpace c = true → c.toNat < 128

/-- The text has no character that only one server takes for white space. -/
def IsPlain (l : List Char) : Prop := ∀ c ∈ l, c ≠ '\u0085' ∧ c ≠ '\uFEFF'

theorem IsPlain.isSpace_eq {l : List Char} (hl : IsPlain l) :
    ∀ c ∈ l, isSpace c = isWhiteSpace c := by
  intro c hc
  rw [isSpace, decide_eq_true (hl c hc).1, decide_eq_false (hl c hc).2, Bool.and_true,
    Bool.or_false]

/-- In lower case it has none either. -/
theorem IsPlain.lowerText {u : Auth.Unicode} {l : List Char} (hl : IsPlain l) :
    IsPlain (u.lowerText l) := by
  intro d hd
  rcases u.mem_lowerFrom hd with (rfl | rfl) | ⟨c, hc, hd⟩
  · decide
  · decide
  · exact ⟨by rintro rfl; exact (hl c hc).1 (u.keeps.eq_of_mem_lower c _ hd rfl).symm,
      by rintro rfl; exact (hl c hc).2 (u.eq_of_mark c hd)⟩

theorem SpacesAreAscii.isPlain {s : String} (hs : SpacesAreAscii s) : IsPlain s.toList :=
  fun c hc => ⟨by rintro rfl; exact absurd (hs _ hc (Or.inl rfl)) (by decide),
    by rintro rfl; exact absurd (hs _ hc (Or.inr rfl)) (by decide)⟩

/-- Of the empty pieces only those at the ends would be there. -/
theorem splitSpaces_of_trimmed {s : String} (hne : s.toList ≠ [])
    (hhead : ∀ c ∈ s.toList.head?, isSpace c = false)
    (hlast : ∀ c ∈ s.toList.getLast?, isSpace c = false) :
    splitSpaces s = (words isSpace s.toList).map String.ofList := by
  have hfirst := head?_splitOnP_ne hne hhead
  have hend := getLast?_splitOnP_ne hne hlast
  rw [words]
  unfold splitSpaces
  split
  · rename_i hnil
    exact absurd hnil (List.splitOnP_ne_nil _ _)
  · rename_i piece hone
    rw [hone] at hfirst ⊢
    rw [List.filter_singleton, decide_eq_true (hfirst piece rfl)]
    rfl
  · rename_i first rest hrest hcons
    rw [hcons] at hfirst hend ⊢
    rw [List.getLast?_cons_of_ne_nil hrest] at hend
    have hlast := hend _ (List.getLast?_eq_some_getLast hrest)
    have hkept : rest.filter (· ≠ []) = rest.dropLast.filter (· ≠ []) ++ rest.getLast?.toList := by
      conv_lhs => rw [← List.dropLast_append_getLast hrest]
      rw [List.filter_append, List.filter_singleton, decide_eq_true hlast,
        List.getLast?_eq_some_getLast hrest]
      rfl
    rw [List.filter_cons, if_pos (decide_eq_true (hfirst first rfl)), hkept, List.cons_append]

section Split

variable {L : WordList} {x : Auth.Crates} {p : Platform} {u : Auth.Unicode}

/-- **The edge splits a text into the backend's words**; only the empty text has one. -/
theorem splitSpaces_normalize (hp : p.toLowerCase = u.toLowercase) {s : String}
    (hs : SpacesAreAscii s) :
    splitSpaces (Accounts.normalize p s) = (Auth.splitWhitespace s).map u.toLowercase ∨
      splitSpaces (Accounts.normalize p s) = [""] ∧ Auth.splitWhitespace s = [] := by
  have htrim : trim isSpace s = trim isWhiteSpace s := trim_congr hs.isPlain.isSpace_eq
  have hwords : words isWhiteSpace (trim isWhiteSpace s).toList = words isWhiteSpace s.toList := by
    rw [toList_trim, words_trimmed]
  rw [Accounts.normalize, hp, htrim]
  by_cases hne : (trim isWhiteSpace s).toList = []
  · refine Or.inr ⟨?_, ?_⟩
    · rw [CaseTables.toLowercase, hne]
      rfl
    · rw [Auth.splitWhitespace, ← words, ← hwords, hne, words_nil, List.map_nil]
  · have hsub : IsPlain (trim isWhiteSpace s).toList := fun c hc => hs.isPlain c (by
      rw [toList_trim] at hc
      exact (List.dropWhile_suffix _).subset ((List.rdropWhile_prefix _ _).subset hc))
    have hspace := (hsub.lowerText (u := u)).isSpace_eq
    have hhead := u.keeps.head?_lowerText (head?_trimmed (p := isWhiteSpace) s.toList)
    have hlast := u.keeps.getLast?_lowerText (getLast?_trimmed (p := isWhiteSpace) s.toList)
    rw [← toList_trim] at hhead hlast
    left
    rw [splitSpaces_of_trimmed, u.toList_toLowercase, words, splitOnP_congr hspace, ← words,
      u.keeps.words_lowerText, hwords, ← u.map_splitWhitespace]
    · rw [u.toList_toLowercase]
      exact u.keeps.lowerText_ne_nil hne
    · intro c hc
      rw [u.toList_toLowercase] at hc
      rw [hspace c (List.mem_of_mem_head? hc), hhead c hc]
    · intro c hc
      rw [u.toList_toLowercase] at hc
      rw [hspace c (List.mem_of_getLast? hc), hlast c hc]

/-- **The servers accept the same texts.** -/
theorem validateBip39_iff (hx : x.toLowercase = u.toLowercase) (hp : p.toLowerCase = u.toLowercase)
    (hsha : p.sha256 = x.sha256) {s : String} (hs : SpacesAreAscii s) :
    validateBip39Mnemonic L p s = .ok () ↔ Auth.validateBip39Phrase L x s = .ok () := by
  rw [validateBip39Mnemonic_ok_iff, Auth.validateBip39Phrase, Auth.mapError_eq_ok, hsha, hx]
  rcases splitSpaces_normalize hp hs with h | ⟨hedge, hbackend⟩
  · rw [h]
  · rw [hedge, hbackend]
    exact Iff.rfl

/-- **The phrases of sixteen bytes are twelve words of the list, and what is accepted has the words
of one**; on either server. -/
theorem bip39_codec (hx : x.toLowercase = u.toLowercase) (hp : p.toLowerCase = u.toLowercase)
    (hsha : p.sha256 = x.sha256) :
    (∀ entropy : Entropy,
      (Auth.splitWhitespace (Auth.generateBip39Phrase L x entropy.1)).length = 12 ∧
      (∀ w ∈ Auth.splitWhitespace (Auth.generateBip39Phrase L x entropy.1), w ∈ L.words) ∧
      Auth.validateBip39Phrase L x (Auth.generateBip39Phrase L x entropy.1) = .ok ()) ∧
    (∀ s, Auth.validateBip39Phrase L x s = .ok () ↔ ∃ entropy : Entropy,
      " ".intercalate ((Auth.splitWhitespace s).map x.toLowercase) =
        Auth.generateBip39Phrase L x entropy.1) ∧
    (∀ entropy : Entropy,
      generateBip39Mnemonic L p entropy.1 = .ok (Auth.generateBip39Phrase L x entropy.1)) ∧
    ∀ s, SpacesAreAscii s →
      (validateBip39Mnemonic L p s = .ok () ↔ Auth.validateBip39Phrase L x s = .ok ()) := by
  have hkeeps : Auth.KeepsLowercase x := fun s hs => by rw [hx, u.toLowercase_eq_self hs]
  refine ⟨fun entropy => ⟨?_, ?_, Auth.validateBip39Phrase_phrase hkeeps entropy⟩, fun s => ?_,
    fun entropy => ?_, fun s hs => validateBip39_iff hx hp hsha hs⟩
  · rw [Auth.splitWhitespace_phrase]
    exact length_phraseWords entropy.2
  · rw [Auth.splitWhitespace_phrase]
    exact phraseWords_mem entropy.2
  · rw [Auth.validateBip39Phrase_ok_iff]
    refine exists_congr fun entropy => ⟨fun h => by rw [h]; rfl, fun h => ?_⟩
    have hsplit := congrArg Auth.splitWhitespace h
    rwa [Auth.splitWhitespace_phrase, hx, u.splitWhitespace_intercalate, ← hx] at hsplit
  · rw [generateBip39Mnemonic_eq, hsha]
    rfl

end Split

namespace Typed

open Auth.Typed Mnemonic.Sample

def platform : Platform :=
  { Noon.platform with
    toLowerCase := ascii.toLowercase
    sha256 := crates.sha256 }

/-- Two spaces in a row are nothing to either server. -/
theorem bip39_codec_spaced : validateBip39Mnemonic wordList platform spaced = .ok () ↔
    Auth.validateBip39Phrase wordList crates spaced = .ok () :=
  (bip39_codec (u := ascii) rfl rfl rfl).2.2.2 spaced (by
    rw [SpacesAreAscii, toList_spaced]
    exact forall_mem_of_all (by decide))

end Typed

end Pcos.Edge.Bip39
