import Pcos.Backend.Resets
import Pcos.Foundations.CaseMapping
import Pcos.Foundations.Utf8

/-!
# Backend/Spelling — one phrase, typed in different ways (`recovery.rs`)

The validator reads the words of a phrase in lower case, whatever white space is between them; the
hash is of the text, trimmed and in lower case.  So a phrase that is accepted is found by its hash
exactly if **the white space between its words is as it was stored**: `hashPhrase_eq_iff`.
-/

namespace Pcos.Auth

open Foundations Mnemonic

/-- What is used of the tables of Unicode: white space has no case, and lower-case letters of ASCII
stay. -/
structure Unicode extends CaseTables where
  keeps : toCaseTables.Keeps isWhiteSpace
  eq_of_mark : ∀ c, '\uFEFF' ∈ lower c → c = '\uFEFF'
  lower_of_isLower : ∀ c : Char, c.isLower = true → lower c = [c]

namespace Unicode

variable (u : Unicode)

/-- A text of lower-case letters of ASCII and spaces stays. -/
theorem toLowercase_eq_self {s : String} (hs : ∀ c ∈ s.toList, c.isLower = true ∨ c = ' ') :
    u.toLowercase s = s := by
  have hself : u.lowerText s.toList = s.toList := u.lowerText_eq_self fun c hc => by
    rcases hs c hc with hlower | rfl
    · exact ⟨ne_of_apply_ne Char.isLower (by rw [hlower]; decide), u.lower_of_isLower c hlower⟩
    · exact ⟨by decide, u.keeps.lower_eq ' ' rfl⟩
  rw [CaseTables.toLowercase, hself, String.ofList_toList]

theorem toLowercase_ofList (w : List Char) :
    u.toLowercase (String.ofList w) = String.ofList (u.lowerText w) := by
  rw [CaseTables.toLowercase, String.toList_ofList]

/-- The words of a text, in lower case. -/
theorem map_splitWhitespace (s : String) : (splitWhitespace s).map u.toLowercase =
    ((words isWhiteSpace s.toList).map u.lowerText).map String.ofList := by
  rw [splitWhitespace, ← words, List.map_map, List.map_map]
  exact List.map_congr_left fun w _ => u.toLowercase_ofList w

/-- They are read back of the text that they are joined to. -/
theorem splitWhitespace_intercalate (s : String) :
    splitWhitespace (" ".intercalate ((splitWhitespace s).map u.toLowercase)) =
      (splitWhitespace s).map u.toLowercase := by
  have hpieces : ∀ l ∈ (words isWhiteSpace s.toList).map u.lowerText,
      l ≠ [] ∧ ∀ c ∈ l, isWhiteSpace c = false := by
    intro l hl
    obtain ⟨w, hw, rfl⟩ := List.mem_map.mp hl
    exact ⟨u.keeps.lowerText_ne_nil (ne_nil_of_mem_words hw),
      u.keeps.not_of_mem_lowerText (not_of_mem_words hw)⟩
  have hback : (((words isWhiteSpace s.toList).map u.lowerText).map String.ofList).map
      String.toList = (words isWhiteSpace s.toList).map u.lowerText := by
    rw [List.map_map]
    exact (List.map_congr_left fun w _ => String.toList_ofList).trans (List.map_id _)
  rw [u.map_splitWhitespace, splitWhitespace, String.toList_intercalate, hback, ← words]
  exact congrArg _ (words_intercalate (show isWhiteSpace ' ' = true from rfl) hpieces)

end Unicode

/-! ## White space -/

/-- The white space between the words of a text, run by run. -/
def spaces (s : String) : List (List Char) := gaps isWhiteSpace (trim isWhiteSpace s).toList

section Texts

variable {u : Unicode} {s s' : String}
  (hwords : (splitWhitespace s).map u.toLowercase = (splitWhitespace s').map u.toLowercase)
include hwords

/-- **Texts of the same words are the same, up to case, if the white space is.** -/
theorem toLowercase_trim_eq_iff :
    u.toLowercase (trim isWhiteSpace s) = u.toLowercase (trim isWhiteSpace s') ↔
      spaces s = spaces s' := by
  rw [u.map_splitWhitespace, u.map_splitWhitespace] at hwords
  have hsame := List.map_injective_iff.mpr (fun _ _ h => String.ofList_injective h) hwords
  constructor
  · intro h
    have htext := congrArg (gaps isWhiteSpace) (congrArg String.toList h)
    rwa [u.toList_toLowercase, u.toList_toLowercase, u.keeps.gaps_lowerText,
      u.keeps.gaps_lowerText] at htext
  · intro h
    have hhead (t : String) := u.keeps.head?_lowerText (head?_trimmed (p := isWhiteSpace) t.toList)
    have htext : u.lowerText (trim isWhiteSpace s).toList =
        u.lowerText (trim isWhiteSpace s').toList := by
      rw [spaces, spaces, toList_trim, toList_trim] at h
      rw [toList_trim, toList_trim]
      refine eq_of_words_of_gaps (hhead s) (hhead s') ?_ ?_
      · rw [u.keeps.words_lowerText, words_trimmed, hsame, u.keeps.words_lowerText, words_trimmed]
      · rw [u.keeps.gaps_lowerText, h, u.keeps.gaps_lowerText]
    rw [CaseTables.toLowercase, CaseTables.toLowercase, htext]

end Texts

/-! ## Phrases -/

theorem mapError_eq_ok {ε ε' α : Type} {x : Except ε α} {f : ε → ε'} {a : α} :
    x.mapError f = .ok a ↔ x = .ok a := by
  cases x <;> simp [Except.mapError]

/-- **A text is accepted if its words, in lower case, are a phrase.** -/
theorem validateBip39Phrase_ok_iff {L : WordList} {x : Crates} {s : String} :
    validateBip39Phrase L x s = .ok () ↔ ∃ entropy : Entropy,
      (splitWhitespace s).map x.toLowercase = phraseWords L x.sha256 entropy.1 := by
  rw [validateBip39Phrase, mapError_eq_ok, checkWords_ok_iff]

/-- The bytes that are hashed of a phrase. -/
def hashedBytes (x : Crates) (s : String) : Bytes :=
  encodeUtf8 (x.toLowercase (trim isWhiteSpace s))

/-- Two texts that are accepted, of the same words up to case. -/
structure Respelled (L : WordList) (x : Crates) (s s' : String) : Prop where
  accepted : validateBip39Phrase L x s = .ok ()
  accepted' : validateBip39Phrase L x s' = .ok ()
  words_eq : (splitWhitespace s).map x.toLowercase = (splitWhitespace s').map x.toLowercase

/-- The user's unused keys are for one hash. -/
structure StoredOnly (a : Accounts) (user : Uuid) (hash : String) : Prop where
  stored : ∃ k ∈ a.keys, k.userId = user ∧ k.isUsed = false
  only : ∀ k ∈ a.keys, k.userId = user → k.isUsed = false → k.recoveryHash = hash

theorem StoredOnly.isSome_unusedKey {a : Accounts} {user : Uuid} {hash : String}
    (h : StoredOnly a user hash) (other : String) :
    (a.unusedKey user other).isSome = true ↔ other = hash := by
  rw [Accounts.unusedKey, List.find?_isSome]
  constructor
  · rintro ⟨k, hk, hfound⟩
    simp only [Bool.and_eq_true, decide_eq_true_eq, Bool.not_eq_true'] at hfound
    exact hfound.1.2.symm.trans (h.only k hk hfound.1.1 hfound.2)
  · rintro rfl
    obtain ⟨k, hk, huser, hunused⟩ := h.stored
    exact ⟨k, hk, by simp [huser, hunused, h.only k hk huser hunused]⟩

/-- **A respelled phrase has the same hash, and is found by it, exactly if the white space between
its words is the same.** -/
theorem hashPhrase_eq_iff {L : WordList} {x : Crates} {u : Unicode}
    (hlower : x.toLowercase = u.toLowercase) {s s' : String} (h : Respelled L x s s')
    (hcollision : x.sha256 (hashedBytes x s) = x.sha256 (hashedBytes x s') →
      hashedBytes x s = hashedBytes x s') :
    (hashPhrase x s = hashPhrase x s' ↔ spaces s = spaces s') ∧
    ∀ (a : Accounts) (user : Uuid), StoredOnly a user (hashPhrase x s') →
      ((a.unusedKey user (hashPhrase x s)).isSome = true ↔ spaces s = spaces s') := by
  have htexts : hashPhrase x s = hashPhrase x s' ↔ spaces s = spaces s' := by
    have hwords := h.words_eq
    rw [hlower] at hwords
    rw [← toLowercase_trim_eq_iff hwords, ← hlower]
    refine ⟨fun heq => ?_, fun heq => ?_⟩
    · exact encodeUtf8_injective (hcollision heq)
    · rw [hashPhrase, hashPhrase, heq]
  exact ⟨htexts, fun a user hstored => (hstored.isSome_unusedKey _).trans htexts⟩

/-! ## Two spaces -/

namespace Typed

open Mnemonic.Sample

/-- Lower case changes letters to letters. -/
theorem toLower_spec (c : Char) : c.toLower = c ∨ c.isUpper = true ∧ c.toLower.isLower = true := by
  unfold Char.toLower
  split
  · rename_i h
    have hrange : 65 ≤ c.val.toNat ∧ c.val.toNat ≤ 90 := by simpa [UInt32.le_iff_toNat_le] using h
    have hnext : (c.val + ('a'.val - 'A'.val)).toNat = c.val.toNat + 32 := by
      rw [UInt32.toNat_add]
      exact Nat.mod_eq_of_lt (by rw [show ('a'.val - 'A'.val).toNat = 32 from rfl]; omega)
    refine Or.inr ⟨isUpper_iff.mpr hrange, isLower_iff.mpr ?_⟩
    rw [Char.toNat, hnext]
    exact ⟨Nat.add_le_add_right hrange.1 32, Nat.add_le_add_right hrange.2 32⟩
  · exact Or.inl rfl

/-- The tables of ASCII. -/
def ascii : Unicode where
  lower c := [c.toLower]
  cased := Char.isAlpha
  caseIgnorable _ := false
  keeps := {
    sigma := by decide
    lower_eq c hc := by
      rcases toLower_spec c with h | ⟨hupper, -⟩
      · exact congrArg (fun d => [d]) h
      · rw [isWhiteSpace_of_isAlpha (isAlpha_iff.mpr (.inl hupper))] at hc
        cases hc
    not_cased c hc := Bool.eq_false_iff.mpr fun h => by
      rw [isWhiteSpace_of_isAlpha h] at hc
      cases hc
    not_ignorable c hc := rfl
    lower_ne_nil c := List.cons_ne_nil _ _
    eq_of_mem_lower c d hd hspace := by
      obtain rfl := List.mem_singleton.mp hd
      rcases toLower_spec c with h | ⟨-, hlower⟩
      · exact h
      · rw [isWhiteSpace_of_isLower hlower] at hspace
        cases hspace }
  eq_of_mark c hc := by
    rcases toLower_spec c with h | ⟨-, hlower⟩
    · exact h.symm.trans (List.mem_singleton.mp hc).symm
    · rw [← List.mem_singleton.mp hc] at hlower
      cases hlower
  lower_of_isLower c hc := congrArg (fun d => [d]) (toLower_of_isLower hc)

/-- A phrase as it is stored, and with a second space after the first word. -/
def stored : String := " ".intercalate (List.replicate 11 "abandon" ++ ["about"])

def spaced : String := "abandon  " ++ " ".intercalate (List.replicate 10 "abandon" ++ ["about"])

/-- The bits of the phrase. -/
def bits : Entropy := ⟨List.replicate 16 0, length_zeros⟩

/-- The digests of the two, by their lengths, and of the bits of the phrase. -/
def crates : Crates :=
  { Noon.crates with
    toLowercase := ascii.toLowercase
    sha256 bytes :=
      if bytes = encodeUtf8 stored then
        "c557eec878dfd852ba3f88087c4f350f09c55537ab5e549c3cd14320ec3cef38"
      else if bytes = bits.1 then "374708fff7719dd5979ec875d56cd2286f6d3cf7ec317a3b25632aab28ec37bb"
      else "b625528ad316f66a93873e3033c84f13d56c2840657bb51d930028d852042358" }


theorem toList_stored :
    stored.toList = [' '].intercalate (List.replicate 11 "abandon".toList ++ ["about".toList]) := by
  rw [stored, String.toList_intercalate]
  rfl

theorem toList_spaced : spaced.toList = "abandon  ".toList ++
    [' '].intercalate (List.replicate 10 "abandon".toList ++ ["about".toList]) := by
  rw [spaced, String.toList_append, String.toList_intercalate]
  rfl

theorem utf8_stored_ne : encodeUtf8 stored ≠ bits.1 := by
  intro h
  have hbytes := decodeUtf8_encodeUtf8 stored
  rw [h] at hbytes
  have hchars := congrArg String.toList (Option.some.inj (hbytes.symm.trans (by rfl :
    decodeUtf8 bits.1 = some (String.ofList (List.replicate 16 (Char.ofNat 0))))))
  rw [toList_stored] at hchars
  revert hchars
  decide

theorem stored_eq : generateBip39Phrase wordList crates bits.1 = stored := by
  have hchecksum : checksum crates.sha256 bits.1 = 3 := by
    rw [checksum, show crates.sha256 bits.1 =
        "374708fff7719dd5979ec875d56cd2286f6d3cf7ec317a3b25632aab28ec37bb" from
      (if_neg utf8_stored_ne.symm).trans (if_pos rfl)]
    decide
  have hindices : entropyIndices bits.1 3 = List.replicate 11 0 ++ [3] := by decide +kernel
  rw [generateBip39Phrase, phrase, phraseWords, hchecksum, hindices, List.map_append,
    List.map_replicate, List.map_singleton, getD_wordList (by decide), getD_wordList (by decide)]
  rfl

theorem words_spaced : words isWhiteSpace spaced.toList = words isWhiteSpace stored.toList := by
  rw [toList_spaced, toList_stored]
  decide

theorem spaces_ne : spaces spaced ≠ spaces stored := by
  rw [spaces, spaces, toList_trim, toList_trim, toList_spaced, toList_stored]
  decide

theorem keepsLowercase : KeepsLowercase crates := fun _ hs => ascii.toLowercase_eq_self hs

theorem respelled_spaced : Respelled wordList crates spaced stored := by
  have haccepted : validateBip39Phrase wordList crates stored = .ok () :=
    stored_eq ▸ validateBip39Phrase_phrase keepsLowercase bits
  have hwords : (splitWhitespace spaced).map crates.toLowercase =
      (splitWhitespace stored).map crates.toLowercase := by
    rw [show crates.toLowercase = ascii.toLowercase from rfl, ascii.map_splitWhitespace,
      words_spaced, ← ascii.map_splitWhitespace]
  refine ⟨?_, haccepted, hwords⟩
  rw [validateBip39Phrase, hwords]
  exact haccepted

theorem hashedBytes_stored : hashedBytes crates stored = encodeUtf8 stored := by
  have htrim : trim isWhiteSpace stored = stored :=
    stored_eq ▸ trim_phrase bits.2 fun _ hc => isWhiteSpace_of_isLower hc
  have hlower : crates.toLowercase stored = stored :=
    keepsLowercase stored (stored_eq ▸ phrase_chars bits.2)
  rw [hashedBytes, htrim, hlower]

theorem sha256_ne :
    crates.sha256 (hashedBytes crates spaced) ≠ crates.sha256 (hashedBytes crates stored) := by
  have htexts : hashedBytes crates spaced ≠ encodeUtf8 stored := fun h =>
    spaces_ne ((toLowercase_trim_eq_iff (u := ascii) respelled_spaced.words_eq).mp
      (encodeUtf8_injective (h.trans hashedBytes_stored.symm)))
  rw [hashedBytes_stored, show crates.sha256 (encodeUtf8 stored) = _ from if_pos rfl,
    show crates.sha256 (hashedBytes crates spaced) = _ from if_neg htexts]
  split <;> decide

/-- A second space makes another phrase of it… -/
theorem not_hashPhrase_respelled : Respelled wordList crates spaced stored ∧
    hashPhrase crates spaced ≠ hashPhrase crates stored :=
  ⟨respelled_spaced, sha256_ne⟩

/-- …and it is not found. -/
theorem hashPhrase_spaced :
    (hashPhrase crates spaced = hashPhrase crates stored ↔ spaces spaced = spaces stored) ∧
    ∀ (a : Accounts) (user : Uuid), StoredOnly a user (hashPhrase crates stored) →
      ((a.unusedKey user (hashPhrase crates spaced)).isSome = true ↔
        spaces spaced = spaces stored) :=
  hashPhrase_eq_iff (u := ascii) rfl respelled_spaced fun h => absurd h sha256_ne

end Typed

end Pcos.Auth
