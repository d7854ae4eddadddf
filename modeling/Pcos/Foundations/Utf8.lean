import Pcos.Foundations.Digest

/-!
# Foundations/Utf8 — texts as bytes

`encodeUtf8` writes a text and `decodeUtf8` reads it; what is not UTF-8 is not read.
`fromUtf8Lossy` puts a replacement character where it is not, for each piece that no character
begins with.
-/

namespace Foundations

/-- A text in UTF-8. -/
def encodeUtf8 (s : String) : Bytes := s.toUTF8.toList

/-- A text that is read of bytes. -/
def decodeUtf8 (bytes : Bytes) : Option String := String.fromUTF8? bytes.toByteArray

theorem loop_toList (bytes : ByteArray) : ∀ (i : ℕ) (r : Bytes),
    ByteArray.toList.loop bytes i r = r.reverse ++ bytes.data.toList.drop i
  | i, r => by
      rw [ByteArray.toList.loop]
      split
      · rename_i hi
        have hi' : i < bytes.data.toList.length := hi
        have hget : bytes.get! i = bytes.data.toList[i] := by
          rw [ByteArray.get!]
          exact getElem!_pos bytes.data i hi
        rw [loop_toList bytes (i + 1), List.reverse_cons, hget,
          List.append_assoc, List.singleton_append, ← List.drop_eq_getElem_cons hi']
      · rename_i hi
        have hlength : bytes.data.toList.length ≤ i := Nat.le_of_not_lt hi
        rw [List.drop_of_length_le hlength, List.append_nil]
  termination_by i => bytes.size - i

theorem toList_eq (bytes : ByteArray) : bytes.toList = bytes.data.toList :=
  loop_toList bytes 0 []

theorem length_encodeUtf8 (s : String) : (encodeUtf8 s).length = s.utf8ByteSize := by
  rw [encodeUtf8, toList_eq]
  rfl

/-- **A text is known by its bytes.** -/
theorem encodeUtf8_injective : Function.Injective encodeUtf8 := by
  intro s s' h
  rw [encodeUtf8, encodeUtf8, toList_eq, toList_eq] at h
  exact String.toByteArray_inj.mp (ByteArray.ext (Array.ext' h))

/-- **What is written is read back.** -/
theorem decodeUtf8_encodeUtf8 (s : String) : decodeUtf8 (encodeUtf8 s) = some s := by
  have hbytes : (encodeUtf8 s).toByteArray = s.toUTF8 := by
    refine ByteArray.ext (Array.ext' ?_)
    rw [List.toList_data_toByteArray, encodeUtf8, toList_eq]
  rw [decodeUtf8, hbytes, String.fromUTF8?, String.toUTF8_eq_toByteArray, dif_pos s.isValidUTF8]
  rfl

/-! ## Reading with replacements -/

def isContinuation (b : UInt8) : Bool := 0x80 ≤ b && b ≤ 0xBF

/-- Some character of three or four bytes begins with these two. -/
def beginsLong (b c : UInt8) : Bool :=
  (b = 0xE0 && 0xA0 ≤ c && c ≤ 0xBF) || (b = 0xED && 0x80 ≤ c && c ≤ 0x9F)
    || (b = 0xF0 && 0x90 ≤ c && c ≤ 0xBF) || (b = 0xF4 && 0x80 ≤ c && c ≤ 0x8F)
    || (0xE1 ≤ b && b ≤ 0xF3 && b ≠ 0xED && b ≠ 0xF0 && isContinuation c)

/-- How many bytes after one that begins no character are replaced along with it. -/
def replacedWith (b : UInt8) : Bytes → ℕ
  | c :: d :: _ => if beginsLong b c then if 0xF0 ≤ b && isContinuation d then 2 else 1 else 0
  | [c] => if beginsLong b c then 1 else 0
  | [] => 0

/-- The characters of bytes, `U+FFFD` for what is not UTF-8. -/
def lossyChars : Bytes → List Char
  | [] => []
  | b :: rest =>
    match (b :: rest).toByteArray.utf8DecodeChar? 0 with
    | some c => c :: lossyChars (rest.drop (c.utf8Size - 1))
    | none => '\uFFFD' :: lossyChars (rest.drop (replacedWith b rest))
termination_by bytes => bytes.length
decreasing_by
  all_goals
    rw [List.length_drop, List.length_cons]
    omega

def fromUtf8Lossy (bytes : Bytes) : String := String.ofList (lossyChars bytes)

theorem encodeUtf8_ofList (cs : List Char) :
    encodeUtf8 (String.ofList cs) = cs.flatMap String.utf8EncodeChar := by
  rw [encodeUtf8, toList_eq]
  exact List.toList_data_toByteArray

theorem lossyChars_append (c : Char) (bytes : Bytes) :
    lossyChars (String.utf8EncodeChar c ++ bytes) = c :: lossyChars bytes := by
  have hlength : (String.utf8EncodeChar c).length = c.utf8Size := String.length_utf8EncodeChar c
  obtain ⟨b, rest, hc⟩ := List.exists_cons_of_length_pos (hlength ▸ Char.utf8Size_pos c)
  have hdecode : (b :: (rest ++ bytes)).toByteArray.utf8DecodeChar? 0 = some c := by
    rw [← List.cons_append, ← hc, List.toByteArray_append]
    exact ByteArray.utf8DecodeChar?_utf8EncodeChar_append
  have hrest : rest.length = c.utf8Size - 1 := by
    rw [← hlength, hc, List.length_cons, Nat.add_sub_cancel]
  rw [hc, List.cons_append, lossyChars, hdecode]
  exact congrArg _ (congrArg _ (List.drop_left' hrest))

/-- **UTF-8 is read as it is.** -/
theorem fromUtf8Lossy_encodeUtf8 (s : String) : fromUtf8Lossy (encodeUtf8 s) = s := by
  obtain ⟨cs, rfl⟩ : ∃ cs, s = String.ofList cs := ⟨s.toList, (String.ofList_toList).symm⟩
  rw [fromUtf8Lossy, encodeUtf8_ofList]
  congr 1
  induction cs with
  | nil => rw [List.flatMap_nil, lossyChars]
  | cons c cs ih => rw [List.flatMap_cons, lossyChars_append, ih]

end Foundations
