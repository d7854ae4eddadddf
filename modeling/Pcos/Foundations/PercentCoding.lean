import Mathlib.Data.Nat.Notation

/-!
# Foundations/PercentCoding — percent-encoded text

`%` and two hexadecimal digits stand for a byte; everything else, a `%` without them included,
stands for its UTF-8 encoding.  A text without such triples stands for itself
(`percentBytes_of_hasEscape`), and no other text does; it stands for fewer characters than it has
(`leads_percentBytes_lt`).
-/

namespace Foundations

/-- The value of a hexadecimal digit. -/
def hexDigit (c : Char) : Option ℕ :=
  if '0' ≤ c ∧ c ≤ '9' then some (c.toNat - 48)
  else if 'a' ≤ c ∧ c ≤ 'f' then some (c.toNat - 87)
  else if 'A' ≤ c ∧ c ≤ 'F' then some (c.toNat - 55)
  else none

/-- The byte that three characters stand for. -/
def escapedByte (c h l : Char) : Option UInt8 :=
  if c = '%' then (hexDigit h).bind fun hi => (hexDigit l).map fun lo => UInt8.ofNat (16 * hi + lo)
  else none

/-- The UTF-8 encoding. -/
def utf8 (cs : List Char) : List UInt8 := cs.flatMap String.utf8EncodeChar

/-- The bytes of a percent-encoded text. -/
def percentBytes : List Char → List UInt8
  | c :: h :: l :: cs =>
    match escapedByte c h l with
    | some b => b :: percentBytes cs
    | none => String.utf8EncodeChar c ++ percentBytes (h :: l :: cs)
  | cs => utf8 cs

/-- Somewhere in the text three characters stand for a byte. -/
def hasEscape : List Char → Bool
  | c :: h :: l :: cs => (escapedByte c h l).isSome || hasEscape (h :: l :: cs)
  | _ => false

theorem utf8_cons (c : Char) (cs : List Char) :
    utf8 (c :: cs) = String.utf8EncodeChar c ++ utf8 cs :=
  List.flatMap_cons

theorem utf8_injective : Function.Injective utf8 := by
  intro cs ds h
  refine String.ofList_injective (String.toByteArray_inj.mp ?_)
  exact congrArg List.toByteArray h

/-! ## Characters counted by their first bytes -/

/-- The number of bytes that begin a character. -/
def leads (bs : List UInt8) : ℕ := bs.countP fun b => b.IsUTF8FirstByte

theorem leads_append (as bs : List UInt8) : leads (as ++ bs) = leads as + leads bs :=
  List.countP_append

theorem leads_cons_le (b : UInt8) (bs : List UInt8) : leads (b :: bs) ≤ 1 + leads bs := by
  rw [leads, List.countP_cons, leads]
  split
  · omega
  · omega

/-- A character has one first byte. -/
theorem leads_utf8EncodeChar (c : Char) : leads (String.utf8EncodeChar c) = 1 := by
  have hfirst : ∀ i (hi : i < (String.utf8EncodeChar c).length),
      (String.utf8EncodeChar c)[i].IsUTF8FirstByte ↔ i = 0 :=
    fun i hi => UInt8.isUTF8FirstByte_getElem_utf8EncodeChar
  have hne : String.utf8EncodeChar c ≠ [] := by
    rw [← List.length_pos_iff, String.length_utf8EncodeChar]
    exact Char.utf8Size_pos c
  obtain ⟨b, bs, hb⟩ := List.exists_cons_of_ne_nil hne
  simp only [hb] at hfirst ⊢
  have hrest : bs.countP (fun b => b.IsUTF8FirstByte) = 0 := by
    refine List.countP_eq_zero.mpr fun x hx => ?_
    obtain ⟨i, hi, rfl⟩ := List.mem_iff_getElem.mp hx
    have hno := hfirst (i + 1) (Nat.succ_lt_succ hi)
    rw [List.getElem_cons_succ] at hno
    simp [hno]
  have hhead : b.IsUTF8FirstByte := (hfirst 0 (Nat.zero_lt_succ _)).mpr rfl
  rw [leads, List.countP_cons, if_pos (decide_eq_true hhead), hrest]

/-- **A text has as many first bytes as characters.** -/
theorem leads_utf8 (cs : List Char) : leads (utf8 cs) = cs.length := by
  induction cs with
  | nil => rfl
  | cons c cs ih =>
    rw [utf8_cons, leads_append, leads_utf8EncodeChar, ih, List.length_cons, Nat.add_comm]

/-! ## Texts without escapes -/

/-- **A text without escapes stands for itself.** -/
theorem percentBytes_of_hasEscape {cs : List Char} (h : hasEscape cs = false) :
    percentBytes cs = utf8 cs := by
  induction cs using percentBytes.induct with
  | case1 c h' l cs b hb ih =>
    rw [hasEscape, hb] at h
    cases h
  | case2 c h' l cs hb ih =>
    rw [hasEscape, hb] at h
    rw [percentBytes, hb, utf8_cons]
    exact congrArg _ (ih h)
  | case3 cs hcs => rw [percentBytes.eq_2 cs hcs]

/-- Escapes make first bytes fewer. -/
theorem leads_percentBytes_le (cs : List Char) : leads (percentBytes cs) ≤ cs.length := by
  induction cs using percentBytes.induct with
  | case1 c h' l cs b hb ih =>
    have hcons := leads_cons_le b (percentBytes cs)
    rw [percentBytes, hb]
    simp only [List.length_cons]
    omega
  | case2 c h' l cs hb ih =>
    rw [percentBytes, hb]
    simp only [leads_append, leads_utf8EncodeChar, List.length_cons] at ih ⊢
    omega
  | case3 cs hcs => exact Nat.le_of_eq ((congrArg leads (percentBytes.eq_2 cs hcs)).trans
      (leads_utf8 cs))

/-- **…and a text with an escape does not.** -/
theorem leads_percentBytes_lt {cs : List Char} (h : hasEscape cs = true) :
    leads (percentBytes cs) < cs.length := by
  induction cs using percentBytes.induct with
  | case1 c h' l cs b hb ih =>
    have hcons := leads_cons_le b (percentBytes cs)
    have hle := leads_percentBytes_le cs
    rw [percentBytes, hb]
    simp only [List.length_cons]
    omega
  | case2 c h' l cs hb ih =>
    rw [hasEscape, hb] at h
    have hlt := ih h
    rw [percentBytes, hb]
    simp only [leads_append, leads_utf8EncodeChar, List.length_cons] at hlt ⊢
    omega
  | case3 cs hcs =>
    rw [hasEscape.eq_2 cs hcs] at h
    cases h

/-- Text that stands for at least as many characters stands for itself. -/
theorem eq_of_percentBytes {cs ds : List Char} (h : percentBytes cs = utf8 ds)
    (hle : cs.length ≤ ds.length) : hasEscape cs = false ∧ cs = ds := by
  have hleads := congrArg leads h
  rw [leads_utf8] at hleads
  have hescape : hasEscape cs = false := Bool.eq_false_iff.mpr fun he => by
    have hlt := leads_percentBytes_lt he
    omega
  exact ⟨hescape, utf8_injective ((percentBytes_of_hasEscape hescape).symm.trans h)⟩

/-- What begins an escape is a `%`. -/
theorem hasEscape_cons {c : Char} (hc : c ≠ '%') (cs : List Char) :
    hasEscape (c :: cs) = hasEscape cs := by
  match cs with
  | [] => rfl
  | [_] => rfl
  | h :: l :: cs => rw [hasEscape, escapedByte, if_neg hc, Option.isSome_none, Bool.false_or]

example : percentBytes "a%2Fb%".toList = utf8 "a/b%".toList := by decide

end Foundations
