import Mathlib.Data.List.Basic
import Mathlib.Data.Nat.Notation

/-!
# Foundations/ByteRange — one byte range, as a text and as positions

    bytes=first-last │ bytes=first- │ bytes=-length     (RFC 7233, section 2.1)

A spec is written with decimal numbers of any length.  `positions` are the first and the last byte
it stands for in a representation of some size, and `resolve` gives them if there are such bytes.
-/

namespace Foundations

/-- A decimal number as it is written, `1*DIGIT`. -/
structure Digits where
  chars : List Char
  ne_nil : chars ≠ []
  isDigit : ∀ c ∈ chars, c.isDigit = true

/-- The number. -/
def Digits.value (d : Digits) : ℕ := Nat.ofDigitChars 10 d.chars 0

theorem Digits.forall_ne (d : Digits) {c : Char} (hc : c.isDigit = false) : c ∉ d.chars :=
  fun hmem => Bool.false_ne_true (hc.symm.trans (d.isDigit c hmem))

inductive RangeSpec
  | span (first last : Digits)
  | openEnd (first : Digits)
  | suffix (length : Digits)

namespace RangeSpec

/-- What stands before the hyphen, and after it. -/
def before : RangeSpec → List Char
  | span first _ => first.chars
  | openEnd first => first.chars
  | suffix _ => []

def after : RangeSpec → List Char
  | span _ last => last.chars
  | openEnd _ => []
  | suffix length => length.chars

/-- The `Range` header. -/
def text (spec : RangeSpec) : String :=
  String.ofList ("bytes=".toList ++ (spec.before ++ '-' :: spec.after))

/-- A last byte that is before the first makes the spec invalid. -/
def Valid : RangeSpec → Prop
  | span first last => first.value ≤ last.value
  | openEnd _ => True
  | suffix _ => True

instance Valid.decidable : ∀ spec : RangeSpec, Decidable spec.Valid
  | span first last => Nat.decLe first.value last.value
  | openEnd _ => isTrue trivial
  | suffix _ => isTrue trivial

/-- There is a byte at the first position, or the suffix is not of length zero. -/
def Satisfiable (size : ℕ) : RangeSpec → Prop
  | span first _ => first.value < size
  | openEnd first => first.value < size
  | suffix length => length.value ≠ 0

instance Satisfiable.decidable (size : ℕ) : ∀ spec : RangeSpec, Decidable (spec.Satisfiable size)
  | span first _ => Nat.decLt first.value size
  | openEnd first => Nat.decLt first.value size
  | suffix length => inferInstanceAs (Decidable (length.value ≠ 0))

/-- The first and the last position, in a representation of this size. -/
def positions (size : ℕ) : RangeSpec → ℕ × ℕ
  | span first last => (first.value, min last.value (size - 1))
  | openEnd first => (first.value, size - 1)
  | suffix length => (size - length.value, size - 1)

/-- **The bytes that the spec asks for**, if there are any. -/
def resolve (size : ℕ) (spec : RangeSpec) : Option (ℕ × ℕ) :=
  if 0 < size ∧ spec.Satisfiable size then some (spec.positions size) else none

theorem resolve_eq_some {size : ℕ} {spec : RangeSpec} (hsize : 0 < size)
    (h : spec.Satisfiable size) : spec.resolve size = some (spec.positions size) := if_pos ⟨hsize, h⟩

theorem resolve_eq_none {size : ℕ} {spec : RangeSpec} (h : 0 < size → ¬ spec.Satisfiable size) :
    spec.resolve size = none := if_neg fun hboth => h hboth.1 hboth.2

theorem mem_before {spec : RangeSpec} {c : Char} (hc : c ∈ spec.before) : c.isDigit = true := by
  cases spec with
  | span first last => exact first.isDigit c hc
  | openEnd first => exact first.isDigit c hc
  | suffix length => cases hc

theorem mem_after {spec : RangeSpec} {c : Char} (hc : c ∈ spec.after) : c.isDigit = true := by
  cases spec with
  | span first last => exact last.isDigit c hc
  | openEnd first => cases hc
  | suffix length => exact length.isDigit c hc

theorem toList_text (spec : RangeSpec) :
    spec.text.toList = "bytes=".toList ++ (spec.before ++ '-' :: spec.after) :=
  String.toList_ofList

theorem isPrefixOf_text (spec : RangeSpec) :
    "bytes=".toList.isPrefixOf spec.text.toList = true := by
  have h := List.prefix_append "bytes=".toList (spec.before ++ '-' :: spec.after)
  exact List.isPrefixOf_iff_prefix.mpr (toList_text spec ▸ h)

theorem drop_text (spec : RangeSpec) :
    spec.text.toList.drop 6 = spec.before ++ '-' :: spec.after := by
  have hlength : "bytes=".toList.length = 6 := by decide
  exact (congrArg (List.drop 6) (toList_text spec)).trans (List.drop_left' hlength)

/-- **The hyphen parts what stands before it from what stands after it.** -/
theorem splitOn_text (spec : RangeSpec) :
    (spec.text.toList.drop 6).splitOn '-' = [spec.before, spec.after] := by
  have hno {l : List Char} (hl : ∀ c ∈ l, c.isDigit = true) : ∀ c ∈ l, (c == '-') = false :=
    fun c hc => by
      have hdigit := hl c hc
      refine beq_eq_false_iff_ne.mpr ?_
      rintro rfl
      exact absurd hdigit (by decide)
  rw [drop_text, List.splitOn_eq_splitOnP, List.splitOnP_append_cons_of_forall_mem
    (hno fun c => mem_before) '-' (by decide), List.splitOnP_eq_singleton (hno fun c => mem_after)]

end RangeSpec

/-- The bytes from the first to the last position. -/
def bytesBetween {α : Type} (data : List α) (first last : ℕ) : List α :=
  (data.drop first).take (last - first + 1)

end Foundations
