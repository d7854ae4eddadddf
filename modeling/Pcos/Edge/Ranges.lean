import Mathlib.Data.Int.Order.Basic
import Mathlib.Order.WithBot
import Pcos.Edge.NodeReads
import Pcos.Foundations.ByteRange

/-!
# Edge/Ranges — `parseHttpRange`, in the numbers it computes with

`parseInt` reads digits of any length as the double next to them, or as `Infinity`.  Below `2^53` a
double is the number that was written, and from there on it stays above every size, so the function
computes what `Files.parseHttpRange` says of the numbers themselves (`parseHttpRange_eq_exact`).  For
one valid range it is the range of RFC 7233, unless the file is empty (`parseHttpRange_text`).
-/

namespace Pcos.Edge.Ranges

open Foundations Pcos.Edge.Accounts Pcos.Edge.Files

/-! ## Numbers -/

/-- The integers among the doubles, and `Infinity`. -/
abbrev Number := WithTop ℤ

/-- The order of `ℤ` with `⊤` above, which is computed. -/
instance order : LinearOrder Number := @WithTop.linearOrder ℤ Int.instLinearOrder

instance : Min Number := order.toMin

instance : LT Number := order.toLT

instance : LE Number := order.toLE

/-- The double that digits are read as. -/
structure Rounding where
  round : ℕ → Number
  exact : ∀ n < 2 ^ 53, round n = (n : ℤ)
  large : ∀ n, 2 ^ 53 ≤ n → ((2 ^ 53 : ℤ) : Number) ≤ round n

/-- The nearest double, with an even significand where two are as near. -/
def nearest (n : ℕ) : Number :=
  if n < 2 ^ 53 then (n : ℤ)
  else
    let unit := 2 ^ (Nat.log2 n - 52)
    let rest := n % unit
    let significand :=
      if unit < 2 * rest ∨ unit = 2 * rest ∧ n / unit % 2 = 1 then n / unit + 1 else n / unit
    if 2 ^ 1024 ≤ significand * unit then ⊤ else ((significand * unit : ℕ) : ℤ)

/-- IEEE 754 double precision. -/
def Rounding.double : Rounding where
  round := nearest
  exact n hn := if_pos hn
  large n hn := by
    have hbits : 53 ≤ Nat.log2 n := (Nat.le_log2 (by omega)).mpr hn
    have hself : 2 ^ Nat.log2 n ≤ n := Nat.log2_self_le (by omega)
    have hunit : 0 < 2 ^ (Nat.log2 n - 52) := Nat.two_pow_pos _
    have hsplit : 2 ^ 52 * 2 ^ (Nat.log2 n - 52) = 2 ^ Nat.log2 n := by
      rw [← Nat.pow_add]
      congr 1
      omega
    -- the significand has 53 bits, and its unit is at least two
    have hquot : 2 ^ 52 ≤ n / 2 ^ (Nat.log2 n - 52) :=
      (Nat.le_div_iff_mul_le hunit).mpr (hsplit.trans_le hself)
    have htwo : 2 ≤ 2 ^ (Nat.log2 n - 52) := Nat.le_self_pow (by omega) 2
    rw [nearest, if_neg (Nat.not_lt.mpr hn)]
    dsimp only
    generalize hround : (if 2 ^ (Nat.log2 n - 52) < 2 * (n % 2 ^ (Nat.log2 n - 52)) ∨
      2 ^ (Nat.log2 n - 52) = 2 * (n % 2 ^ (Nat.log2 n - 52)) ∧
        n / 2 ^ (Nat.log2 n - 52) % 2 = 1 then n / 2 ^ (Nat.log2 n - 52) + 1
      else n / 2 ^ (Nat.log2 n - 52)) = significand
    have hsignificand : 2 ^ 52 ≤ significand := by
      rw [← hround]
      split
      · omega
      · exact hquot
    split
    · exact le_top
    · refine WithTop.coe_le_coe.mpr ?_
      exact_mod_cast (Nat.mul_le_mul hsignificand htwo : 2 ^ 52 * 2 ≤ _)

variable (x : Rounding)

/-- `parseInt(text, 10)`, with `none` for `NaN`. -/
def Rounding.parseInt (text : List Char) : Option Number := (Files.parseInt text).map x.round

/-- `Math.max(0, totalSize - end)` -/
def suffixStart (totalSize : ℤ) : Number → Number
  | ⊤ => 0
  | some stop => (max 0 (totalSize - stop) : ℤ)

/-- What is asked for, if it is in the file, as far as the file goes. -/
def bounded (totalSize : ℤ) (start stop : Number) : Option (Number × Number) :=
  if start < 0 ∨ totalSize ≤ start ∨ stop < start then none
  else some (start, min stop ((totalSize - 1 : ℤ) : Number))

/-- The range of the two numbers, where `none` is `NaN`. -/
def ofNumbers (totalSize : ℤ) : Option Number → Option Number → Option (Number × Number)
  | none, none => none
  | none, some stop =>
    if stop ≤ 0 then none
    else bounded totalSize (suffixStart totalSize stop) ((totalSize - 1 : ℤ) : Number)
  | some start, none => bounded totalSize start ((totalSize - 1 : ℤ) : Number)
  | some start, some stop => bounded totalSize start stop

def parseHttpRange (rangeHeader : Option String) (totalSize : ℤ) : Option (Number × Number) := do
  let header ← rangeHeader
  if !"bytes=".toList.isPrefixOf header.toList then none
  else
    match (trim isSpace (String.ofList (header.toList.drop 6))).toList.splitOn '-' with
    | [before, after] => ofNumbers totalSize (x.parseInt before) (x.parseInt after)
    | _ => none

/-! ## Below `2^53` -/

section Exact

variable {x} {m n size : ℕ}

/-- **A size is compared with what was written.** -/
theorem Rounding.le_round (hm : m ≤ 2 ^ 53) : ((m : ℤ) : Number) ≤ x.round n ↔ m ≤ n := by
  by_cases hn : n < 2 ^ 53
  · rw [x.exact n hn, WithTop.coe_le_coe, Int.ofNat_le]
  · have hn := Nat.le_of_not_lt hn
    refine iff_of_true (le_trans (WithTop.coe_le_coe.mpr ?_) (x.large n hn)) (hm.trans hn)
    exact_mod_cast hm

theorem Rounding.round_lt (hm : m ≤ 2 ^ 53) : x.round n < ((m : ℤ) : Number) ↔ n < m := by
  rw [← not_le, x.le_round hm, not_le]

theorem Rounding.min_round (hm : m < 2 ^ 53) :
    min (x.round n) ((m : ℤ) : Number) = ((min n m : ℕ) : ℤ) := by
  by_cases hn : n < 2 ^ 53
  · rw [x.exact n hn, ← WithTop.coe_min]
    norm_cast
  · have hmn : m ≤ n := by omega
    rw [min_eq_right ((x.le_round hm.le).mpr hmn), Nat.min_eq_right hmn]

theorem suffixStart_round (hsize : size < 2 ^ 53) :
    suffixStart size (x.round n) = ((size - n : ℕ) : ℤ) := by
  by_cases hn : n < 2 ^ 53
  · have hmax : max 0 ((size : ℤ) - n) = ((size - n : ℕ) : ℤ) := by omega
    rw [x.exact n hn]
    exact congrArg WithTop.some hmax
  · have hn := Nat.le_of_not_lt hn
    have hzero : size - n = 0 := by omega
    have hlarge := x.large n hn
    rw [hzero]
    cases hround : x.round n with
    | none => rfl
    | some k =>
      have hlarge := WithTop.coe_le_coe.mp (hround ▸ hlarge)
      have hmax : max 0 ((size : ℤ) - k) = 0 := by omega
      exact congrArg WithTop.some hmax

theorem Rounding.round_le_zero : x.round n ≤ 0 ↔ n = 0 := by
  by_cases hn : n < 2 ^ 53
  · rw [x.exact n hn, ← WithTop.coe_zero, WithTop.coe_le_coe]
    omega
  · have hone : (((1 : ℕ) : ℤ) : Number) ≤ x.round n := (x.le_round (by decide)).mpr (by omega)
    refine iff_of_false (fun hle => ?_) (by omega)
    exact absurd (WithTop.coe_le_coe.mp (hone.trans hle)) (by decide)

theorem bounded_zero (stop : Number) : bounded (0 : ℕ) (x.round n) stop = none := by
  have hle := (x.le_round (n := n) (Nat.zero_le _)).mpr (Nat.zero_le n)
  exact if_pos (.inr (.inl hle))

theorem bounded_round (hpos : 0 < size) (hsize : size < 2 ^ 53) (start stop : ℕ) :
    bounded size (x.round start) (x.round stop)
      = if size ≤ start ∨ stop < start then none
        else some (((start : ℤ) : Number), (((min stop (size - 1) : ℕ) : ℤ) : Number)) := by
  have hzero : ¬ x.round start < 0 :=
    not_lt.mpr ((x.le_round (n := start) (Nat.zero_le _)).mpr (Nat.zero_le start))
  have hlast : ((size : ℤ) - 1) = ((size - 1 : ℕ) : ℤ) := by omega
  have hle := x.le_round (n := start) hsize.le
  rw [bounded, hlast, x.min_round (by omega)]
  by_cases hstart : size ≤ start
  · rw [if_pos (.inr (.inl (hle.mpr hstart))), if_pos (.inl hstart)]
  · have hexact := x.exact start (by omega)
    have hlt : x.round stop < x.round start ↔ stop < start := by
      rw [hexact, x.round_lt (by omega)]
    rw [hexact] at hzero hle hlt ⊢
    refine if_congr ?_ rfl rfl
    rw [hle, hlt]
    exact or_iff_right hzero

/-- **Numbers that are clamped to a size below `2^53` are as good as exact.** -/
theorem ofNumbers_round (hsize : size < 2 ^ 53) (start stop : Option ℕ) :
    ofNumbers size (start.map x.round) (stop.map x.round)
      = (clampRange size [start, stop]).map
        fun r => (((r.1 : ℤ) : Number), ((r.2 : ℤ) : Number)) := by
  -- the numbers that are computed are read as they are
  have hsuffix (n : ℕ) : suffixStart size (x.round n) = x.round (size - n) := by
    rw [suffixStart_round hsize, x.exact _ (by omega)]
  have hlast (hpos : 0 < size) : ((size - 1 : ℤ) : Number) = x.round (size - 1) := by
    rw [x.exact _ (by omega)]
    exact congrArg WithTop.some (by omega)
  have hclamp (start stop : ℕ) : (if size ≤ start ∨ stop < start then none
      else some (((start : ℤ) : Number), (((min stop (size - 1) : ℕ) : ℤ) : Number)))
      = (if size ≤ start ∨ stop < start then none else some (start, min stop (size - 1))).map
        fun r : ℕ × ℕ => (((r.1 : ℤ) : Number), ((r.2 : ℤ) : Number)) := by
    split <;> rfl
  rcases Nat.eq_zero_or_pos size with rfl | hpos
  · have hclamp : clampRange 0 [start, stop] = none :=
      Option.eq_none_iff_forall_not_mem.mpr fun r hr =>
        Nat.not_lt_zero _ (@clampRange_bounds _ _ r.1 r.2 hr).2
    rw [hclamp]
    cases start with
    | none =>
      cases stop with
      | none => rfl
      | some suffix =>
        simp only [Option.map_none, Option.map_some, ofNumbers, hsuffix, bounded_zero, ite_self]
    | some start =>
      cases stop with
      | none => exact bounded_zero _
      | some stop => exact bounded_zero _
  · cases start with
    | none =>
      cases stop with
      | none => rfl
      | some suffix =>
        simp only [Option.map_none, Option.map_some, ofNumbers, clampRange, x.round_le_zero, hsuffix,
          hlast hpos, bounded_round hpos hsize, Nat.ne_of_gt hpos, or_false]
        split
        · rfl
        · rw [if_neg (by omega), Nat.min_self]
          rfl
    | some start =>
      cases stop with
      | none =>
        refine Eq.trans ?_ (hclamp start (size - 1))
        rw [← bounded_round hpos hsize, ← hlast hpos]
        rfl
      | some stop =>
        refine Eq.trans ?_ (hclamp start stop)
        rw [← bounded_round hpos hsize]
        rfl

theorem clampRange_of_length {parts : List (Option ℕ)} (h : parts.length ≠ 2) :
    clampRange size parts = none := by
  unfold clampRange
  split
  · rfl
  · exact absurd rfl h
  · exact absurd rfl h
  · rfl

/-- **The function computes what it says of the numbers themselves.** -/
theorem parseHttpRange_eq_exact (hsize : size < 2 ^ 53) (rangeHeader : Option String) :
    parseHttpRange x rangeHeader size = (Files.parseHttpRange rangeHeader size).map
      fun r => (((r.1 : ℤ) : Number), ((r.2 : ℤ) : Number)) := by
  rcases rangeHeader with _ | header
  · rfl
  · rcases hbytes : "bytes=".toList.isPrefixOf header.toList with _ | _
    · simp only [parseHttpRange, Files.parseHttpRange, hbytes, Option.bind_eq_bind, Option.bind_some,
        Bool.not_false, if_true, Option.map_none]
    · simp only [parseHttpRange, Files.parseHttpRange, hbytes, Option.bind_eq_bind, Option.bind_some,
        Bool.not_true, Bool.false_eq_true, if_false]
      generalize (trim isSpace (String.ofList (header.toList.drop 6))).toList.splitOn '-' = parts
      by_cases htwo : parts.length = 2
      · obtain ⟨before, after, rfl⟩ := List.length_eq_two.mp htwo
        exact ofNumbers_round hsize _ _
      · have hclamp : clampRange size (parts.map Files.parseInt) = none :=
          clampRange_of_length (by rwa [List.length_map])
        split
        · exact absurd rfl htwo
        · exact (congrArg (Option.map _) hclamp).symm

end Exact

/-! ## One valid range -/

theorem isSpace_of_isDigit {c : Char} (hc : c.isDigit = true) : isSpace c = false := by
  obtain ⟨hlow, hhigh⟩ : 48 ≤ c.toNat ∧ c.toNat ≤ 57 := Char.isDigit_iff_toNat.mp hc
  have hbom : c ≠ '\uFEFF' := by
    rintro rfl
    exact absurd hhigh (by decide)
  simp [isSpace, isWhiteSpace, hbom]
  omega

/-- **Digits are read in full.** -/
theorem parseInt_digits (d : Digits) : Files.parseInt d.chars = some d.value := by
  have hspace : d.chars.dropWhile isSpace = d.chars :=
    List.dropWhile_eq_self_iff.mpr fun hpos => by
      simp [isSpace_of_isDigit (d.isDigit _ (List.getElem_mem hpos))]
  have hplus : d.chars.head? ≠ some '+' := fun h =>
    d.forall_ne (by decide) (List.mem_of_mem_head? (Option.mem_def.mpr h))
  have hdigits : d.chars.takeWhile Char.isDigit = d.chars :=
    List.takeWhile_eq_self_iff.mpr d.isDigit
  rw [Digits.value, Nat.ofDigitChars_eq_foldl]
  simp only [Files.parseInt, hspace, if_neg hplus, hdigits, if_neg d.ne_nil]

theorem parseInt_nil : Files.parseInt [] = none := rfl

theorem parseHttpRange_spec (spec : RangeSpec) (size : ℕ) :
    Files.parseHttpRange (some spec.text) size
      = clampRange size [Files.parseInt spec.before, Files.parseInt spec.after] := by
  have htrim : trim isSpace (String.ofList (spec.text.toList.drop 6))
      = String.ofList (spec.text.toList.drop 6) := by
    refine trim_eq_self fun c hc => ?_
    rw [String.toList_ofList, spec.drop_text] at hc
    rcases List.mem_append.mp hc with hc | hc
    · exact isSpace_of_isDigit (RangeSpec.mem_before hc)
    · rcases List.mem_cons.mp hc with rfl | hc
      · decide
      · exact isSpace_of_isDigit (RangeSpec.mem_after hc)
  simp only [Files.parseHttpRange, spec.isPrefixOf_text, Option.bind_eq_bind, Option.bind_some,
    Bool.not_true, Bool.false_eq_true, if_false, htrim, String.toList_ofList, spec.splitOn_text]
  rfl

/-- **The range of RFC 7233.** -/
theorem parseHttpRange_resolve {spec : RangeSpec} (hvalid : spec.Valid) (size : ℕ) :
    Files.parseHttpRange (some spec.text) size = spec.resolve size := by
  rw [parseHttpRange_spec]
  cases spec with
  | span first last =>
    rw [RangeSpec.before, RangeSpec.after, parseInt_digits, parseInt_digits, clampRange,
      Option.getD_some]
    have hlast : ¬ last.value < first.value := Nat.not_lt.mpr hvalid
    by_cases hlt : first.value < size
    · have hsat : (RangeSpec.span first last).Satisfiable size := hlt
      rw [RangeSpec.resolve_eq_some (Nat.zero_lt_of_lt hlt) hsat, if_neg (by omega)]
      rfl
    · have hsat : ¬ (RangeSpec.span first last).Satisfiable size := hlt
      rw [RangeSpec.resolve_eq_none fun _ => hsat, if_pos (by omega)]
  | openEnd first =>
    rw [RangeSpec.before, RangeSpec.after, parseInt_digits, parseInt_nil, clampRange,
      Option.getD_none, Nat.min_self]
    by_cases hlt : first.value < size
    · have hsat : (RangeSpec.openEnd first).Satisfiable size := hlt
      rw [RangeSpec.resolve_eq_some (Nat.zero_lt_of_lt hlt) hsat, if_neg (by omega)]
      rfl
    · have hsat : ¬ (RangeSpec.openEnd first).Satisfiable size := hlt
      rw [RangeSpec.resolve_eq_none fun _ => hsat, if_pos (by omega)]
  | suffix length =>
    rw [RangeSpec.before, RangeSpec.after, parseInt_digits, parseInt_nil, clampRange]
    by_cases hno : length.value = 0 ∨ size = 0
    · have hsat : 0 < size → ¬ (RangeSpec.suffix length).Satisfiable size := fun hpos hlength =>
        hno.elim hlength hpos.ne'
      rw [RangeSpec.resolve_eq_none hsat, if_pos hno]
    · have hsat : (RangeSpec.suffix length).Satisfiable size := fun h => hno (.inl h)
      rw [RangeSpec.resolve_eq_some (Nat.pos_of_ne_zero fun h => hno (.inr h)) hsat, if_neg hno]
      rfl

/-- **The function, for sizes below `2^53`**: of any header it makes `null` or bytes of the file, and
of one valid range the bytes of RFC 7233, or `null` where it is not satisfiable or the file empty. -/
theorem parseHttpRange_text (x : Rounding) {size : ℕ} (hsize : size < 2 ^ 53) :
    (∀ rangeHeader start stop, parseHttpRange x rangeHeader size = some (start, stop) →
        ∃ a b : ℕ, start = (a : ℤ) ∧ stop = (b : ℤ) ∧ a ≤ b ∧ b < size) ∧
      ∀ spec : RangeSpec, spec.Valid → parseHttpRange x (some spec.text) size
        = if 0 < size ∧ spec.Satisfiable size then
            some ((((spec.positions size).1 : ℤ) : Number), (((spec.positions size).2 : ℤ) : Number))
          else none := by
  refine ⟨fun rangeHeader start stop h => ?_, fun spec hvalid => ?_⟩
  · rw [parseHttpRange_eq_exact hsize] at h
    obtain ⟨⟨a, b⟩, hrange, heq⟩ := Option.map_eq_some_iff.mp h
    obtain ⟨rfl, rfl⟩ := Prod.mk.inj heq
    exact ⟨a, b, rfl, rfl, parseHttpRange_bounds hrange⟩
  · rw [parseHttpRange_eq_exact hsize, parseHttpRange_resolve hvalid, RangeSpec.resolve]
    split
    · rfl
    · rfl

def fiveHundred : Digits := ⟨['5', '0', '0'], by decide, forall_mem_of_all (by decide)⟩

/-- A number that no double is, and that is read as the next. -/
def overlong : Digits :=
  ⟨List.replicate 30 '9', by decide, fun c hc => List.eq_of_mem_replicate hc ▸ by decide⟩

theorem parseHttpRange_text_overlong :
    parseHttpRange .double (some (RangeSpec.span fiveHundred overlong).text) (1000 : ℕ)
      = some (((500 : ℤ) : Number), ((999 : ℤ) : Number)) :=
  ((parseHttpRange_text .double (by decide : 1000 < 2 ^ 53)).2 (.span fiveHundred overlong)
    (by decide)).trans (by decide)

/-- A suffix of an empty file is satisfiable, and there is no range to return for it. -/
theorem not_null_exactly : ¬ ∀ (spec : RangeSpec) (size : ℕ), size < 2 ^ 53 → spec.Valid →
    (parseHttpRange .double (some spec.text) size = none ↔ ¬ spec.Satisfiable size) := by
  intro h
  have hsat : (RangeSpec.suffix fiveHundred).Satisfiable 0 := by decide
  have hvalid : (RangeSpec.suffix fiveHundred).Valid := trivial
  refine (h (.suffix fiveHundred) 0 (by decide) hvalid).mp ?_ hsat
  have hnone : (RangeSpec.suffix fiveHundred).resolve 0 = none :=
    RangeSpec.resolve_eq_none fun hpos => absurd hpos (Nat.lt_irrefl 0)
  exact (parseHttpRange_eq_exact (by decide) _).trans (congrArg (Option.map _)
    ((parseHttpRange_resolve hvalid 0).trans hnone))

end Pcos.Edge.Ranges
