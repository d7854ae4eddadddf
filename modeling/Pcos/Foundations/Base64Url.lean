import Mathlib.Data.List.DropRight
import Mathlib.Data.List.Induction
import Pcos.Foundations.Base64

/-!
# Foundations/Base64Url — base64 without its padding

Bytes are cut into numbers of six bits (`sixes`), and only the padding is not one of them
(`encodeChars_eq`).  `atob` is the forgiving decoder of browsers: white space is skipped, padding may
be missing, and spare bits are dropped.
-/

namespace Foundations.Base64

/-! ## Numbers of six bits -/

/-- What bytes are cut into. -/
def sixes : Bytes → List ℕ
  | a :: b :: c :: rest =>
    a.toNat / 4 :: (a.toNat % 4 * 16 + b.toNat / 16) :: (b.toNat % 16 * 4 + c.toNat / 64)
      :: c.toNat % 64 :: sixes rest
  | [a, b] => [a.toNat / 4, a.toNat % 4 * 16 + b.toNat / 16, b.toNat % 16 * 4]
  | [a] => [a.toNat / 4, a.toNat % 4 * 16]
  | [] => []

/-- …and are put together from; spare bits are dropped. -/
def ofSixes : List ℕ → Bytes
  | w :: x :: y :: z :: rest =>
    UInt8.ofNat (w * 4 + x / 16) :: UInt8.ofNat (x % 16 * 16 + y / 4)
      :: UInt8.ofNat (y % 4 * 64 + z) :: ofSixes rest
  | [w, x, y] => [UInt8.ofNat (w * 4 + x / 16), UInt8.ofNat (x % 16 * 16 + y / 4)]
  | [w, x] => [UInt8.ofNat (w * 4 + x / 16)]
  | _ => []

/-- How much is padded. -/
def padding (bytes : Bytes) : ℕ := (3 - bytes.length % 3) % 3

theorem sixes_lt (bytes : Bytes) : ∀ n ∈ sixes bytes, n < 64 := by
  fun_induction sixes bytes with
  | case1 a b c rest ih =>
    have ha := a.toNat_lt
    have hb := b.toNat_lt
    have hc := c.toNat_lt
    simp only [List.forall_mem_cons]
    exact ⟨by omega, by omega, by omega, by omega, ih⟩
  | case2 a b =>
    have ha := a.toNat_lt
    have hb := b.toNat_lt
    simp only [List.forall_mem_cons]
    exact ⟨by omega, by omega, by omega, List.forall_mem_nil _⟩
  | case3 a =>
    have ha := a.toNat_lt
    simp only [List.forall_mem_cons]
    exact ⟨by omega, by omega, List.forall_mem_nil _⟩
  | case4 => exact List.forall_mem_nil _

theorem ofSixes_sixes (bytes : Bytes) : ofSixes (sixes bytes) = bytes := by
  fun_induction sixes bytes with
  | case1 a b c rest ih =>
    have ha := a.toNat_lt
    have hb := b.toNat_lt
    have hc := c.toNat_lt
    rw [ofSixes, ofNat_eq (a := a) (by omega), ofNat_eq (a := b) (by omega),
      ofNat_eq (a := c) (by omega), ih]
  | case2 a b =>
    have ha := a.toNat_lt
    have hb := b.toNat_lt
    rw [ofSixes, ofNat_eq (a := a) (by omega), ofNat_eq (a := b) (by omega)]
  | case3 a =>
    have ha := a.toNat_lt
    rw [ofSixes, ofNat_eq (a := a) (by omega)]
  | case4 => rfl

/-- Bytes are cut into these numbers: not one too many, and no spare bit is set. -/
def Canonical (ns : List ℕ) : Prop :=
  ns.length % 4 ≠ 1 ∧ ∀ n ∈ ns.getLast?, 2 ^ (6 * ns.length % 8) ∣ n

theorem canonical_cons_four (w x y z : ℕ) (rest : List ℕ) :
    Canonical (w :: x :: y :: z :: rest) ↔ Canonical rest := by
  have hspare : 6 * (rest.length + 4) % 8 = 6 * rest.length % 8 := by omega
  simp only [Canonical, List.length_cons, Nat.add_mod_right, Nat.add_assoc, Nat.reduceAdd, hspare]
  refine and_congr_right fun _ => ?_
  cases rest with
  | nil => simp
  | cons n rest => simp only [List.getLast?_cons_cons]

theorem toNat_ofNat_of_lt {n : ℕ} (h : n < 256) : (UInt8.ofNat n).toNat = n := by
  rw [UInt8.toNat_ofNat', Nat.mod_eq_of_lt h]

/-- **Numbers that are put together are cut into themselves exactly if they are canonical.** -/
theorem sixes_ofSixes_iff {ns : List ℕ} (h : ∀ n ∈ ns, n < 64) :
    sixes (ofSixes ns) = ns ↔ Canonical ns := by
  fun_induction ofSixes ns with
  | case1 w x y z rest ih =>
    simp only [List.forall_mem_cons] at h
    obtain ⟨hw, hx, hy, hz, hrest⟩ := h
    rw [sixes, toNat_ofNat_of_lt (by omega), toNat_ofNat_of_lt (by omega),
      toNat_ofNat_of_lt (by omega), canonical_cons_four, ← ih hrest]
    have h1 : (w * 4 + x / 16) / 4 = w := by omega
    have h2 : (w * 4 + x / 16) % 4 * 16 + (x % 16 * 16 + y / 4) / 16 = x := by omega
    have h3 : (x % 16 * 16 + y / 4) % 16 * 4 + (y % 4 * 64 + z) / 64 = y := by omega
    have h4 : (y % 4 * 64 + z) % 64 = z := by omega
    simp only [h1, h2, h3, h4, List.cons.injEq, true_and]
  | case2 w x y =>
    simp only [List.forall_mem_cons] at h
    obtain ⟨hw, hx, hy, -⟩ := h
    rw [sixes, toNat_ofNat_of_lt (by omega), toNat_ofNat_of_lt (by omega)]
    have h1 : (w * 4 + x / 16) / 4 = w := by omega
    have h2 : (w * 4 + x / 16) % 4 * 16 + (x % 16 * 16 + y / 4) / 16 = x := by omega
    have h3 : (x % 16 * 16 + y / 4) % 16 * 4 = y ↔ 4 ∣ y := by omega
    have hcanonical : Canonical [w, x, y] ↔ 4 ∣ y := by simp [Canonical]
    simp only [h1, h2, h3, hcanonical, List.cons.injEq, true_and, and_true]
  | case3 w x =>
    simp only [List.forall_mem_cons] at h
    obtain ⟨hw, hx, -⟩ := h
    rw [sixes, toNat_ofNat_of_lt (by omega)]
    have h1 : (w * 4 + x / 16) / 4 = w := by omega
    have h2 : (w * 4 + x / 16) % 4 * 16 = x ↔ 16 ∣ x := by omega
    have hcanonical : Canonical [w, x] ↔ 16 ∣ x := by simp [Canonical]
    simp only [h1, h2, hcanonical, List.cons.injEq, true_and, and_true]
  | case4 ns hfour hthree htwo =>
    match ns with
    | [] => simp [Canonical, sixes]
    | [w] => simp [Canonical, sixes]
    | [w, x] => exact absurd rfl (htwo w x)
    | [w, x, y] => exact absurd rfl (hthree w x y)
    | w :: x :: y :: z :: rest => exact absurd rfl (hfour w x y z rest)

/-- An encoding without its padding. -/
def unpadded (bytes : Bytes) : List Char := (encodeChars bytes).filter (· ≠ '=')

/-- **The digits are those of the numbers, and padding.** -/
theorem encodeChars_eq (bytes : Bytes) :
    encodeChars bytes = (sixes bytes).map digit ++ List.replicate (padding bytes) '=' := by
  fun_induction sixes bytes with
  | case1 a b c rest ih =>
    have hpadding : padding (a :: b :: c :: rest) = padding rest := by
      simp only [padding, List.length_cons]
      omega
    rw [encodeChars, ih, hpadding]
    rfl
  | case2 a b => rfl
  | case3 a => rfl
  | case4 => rfl

theorem digits_ne_pad {ns : List ℕ} (h : ∀ n ∈ ns, n < 64) : ∀ d ∈ ns.map digit, d ≠ '=' := by
  intro d hd
  obtain ⟨n, hn, rfl⟩ := List.mem_map.mp hd
  exact digit_ne_pad n (h n hn)

theorem unpadded_eq (bytes : Bytes) : unpadded bytes = (sixes bytes).map digit := by
  have hdigits := digits_ne_pad (sixes_lt bytes)
  rw [unpadded, encodeChars_eq, List.filter_append, List.filter_eq_self.mpr (by simpa using hdigits)]
  simp

/-- The padding fills the last four. -/
theorem length_sixes (bytes : Bytes) :
    padding bytes = (4 - (sixes bytes).length % 4) % 4 ∧ (sixes bytes).length % 4 ≠ 1 := by
  fun_induction sixes bytes with
  | case1 a b c rest ih =>
    simp only [padding, List.length_cons] at ih ⊢
    omega
  | case2 a b => exact ⟨rfl, show 3 % 4 ≠ 1 by decide⟩
  | case3 a => exact ⟨rfl, show 2 % 4 ≠ 1 by decide⟩
  | case4 => decide

theorem value_digits : ∀ {ns : List ℕ} (_ : ∀ n ∈ ns, n < 64), (ns.map digit).mapM value = some ns
  | [], _ => rfl
  | n :: ns, h => by
      rw [List.map_cons, List.mapM_cons, value_digit n (h n List.mem_cons_self),
        value_digits fun m hm => h m (List.mem_cons_of_mem _ hm)]
      rfl

/-- Without its padding, an encoding is its digits. -/
theorem rdropWhile_pad {ds : List Char} (hds : ∀ d ∈ ds, d ≠ '=') (k : ℕ) :
    (ds ++ List.replicate k '=').rdropWhile (· = '=') = ds := by
  induction k with
  | zero =>
    rw [List.replicate_zero, List.append_nil, List.rdropWhile_eq_self_iff]
    exact fun hne => by simpa using hds _ (List.getLast_mem hne)
  | succ k ih =>
    rw [List.replicate_succ', ← List.append_assoc, List.rdropWhile_concat_pos _ _ _ (by simp), ih]

/-! ## The forgiving decoder -/

def isAsciiSpace (c : Char) : Bool :=
  c = '\t' || c = '\n' || c = '\x0c' || c = '\r' || c = ' '

/-- One or two `=` at the end are removed. -/
def dropPadding (l : List Char) : List Char :=
  match l.reverse with
  | '=' :: '=' :: rest => rest.reverse
  | '=' :: rest => rest.reverse
  | _ => l

def atob (text : List Char) : Option Bytes :=
  let data := text.filter fun c => !isAsciiSpace c
  let data := if data.length % 4 = 0 then dropPadding data else data
  if data.length % 4 = 1 then none else (data.mapM value).map ofSixes

theorem digit_spec : ∀ n < 64, isAsciiSpace (digit n) = false ∧ (digit n).toNat < 128 := by
  decide +kernel

theorem dropPadding_append {ds : List Char} (hds : ∀ d ∈ ds, d ≠ '=') :
    ∀ {k : ℕ} (_ : k ≤ 2), dropPadding (ds ++ List.replicate k '=') = ds
  | 0, _ => by
      rw [List.replicate_zero, List.append_nil, dropPadding]
      have hlast : ∀ c ∈ ds.reverse, c ≠ '=' := fun c hc => hds c (List.mem_reverse.mp hc)
      split
      · rename_i heq
        exact absurd rfl (hlast '=' (heq ▸ List.mem_cons_self))
      · rename_i heq
        exact absurd rfl (hlast '=' (heq ▸ List.mem_cons_self))
      · rfl
  | 1, _ => by
      have hreverse : (ds ++ List.replicate 1 '=').reverse = '=' :: ds.reverse := List.reverse_concat
      rw [dropPadding, hreverse]
      split
      · rename_i rest heq
        have hlast : '=' ∈ ds := List.mem_reverse.mp ((List.cons.inj heq).2 ▸ List.mem_cons_self)
        exact absurd rfl (hds '=' hlast)
      · rename_i rest _ heq
        rw [← (List.cons.inj heq).2, List.reverse_reverse]
      · rename_i hnone
        exact absurd rfl (hnone _)
  | 2, _ => by
      rw [dropPadding, List.reverse_append]
      exact List.reverse_reverse ds

/-- **What is encoded is decoded.** -/
theorem atob_encodeChars (bytes : Bytes) : atob (encodeChars bytes) = some bytes := by
  have hlt := sixes_lt bytes
  obtain ⟨hpadding, hlength⟩ := length_sixes bytes
  have hdigits : ∀ d ∈ (sixes bytes).map digit, isAsciiSpace d = false ∧ d ≠ '=' := by
    intro d hd
    obtain ⟨n, hn, rfl⟩ := List.mem_map.mp hd
    exact ⟨(digit_spec n (hlt n hn)).1, digit_ne_pad n (hlt n hn)⟩
  have hfilter : (encodeChars bytes).filter (fun c => !isAsciiSpace c) = encodeChars bytes := by
    rw [List.filter_eq_self, encodeChars_eq]
    intro c hc
    rcases List.mem_append.mp hc with hc | hc
    · rw [(hdigits c hc).1]
      rfl
    · rw [List.eq_of_mem_replicate hc]
      rfl
  have hfour : (encodeChars bytes).length % 4 = 0 := by
    rw [encodeChars_eq, List.length_append, List.length_map, List.length_replicate]
    omega
  have hdrop : dropPadding (encodeChars bytes) = (sixes bytes).map digit := by
    rw [encodeChars_eq]
    exact dropPadding_append (fun d hd => (hdigits d hd).2) (by omega)
  simp only [atob, hfilter, hfour, if_true, hdrop, List.length_map, hlength, if_false,
    value_digits hlt, Option.map_some, ofSixes_sixes]

end Foundations.Base64
