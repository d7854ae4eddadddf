import Pcos.Foundations.Dict
import Pcos.Foundations.FormCoding
import Pcos.Foundations.Text
import Pcos.Foundations.Utf8

/-!
# Agent/QueryDecoding — the query of a request on the local network (`lan_server.rs`)

After a `%` the decoder takes two bytes before it knows whether they are digits, and if they are not,
they are gone:

    % z z a ──▸ % a        % % 4 1 ──▸ % 1        % + 1 ──▸ 01

`WellEscaped` says where this makes no difference.
-/

namespace Pcos.Agent

open Foundations

/-! ## The decoder -/

/-- A `+` may come before the digits of a number. -/
def withoutSign : List Char → List Char
  | '+' :: d :: ds => d :: ds
  | text => text

/-- `u8::from_str_radix(_, 16)` -/
def fromStrRadix16 (text : List Char) : Option UInt8 :=
  if text = [] then none
  else
    ((withoutSign text).foldlM
      (fun n c => ((hexDigit c).map (16 * n + ·)).filter (· < 256)) 0).map UInt8.ofNat

/-- The loop of `percent_decode`. -/
def percentDecodeBytes : Bytes → Bytes
  | [] => []
  | b :: bs =>
    if b = percent then
      match bs with
      | h1 :: h2 :: rest =>
        match fromStrRadix16 [latin1 h1, latin1 h2] with
        | some byte => byte :: percentDecodeBytes rest
        | none => b :: percentDecodeBytes rest
      -- What is taken of a pair that is not there is gone too.
      | _ => [b]
    else if b = plus then 0x20 :: percentDecodeBytes bs
    else b :: percentDecodeBytes bs

def percentDecode (s : String) : String := fromUtf8Lossy (percentDecodeBytes (encodeUtf8 s))

/-! ### What is read at a `%` -/

theorem withoutSign_pair (c d : Char) : withoutSign [c, d] = if c = '+' then [d] else [c, d] := by
  unfold withoutSign
  split
  · rename_i heq
    obtain ⟨rfl, hrest⟩ := List.cons.inj heq
    rw [if_pos rfl, hrest]
  · rename_i hsign
    rw [if_neg fun hc => hsign d [] (by rw [hc])]

theorem latin1_eq_plus {b : UInt8} : latin1 b = '+' ↔ b = plus := by
  constructor
  · intro h
    have htoNat := congrArg Char.toNat h
    rw [toNat_latin1] at htoNat
    exact UInt8.toNat_inj.mp htoNat
  · rintro rfl
    rfl

/-- **What two bytes are taken for**: a byte, also if the first one is a sign. -/
theorem fromStrRadix16_pair (h l : UInt8) : fromStrRadix16 [latin1 h, latin1 l] =
    if h = plus then (hexDigit (latin1 l)).map UInt8.ofNat else hexByteOf h l := by
  have hfits : ∀ {c : Char} {n : ℕ}, hexDigit c = some n → n < 16 := by
    intro c n hn
    have := hexDigit_eq_some.mp hn
    omega
  rw [fromStrRadix16, if_neg (List.cons_ne_nil _ _), withoutSign_pair]
  simp only [latin1_eq_plus]
  split
  · rw [List.foldlM_cons]
    cases hl : hexDigit (latin1 l) with
    | none => rfl
    | some lo =>
      have hlo := hfits hl
      have hbyte : lo < 256 := by omega
      simp [hbyte, Option.filter_some]
  · rw [List.foldlM_cons, hexByteOf, escapedByte, if_pos rfl]
    cases hh : hexDigit (latin1 h) with
    | none => rfl
    | some hi =>
      have hhi := hfits hh
      have hbyte : hi < 256 := by omega
      cases hl : hexDigit (latin1 l) with
      | none => simp [hbyte, Option.filter_some, hl]
      | some lo =>
        have hlo := hfits hl
        have hbyte' : 16 * hi + lo < 256 := by omega
        simp [hbyte, hbyte', Option.filter_some, hl]

theorem percentDecodeBytes_escape {h l byte : UInt8} (hbyte : hexByteOf h l = some byte)
    (rest : Bytes) :
    percentDecodeBytes (percent :: h :: l :: rest) = byte :: percentDecodeBytes rest := by
  have hdigit : h ≠ plus := by
    obtain ⟨hi, _, hhi, -⟩ := hexByteOf_eq_some.mp hbyte
    exact (ne_of_hexDigit (Option.isSome_of_eq_some hhi)).2
  rw [percentDecodeBytes, if_pos rfl, fromStrRadix16_pair, if_neg hdigit, hbyte]

/-- A pair that is no escape is lost, or taken for a byte if it is a digit with a sign. -/
theorem percentDecodeBytes_malformed {h l : UInt8} (hnone : hexByteOf h l = none) (rest : Bytes) :
    percentDecodeBytes (percent :: h :: l :: rest) = percent :: percentDecodeBytes rest
    ∨ ∃ byte, (hexDigit (latin1 l)).isSome ∧ h = plus
      ∧ percentDecodeBytes (percent :: h :: l :: rest) = byte :: percentDecodeBytes rest := by
  rw [percentDecodeBytes, if_pos rfl, fromStrRadix16_pair]
  split_ifs with hplus
  · cases hl : hexDigit (latin1 l) with
    | none => exact Or.inl rfl
    | some lo => exact Or.inr ⟨_, rfl, hplus, rfl⟩
  · rw [hnone]
    exact Or.inl rfl

theorem percentDecodeBytes_of_ne {b : UInt8} (hb : b ≠ percent) (bs : Bytes) :
    percentDecodeBytes (b :: bs) = unplus b :: percentDecodeBytes bs := by
  rw [percentDecodeBytes.eq_def]
  simp only [if_neg hb, unplus]
  split
  · rfl
  · rfl

theorem percentDecodeBytes_digit {b : UInt8} (hb : (hexDigit (latin1 b)).isSome) (bs : Bytes) :
    percentDecodeBytes (b :: bs) = b :: percentDecodeBytes bs := by
  obtain ⟨hpercent, hplus⟩ := ne_of_hexDigit hb
  rw [percentDecodeBytes_of_ne hpercent, unplus, if_neg hplus]

/-- **The decoder gives out no more** than what was encoded. -/
theorem length_percentDecodeBytes_le : ∀ bs : Bytes,
    (percentDecodeBytes bs).length ≤ (formDecode bs).length
  | [] => Nat.le_refl _
  | [b] => by
      by_cases hb : b = percent
      · subst hb
        decide
      · rw [percentDecodeBytes_of_ne hb, formDecode_of_ne hb]
        exact Nat.le_refl _
  | [b, h] => by
      by_cases hb : b = percent
      · subst hb
        exact Nat.succ_le_succ (Nat.zero_le _)
      · rw [percentDecodeBytes_of_ne hb, formDecode_of_ne hb]
        exact Nat.succ_le_succ (length_percentDecodeBytes_le [h])
  | b :: h :: l :: rest => by
      by_cases hb : b = percent
      · subst hb
        have hrest := length_percentDecodeBytes_le rest
        cases hbyte : hexByteOf h l with
        | some byte =>
          rw [percentDecodeBytes_escape hbyte, formDecode_escape hbyte]
          exact Nat.succ_le_succ hrest
        | none =>
          rw [formDecode_malformed hbyte]
          have hle := Nat.le_trans hrest (length_formDecode_le h l rest)
          rcases percentDecodeBytes_malformed hbyte rest with heq | ⟨byte, -, -, heq⟩
          · rw [heq]
            exact Nat.succ_le_succ hle
          · rw [heq]
            exact Nat.succ_le_succ hle
      · rw [percentDecodeBytes_of_ne hb, formDecode_of_ne hb]
        exact Nat.succ_le_succ (length_percentDecodeBytes_le (h :: l :: rest))

/-! ## Where it decodes forms -/

/-- `3` -/
abbrev three : UInt8 := 0x33

/-- A decimal digit. -/
def IsDecimal (b : UInt8) : Prop := 48 ≤ b.toNat ∧ b.toNat ≤ 57

/-- Each `%` is the last byte or begins an escape, apart from `%%3d` and `%3%3d`: there, the two bytes
that are lost would have made up for the ones that are not read. -/
inductive WellEscaped : Bytes → Prop
  | nil : WellEscaped []
  | plain {b : UInt8} {bs : Bytes} (hb : b ≠ percent) (h : WellEscaped bs) : WellEscaped (b :: bs)
  | escape {high low byte : UInt8} {bs : Bytes} (hbyte : hexByteOf high low = some byte)
      (h : WellEscaped bs) : WellEscaped (percent :: high :: low :: bs)
  | last : WellEscaped [percent]
  | twice {d : UInt8} {bs : Bytes} (hd : IsDecimal d) (h : WellEscaped bs) :
      WellEscaped (percent :: percent :: three :: d :: bs)
  | nested {d : UInt8} {bs : Bytes} (hd : IsDecimal d) (h : WellEscaped bs) :
      WellEscaped (percent :: three :: percent :: three :: d :: bs)

theorem hexByteOf_three {d : UInt8} (hd : IsDecimal d) : hexByteOf three d = some d := by
  obtain ⟨hlow, hhigh⟩ := hd
  refine hexByteOf_eq_some.mpr ⟨3, d.toNat - 48, by decide, ?_, ?_⟩
  · rw [hexDigit_eq_some, toNat_latin1]
    omega
  · have hvalue : 16 * 3 + (d.toNat - 48) = d.toNat := by omega
    rw [hvalue, UInt8.ofNat_toNat]

/-- An escape of its own second digit. -/
theorem of_hexByteOf_self {h l : UInt8} (hbyte : hexByteOf h l = some l) :
    h = three ∧ IsDecimal l := by
  obtain ⟨hi, lo, hhi, hlo, hvalue⟩ := hexByteOf_eq_some.mp hbyte
  have hbyte := congrArg UInt8.toNat hvalue
  rw [UInt8.toNat_ofNat'] at hbyte
  rw [hexDigit_eq_some, toNat_latin1] at hhi hlo
  have hthree : h.toNat = three.toNat := by
    change h.toNat = 51
    omega
  exact ⟨UInt8.toNat_inj.mp hthree, by omega, by omega⟩

theorem formDecode_eq_of_wellEscaped {bs : Bytes} (h : WellEscaped bs) :
    percentDecodeBytes bs = formDecode bs := by
  induction h with
  | nil => rfl
  | plain hb _ ih => rw [percentDecodeBytes_of_ne hb, formDecode_of_ne hb, ih]
  | escape hbyte _ ih => rw [percentDecodeBytes_escape hbyte, formDecode_escape hbyte, ih]
  | last => rfl
  | @twice d bs hd _ ih =>
    have hdigit : (hexDigit (latin1 d)).isSome := by
      obtain ⟨_, lo, -, hlo, -⟩ := hexByteOf_eq_some.mp (hexByteOf_three hd)
      exact Option.isSome_of_eq_some hlo
    have hlost : percentDecodeBytes (percent :: percent :: three :: d :: bs) =
        percent :: percentDecodeBytes (d :: bs) := rfl
    rw [hlost, percentDecodeBytes_digit hdigit, ih, formDecode_malformed rfl,
      formDecode_escape (hexByteOf_three hd)]
  | @nested d bs hd _ ih =>
    have hdigit : (hexDigit (latin1 d)).isSome := by
      obtain ⟨_, lo, -, hlo, -⟩ := hexByteOf_eq_some.mp (hexByteOf_three hd)
      exact Option.isSome_of_eq_some hlo
    have hlost : percentDecodeBytes (percent :: three :: percent :: three :: d :: bs) =
        percent :: percentDecodeBytes (three :: d :: bs) := rfl
    rw [hlost, percentDecodeBytes_digit (b := three) rfl, percentDecodeBytes_digit hdigit, ih,
      formDecode_malformed rfl, formDecode_digit (b := three) rfl,
      formDecode_escape (hexByteOf_three hd)]

/-- **What makes up for two lost bytes.** -/
theorem of_lost {h l : UInt8} {rest : Bytes}
    (heq : percentDecodeBytes rest = formDecode (h :: l :: rest)) :
    ∃ d bs, IsDecimal d ∧ percentDecodeBytes bs = formDecode bs
      ∧ (h = percent ∧ l = three ∧ rest = d :: bs
        ∨ h = three ∧ l = percent ∧ rest = three :: d :: bs) := by
  rcases formDecode_cons h (l :: rest) with ⟨_, d, byte, bs, rfl, hrest, hbyte⟩ | hh
  · obtain ⟨rfl, rfl⟩ := List.cons.inj hrest
    obtain ⟨_, lo, -, hlo, -⟩ := hexByteOf_eq_some.mp hbyte
    rw [formDecode_escape hbyte, percentDecodeBytes_digit (Option.isSome_of_eq_some hlo)] at heq
    obtain ⟨rfl, htail⟩ := List.cons.inj heq
    obtain ⟨rfl, hd⟩ := of_hexByteOf_self hbyte
    exact ⟨d, bs, hd, htail, Or.inl ⟨rfl, rfl, rfl⟩⟩
  rw [hh] at heq
  rcases formDecode_cons l rest with ⟨h', d, byte, bs, rfl, rfl, hbyte⟩ | hl
  · obtain ⟨hi, lo, hhi, hlo, -⟩ := hexByteOf_eq_some.mp hbyte
    rw [formDecode_escape hbyte, percentDecodeBytes_digit (Option.isSome_of_eq_some hhi),
      percentDecodeBytes_digit (Option.isSome_of_eq_some hlo)] at heq
    obtain ⟨hfirst, hsecond⟩ := List.cons.inj heq
    obtain ⟨rfl, htail⟩ := List.cons.inj hsecond
    obtain ⟨rfl, hd⟩ := of_hexByteOf_self hbyte
    have hh : h = three := by
      unfold unplus at hfirst
      split at hfirst
      · cases hfirst
      · exact hfirst.symm
    exact ⟨d, bs, hd, htail, Or.inr ⟨hh, rfl, rfl⟩⟩
  · have hlength := congrArg List.length heq
    have hle := length_percentDecodeBytes_le rest
    rw [hl, List.length_cons, List.length_cons] at hlength
    omega

theorem wellEscaped_of_eq : ∀ {bs : Bytes}, percentDecodeBytes bs = formDecode bs → WellEscaped bs
  | [], _ => .nil
  | [b], _ => by
      by_cases hb : b = percent
      · subst hb
        exact .last
      · exact .plain hb .nil
  | [b, h], heq => by
      by_cases hb : b = percent
      · subst hb
        cases congrArg List.length heq
      · rw [percentDecodeBytes_of_ne hb, formDecode_of_ne hb] at heq
        exact .plain hb (wellEscaped_of_eq (List.cons.inj heq).2)
  | b :: h :: l :: rest, heq => by
      by_cases hb : b = percent
      · subst hb
        cases hbyte : hexByteOf h l with
        | some byte =>
          rw [percentDecodeBytes_escape hbyte, formDecode_escape hbyte] at heq
          exact .escape hbyte (wellEscaped_of_eq (List.cons.inj heq).2)
        | none =>
          rw [formDecode_malformed hbyte] at heq
          rcases percentDecodeBytes_malformed hbyte rest with hlost | ⟨byte, hl, rfl, hsign⟩
          · rw [hlost] at heq
            obtain ⟨d, bs, hd, htail, ⟨rfl, rfl, rfl⟩ | ⟨rfl, rfl, rfl⟩⟩ :=
              of_lost (List.cons.inj heq).2
            · exact .twice hd (wellEscaped_of_eq htail)
            · exact .nested hd (wellEscaped_of_eq htail)
          · -- A digit with a sign is one byte here, and three there.
            have hlength := congrArg List.length heq
            have hle := length_percentDecodeBytes_le rest
            rw [hsign, formDecode_of_ne (b := plus) (by decide), formDecode_digit hl] at hlength
            simp only [List.length_cons] at hlength
            omega
      · rw [percentDecodeBytes_of_ne hb, formDecode_of_ne hb] at heq
        exact .plain hb (wellEscaped_of_eq (List.cons.inj heq).2)
termination_by bs => bs.length

theorem wellEscaped_of_encodes {encoded bytes : Bytes} (h : Encodes encoded bytes) :
    WellEscaped encoded := by
  induction h with
  | nil => exact .nil
  | keep hpercent _ _ ih => exact .plain hpercent ih
  | escape hbyte _ ih => exact .escape hbyte ih

/-- **What is percent-encoded is read back.** -/
theorem percentDecode_of_encodes {s path : String} (h : Encodes (encodeUtf8 s) (encodeUtf8 path)) :
    percentDecode s = path := by
  rw [percentDecode, formDecode_eq_of_wellEscaped (wellEscaped_of_encodes h),
    formDecode_of_encodes h, fromUtf8Lossy_encodeUtf8]

/-- **The decoder decodes forms exactly where the text is well escaped**, which the percent-encoding
of a path always is. -/
theorem percentDecode_iff (s : String) :
    (percentDecodeBytes (encodeUtf8 s) = formDecode (encodeUtf8 s) ↔ WellEscaped (encodeUtf8 s))
    ∧ ∀ path, Encodes (encodeUtf8 s) (encodeUtf8 path) → percentDecode s = path :=
  ⟨⟨wellEscaped_of_eq, formDecode_eq_of_wellEscaped⟩, fun _ h => percentDecode_of_encodes h⟩

/-- An `o` and an `f` are lost after the `%`. -/
theorem percentDecode_loses :
    (¬∀ s, percentDecodeBytes (encodeUtf8 s) = formDecode (encodeUtf8 s))
    ∧ percentDecodeBytes (encodeUtf8 "50%off") = encodeUtf8 "50%f"
    ∧ formDecode (encodeUtf8 "50%off") = encodeUtf8 "50%off" := by
  have htext : encodeUtf8 "50%off" = [0x35, 0x30, 0x25, 0x6F, 0x66, 0x66] :=
    (encodeUtf8_ofList ['5', '0', '%', 'o', 'f', 'f']).trans (by decide)
  have hshort : encodeUtf8 "50%f" = [0x35, 0x30, 0x25, 0x66] :=
    (encodeUtf8_ofList ['5', '0', '%', 'f']).trans (by decide)
  rw [htext, hshort]
  refine ⟨fun h => ?_, by decide, by decide⟩
  have hoff := h "50%off"
  rw [htext] at hoff
  revert hoff
  decide

theorem percentDecode_windows_path : percentDecode "C%3A%5CUsers" = "C:\\Users" := by
  have htext : encodeUtf8 "C%3A%5CUsers" = _ :=
    encodeUtf8_ofList ['C', '%', '3', 'A', '%', '5', 'C', 'U', 's', 'e', 'r', 's']
  have hpath : encodeUtf8 "C:\\Users" = _ :=
    encodeUtf8_ofList ['C', ':', '\\', 'U', 's', 'e', 'r', 's']
  have hencoded : encodeUtf8 "C%3A%5CUsers" =
      percentEncode (fun b => (latin1 b).isAlphanum) (encodeUtf8 "C:\\Users") := by
    rw [htext, hpath]
    decide
  exact (percentDecode_iff _).2 _ (hencoded ▸ encodes_percentEncode _ _)

/-! ## The query -/

/-- `str::split_once` -/
def splitOnce (c : Char) (text : List Char) : Option (List Char × List Char) :=
  if c ∈ text then some (text.takeWhile (· ≠ c), (text.dropWhile (· ≠ c)).tail) else none

/-- A pair of the query comes into the map, if there is a `=` in it. -/
def insertPair (map : Dict String String) (pair : List Char) : Dict String String :=
  match splitOnce '=' pair with
  | some (k, v) => map.set (percentDecode (String.ofList k)) (percentDecode (String.ofList v))
  | none => map

def parseQuery (fullPath : String) : String × Dict String String :=
  match splitOnce '?' fullPath.toList with
  | none => (fullPath, .empty)
  | some (path, query) =>
    (String.ofList path, (query.splitOnP (· = '&')).foldl insertPair .empty)

theorem splitOnce_append {c : Char} {before : List Char} (h : c ∉ before) (after : List Char) :
    splitOnce c (before ++ c :: after) = some (before, after) := by
  have hbefore : ∀ d ∈ before, decide (d ≠ c) = true := by
    intro d hd
    refine decide_eq_true ?_
    rintro rfl
    exact h hd
  rw [splitOnce, if_pos (List.mem_append_right _ List.mem_cons_self),
    List.takeWhile_append_of_pos hbefore, List.dropWhile_append_of_pos hbefore,
    List.takeWhile_cons_of_neg (p := fun d => decide (d ≠ c)) (by simp),
    List.dropWhile_cons_of_neg (p := fun d => decide (d ≠ c)) (by simp), List.append_nil,
    List.tail_cons]

section Query

variable {encode : String → String}

/-- A pair as a client writes it. -/
def pairText (encode : String → String) (pair : String × String) : List Char :=
  (encode pair.1).toList ++ '=' :: (encode pair.2).toList

theorem insertPair_pairText (hencode : ∀ s, Encodes (encodeUtf8 (encode s)) (encodeUtf8 s))
    (hchars : ∀ s, ∀ c ∈ (encode s).toList, c ≠ '&' ∧ c ≠ '=') (map : Dict String String)
    (pair : String × String) :
    insertPair map (pairText encode pair) = map.set pair.1 pair.2 := by
  have hkey : '=' ∉ (encode pair.1).toList := fun hc => (hchars _ _ hc).2 rfl
  rw [insertPair, pairText, splitOnce_append hkey]
  simp only [String.ofList_toList, percentDecode_of_encodes (hencode _)]

/-- **What a client asks for is what is read**: the pairs of the query, the last one of a key. -/
theorem parseQuery_append (hencode : ∀ s, Encodes (encodeUtf8 (encode s)) (encodeUtf8 s))
    (hchars : ∀ s, ∀ c ∈ (encode s).toList, c ≠ '&' ∧ c ≠ '=') {path : List Char}
    (hpath : '?' ∉ path) (pairs : List (String × String)) :
    parseQuery (String.ofList (path ++ '?' :: ['&'].intercalate (pairs.map (pairText encode)))) =
      (String.ofList path, pairs.foldl (fun map pair => map.set pair.1 pair.2) .empty) := by
  rw [parseQuery, String.toList_ofList, splitOnce_append hpath]
  simp only [Prod.mk.injEq, true_and]
  rcases eq_or_ne pairs [] with rfl | hne
  · rfl
  have hsep : ∀ l ∈ pairs.map (pairText encode), ∀ c ∈ l, decide (c = '&') = false := by
    intro l hl c hc
    obtain ⟨pair, -, rfl⟩ := List.mem_map.mp hl
    refine decide_eq_false ?_
    rintro rfl
    rcases List.mem_append.mp hc with hc | hc
    · exact (hchars _ _ hc).1 rfl
    · rcases List.mem_cons.mp hc with heq | hc
      · cases heq
      · exact (hchars _ _ hc).1 rfl
  have hmap : pairs.map (pairText encode) ≠ [] := by simpa using hne
  rw [splitOnP_intercalate (p := fun c => decide (c = '&')) rfl hmap hsep, List.foldl_map]
  simp only [insertPair_pairText hencode hchars]

end Query

end Pcos.Agent
