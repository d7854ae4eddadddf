import Pcos.Backend.Passwords
import Pcos.Foundations.ByteRange

/-!
# Backend/Ranges — the five servers that answer a `Range` header

    parse_range                  files download     nothing that does not parse; the end in the file
    unwrap_or(0), unwrap_or(…)   WebDAV, S3, media  an unparsable start is the start of the file
    parse_range                  LAN read           nothing that does not parse; the end clamped

A computation that underflows or indexes out of bounds is a `Fault`.  One does so on an empty file,
and three read `-s` as `0-s`: **a server answers one valid range rightly, and no header with a
fault, exactly under its condition in `Agrees`** (`answer_iff`).
-/

namespace Pcos.Ranges

open Foundations Passwords

/-! ## Checked arithmetic -/

inductive Fault
  | underflow
  | overflow
  | outOfBounds
  deriving DecidableEq

abbrev Checked := Except Fault

def sub (a b : ℕ) : Checked ℕ := if b ≤ a then .ok (a - b) else .error .underflow

def add (a b : ℕ) : Checked ℕ := if a + b < 2 ^ 64 then .ok (a + b) else .error .overflow

/-- `parts[i]` -/
def index {α : Type} (parts : List α) (i : ℕ) : Checked α :=
  match parts[i]? with
  | some part => .ok part
  | none => .error .outOfBounds

/-- `data[start..=end]` -/
def slice (data : Bytes) (start stop : ℕ) : Checked Bytes :=
  if start ≤ stop + 1 ∧ stop < data.length then .ok (bytesBetween data start stop)
  else .error .outOfBounds

/-- `parse::<u64>`, and `parse::<usize>` where it has 64 bits -/
def parseU64 (s : List Char) : Option ℕ :=
  let digits := stripPlus s
  if digits ≠ [] ∧ digits.all Char.isDigit ∧ Nat.ofDigitChars 10 digits 0 < 2 ^ 64 then
    some (Nat.ofDigitChars 10 digits 0)
  else none

/-! ## Answers -/

/-- A file's bytes; its length is a `u64`. -/
structure Content where
  bytes : Bytes
  length_lt : bytes.length < 2 ^ 64

abbrev Content.size (file : Content) : ℕ := file.bytes.length

/-- A 200 with all of the bytes, or a 206 with `Content-Range: bytes first-last/total`. -/
inductive Answer
  | whole (body : Bytes)
  | partialContent (first last total : ℕ) (body : Bytes)
  deriving DecidableEq

/-- The bytes read from the file: `seek` to the start, and `take` so many. -/
def streamed (file : Content) (start stop : ℕ) : Checked Answer := do
  let length ← add (← sub stop start) 1
  pure (.partialContent start stop file.size ((file.bytes.drop start).take length))

/-- The bytes cut out of what was read. -/
def cut (file : Content) (start stop : ℕ) : Checked Answer := do
  let body ← slice file.bytes start stop
  let _length ← add (← sub stop start) 1
  pure (.partialContent start stop file.size body)

/-- The answer to the header, by the range that is made of it and the bytes given for one. -/
def respond (parse : String → ℕ → Checked (Option (ℕ × ℕ)))
    (give : Content → ℕ → ℕ → Checked Answer) (file : Content) (range : Option String) :
    Checked Answer :=
  match range with
  | none => pure (.whole file.bytes)
  | some header => do
    match ← parse header file.size with
    | none => pure (.whole file.bytes)
    | some (start, stop) => give file start stop

/-- What follows `bytes=`, between the hyphens. -/
def rangeParts (header : String) : Option (List (List Char)) :=
  if "bytes=".toList.isPrefixOf header.toList then some ((header.toList.drop 6).splitOn '-') else none

/-! ## The servers -/

/-- The end of a range, of what stands after the hyphen; nothing there is the last byte. -/
def parseEnd (after : List Char) (total : ℕ) : Checked (Option ℕ) :=
  if after.isEmpty then some <$> sub total 1 else pure (parseU64 after)

/-- `parse_range` of `handlers.rs` -/
def parseRange (range : String) (total : ℕ) : Checked (Option (ℕ × ℕ)) :=
  match rangeParts range with
  | some [before, after] =>
    match parseU64 before with
    | none => pure none
    | some start => do
      let stop ← parseEnd after total
      pure (stop.bind fun stop =>
        if stop < start ∨ total ≤ stop then none else some (start, stop))
  | _ => pure none

/-- `GET /api/v1/files/:id/download` -/
def downloadFile : Content → Option String → Checked Answer := respond parseRange streamed

/-- The ranges of `webdav.rs`, `s3_compat.rs` and `streaming/handlers.rs`. -/
def defaultingRange (range : String) (totalSize : ℕ) : Checked (Option (ℕ × ℕ)) :=
  match rangeParts range with
  | none => pure none
  | some parts => do
    let start := (parseU64 (← index parts 0)).getD 0
    let stop := (parts[1]?.bind parseU64).getD (totalSize - 1)
    pure (if start < totalSize ∧ start ≤ stop then some (start, min stop (totalSize - 1)) else none)

/-- `GET` on the WebDAV tree -/
def webdavGet : Content → Option String → Checked Answer := respond defaultingRange cut

/-- `GetObject` -/
def getObject : Content → Option String → Checked Answer := respond defaultingRange cut

/-- `GET /api/v1/streaming/play/:token` -/
def playWithToken : Content → Option String → Checked Answer := respond defaultingRange streamed

/-- The end of a range for `lan_server.rs`, not beyond the last byte. -/
def lanEnd (parts : List (List Char)) (totalSize : ℕ) : Option ℕ :=
  match parts[1]?.filter fun part => !part.isEmpty with
  | some part => (parseU64 part).map (min · (totalSize - 1))
  | none => some (totalSize - 1)

/-- `parse_range` of `lan_server.rs` -/
def lanParseRange (range : String) (totalSize : ℕ) : Checked (Option (ℕ × ℕ)) :=
  match rangeParts range with
  | none => pure none
  | some parts => do
    let before ← index parts 0
    pure ((parseU64 before).bind fun start =>
      (lanEnd parts totalSize).bind fun stop =>
        if start ≤ stop ∧ start < totalSize then some (start, stop) else none)

/-- `GET /api/v1/lan/fs/read` -/
def lanRead : Content → Option String → Checked Answer := respond lanParseRange streamed

/-- Who is asked. -/
inductive Server
  | download
  | webdav
  | s3
  | playback
  | lan
  deriving DecidableEq

def Server.answer : Server → Content → Option String → Checked Answer
  | .download => downloadFile
  | .webdav => webdavGet
  | .s3 => getObject
  | .playback => playWithToken
  | .lan => lanRead

/-! ## Numbers -/

theorem parseU64_nil : parseU64 [] = none := rfl

theorem parseU64_digits (d : Digits) :
    parseU64 d.chars = if d.value < 2 ^ 64 then some d.value else none := by
  have hplus : stripPlus d.chars = d.chars := by
    unfold stripPlus
    split
    · rename_i rest heq
      exact absurd (heq ▸ List.mem_cons_self) (d.forall_ne (c := '+') (by decide))
    · rfl
  have hall : d.chars.all Char.isDigit = true := List.all_eq_true.mpr d.isDigit
  simp only [parseU64, hplus, hall, d.ne_nil, Digits.value, ne_eq, not_false_eq_true, true_and]
  exact if_congr Iff.rfl rfl rfl

theorem rangeParts_text (spec : RangeSpec) :
    rangeParts spec.text = some [spec.before, spec.after] := by
  rw [rangeParts, if_pos spec.isPrefixOf_text, spec.splitOn_text]

theorem rangeParts_ne_nil {header : String} {parts : List (List Char)}
    (h : rangeParts header = some parts) : parts ≠ [] := by
  unfold rangeParts at h
  split at h
  · obtain rfl := Option.some.inj h
    exact List.splitOn_ne_nil _ _
  · cases h

/-! ## What a range is answered with -/

section Answers

variable {file : Content}

/-- The answer to a range, or without one. -/
def Content.answer (file : Content) : Option (ℕ × ℕ) → Answer
  | none => .whole file.bytes
  | some (first, last) =>
    .partialContent first last file.size (bytesBetween file.bytes first last)

theorem sub_ok {a b : ℕ} (h : b ≤ a) : sub a b = .ok (a - b) := if_pos h

/-- The length of a range of the file is a `u64`. -/
theorem add_ok {first last : ℕ} (hlt : last < file.size) :
    add (last - first) 1 = .ok (last - first + 1) := by
  have hsize := file.length_lt
  unfold Content.size at hlt
  exact if_pos (by omega)

theorem streamed_ok {first last : ℕ} (hle : first ≤ last) (hlt : last < file.size) :
    streamed file first last = .ok (file.answer (some (first, last))) := by
  simp only [streamed, sub_ok hle, bind, Except.bind, add_ok hlt]
  rfl

theorem cut_ok {first last : ℕ} (hle : first ≤ last) (hlt : last < file.size) :
    cut file first last = .ok (file.answer (some (first, last))) := by
  have hslice : slice file.bytes first last = .ok (bytesBetween file.bytes first last) :=
    if_pos ⟨Nat.le_succ_of_le hle, hlt⟩
  simp only [cut, hslice, sub_ok hle, bind, Except.bind, add_ok hlt]
  rfl

variable {parse : String → ℕ → Checked (Option (ℕ × ℕ))}
  {give : Content → ℕ → ℕ → Checked Answer} {header : String}

/-- A range of the file is answered with its bytes. -/
theorem respond_ok (hgive : ∀ first last, first ≤ last → last < file.size →
      give file first last = .ok (file.answer (some (first, last))))
    {range : Option (ℕ × ℕ)} (hparse : parse header file.size = .ok range)
    (hrange : ∀ r ∈ range, r.1 ≤ r.2 ∧ r.2 < file.size) :
    respond parse give file (some header) = .ok (file.answer range) := by
  simp only [respond, hparse, bind, Except.bind]
  cases range with
  | none => rfl
  | some r => exact hgive r.1 r.2 (hrange r rfl).1 (hrange r rfl).2

theorem respond_error {fault : Fault} (hparse : parse header file.size = .error fault) :
    respond parse give file (some header) = .error fault := by
  simp only [respond, hparse, bind, Except.bind]

end Answers

/-! ## The three ways of reading a header -/

section Parsers

variable (header : String) (size : ℕ)

/-- The header asks an empty file for all from a position on. -/
def Underflows : Prop :=
  size = 0 ∧ ∃ before, rangeParts header = some [before, []] ∧ (parseU64 before).isSome

theorem parseRange_of_underflows (h : Underflows header size) :
    parseRange header size = .error .underflow := by
  obtain ⟨rfl, before, hparts, hbefore⟩ := h
  obtain ⟨start, hstart⟩ := Option.isSome_iff_exists.mp hbefore
  simp only [parseRange, hparts, hstart]
  rfl

theorem parseEnd_ok {before after : List Char} (hparts : rangeParts header = some [before, after])
    (hbefore : (parseU64 before).isSome) (h : ¬ Underflows header size) :
    ∃ stop, parseEnd after size = .ok stop := by
  unfold parseEnd
  cases hafter : after.isEmpty with
  | true =>
    have hpos : 1 ≤ size := by
      by_contra hzero
      obtain rfl := List.isEmpty_iff.mp hafter
      exact h ⟨by omega, before, hparts, hbefore⟩
    rw [if_pos rfl, sub_ok hpos]
    exact ⟨_, rfl⟩
  | false => exact ⟨_, rfl⟩

theorem parseRange_ok (h : ¬ Underflows header size) :
    ∃ range, parseRange header size = .ok range ∧ ∀ r ∈ range, r.1 ≤ r.2 ∧ r.2 < size := by
  unfold parseRange
  split
  · rename_i before after hparts
    split
    · exact ⟨none, rfl, by simp⟩
    · rename_i start hstart
      obtain ⟨stop, hstop⟩ := parseEnd_ok header size hparts (by rw [hstart]; rfl) h
      rw [hstop]
      refine ⟨_, rfl, fun r hr => ?_⟩
      obtain ⟨stop', -, hr⟩ := Option.bind_eq_some_iff.mp hr
      split at hr
      · cases hr
      · obtain rfl := Option.some.inj hr
        dsimp only
        omega
  · exact ⟨none, rfl, by simp⟩

theorem index_zero {parts : List (List Char)} (h : parts ≠ []) :
    ∃ part, index parts 0 = .ok part := by
  obtain ⟨part, rest, rfl⟩ := List.exists_cons_of_ne_nil h
  exact ⟨part, rfl⟩

theorem defaultingRange_ok :
    ∃ range, defaultingRange header size = .ok range ∧ ∀ r ∈ range, r.1 ≤ r.2 ∧ r.2 < size := by
  unfold defaultingRange
  split
  · exact ⟨none, rfl, by simp⟩
  · rename_i parts hparts
    obtain ⟨part, hpart⟩ := index_zero (rangeParts_ne_nil hparts)
    rw [hpart]
    refine ⟨_, rfl, fun r hr => ?_⟩
    split at hr
    · obtain rfl := Option.some.inj hr
      dsimp only
      omega
    · cases hr

theorem lanEnd_le {parts : List (List Char)} {stop : ℕ} (h : lanEnd parts size = some stop) :
    stop ≤ size - 1 := by
  unfold lanEnd at h
  split at h
  · obtain ⟨n, -, rfl⟩ := Option.map_eq_some_iff.mp h
    exact Nat.min_le_right _ _
  · exact (Option.some.inj h).ge

theorem lanParseRange_ok :
    ∃ range, lanParseRange header size = .ok range ∧ ∀ r ∈ range, r.1 ≤ r.2 ∧ r.2 < size := by
  unfold lanParseRange
  split
  · exact ⟨none, rfl, by simp⟩
  · rename_i parts hparts
    obtain ⟨part, hpart⟩ := index_zero (rangeParts_ne_nil hparts)
    rw [hpart]
    refine ⟨_, rfl, fun r hr => ?_⟩
    obtain ⟨start, -, hr⟩ := Option.bind_eq_some_iff.mp hr
    obtain ⟨stop, hstop, hr⟩ := Option.bind_eq_some_iff.mp hr
    have hle := lanEnd_le size hstop
    split at hr
    · obtain rfl := Option.some.inj hr
      dsimp only
      omega
    · cases hr

end Parsers

/-! ## One valid range -/

section Valid

variable {spec : RangeSpec} {size : ℕ}

/-- What three of the servers make of one range: the numbers, where they are read. -/
theorem defaultingRange_text (spec : RangeSpec) (size : ℕ) :
    defaultingRange spec.text size = .ok
      (if (parseU64 spec.before).getD 0 < size
          ∧ (parseU64 spec.before).getD 0 ≤ (parseU64 spec.after).getD (size - 1) then
        some ((parseU64 spec.before).getD 0, min ((parseU64 spec.after).getD (size - 1)) (size - 1))
      else none) := by
  simp only [defaultingRange, rangeParts_text]
  rfl

theorem resolve_span {first last : Digits} (h : first.value < size) :
    (RangeSpec.span first last).resolve size = some (first.value, min last.value (size - 1)) :=
  RangeSpec.resolve_eq_some (Nat.zero_lt_of_lt h) h

theorem resolve_openEnd {first : Digits} (h : first.value < size) :
    (RangeSpec.openEnd first).resolve size = some (first.value, size - 1) :=
  RangeSpec.resolve_eq_some (Nat.zero_lt_of_lt h) h

/-- A number is read as itself, or not at all. -/
theorem eq_value_of_parseU64 {d : Digits} {n : ℕ} (h : parseU64 d.chars = some n) : n = d.value := by
  rw [parseU64_digits] at h
  split at h
  · exact (Option.some.inj h).symm
  · cases h

theorem parseEnd_chars (d : Digits) (size : ℕ) : parseEnd d.chars size = .ok (parseU64 d.chars) := by
  rw [parseEnd, if_neg (mt List.isEmpty_iff.mp d.ne_nil)]
  rfl

theorem parseEnd_nil {stop : ℕ} (h : parseEnd [] size = .ok (some stop)) : stop = size - 1 := by
  rw [parseEnd, if_pos List.isEmpty_nil] at h
  by_cases hpos : 1 ≤ size
  · rw [sub_ok hpos] at h
    exact (Option.some.inj (Except.ok.inj h)).symm
  · rw [sub, if_neg hpos] at h
    cases h

/-- **`parse_range` of the file download gives the range of RFC 7233, or none.** -/
theorem parseRange_text {range : Option (ℕ × ℕ)} (h : parseRange spec.text size = .ok range) :
    range = none ∨ spec.resolve size = range := by
  simp only [parseRange, rangeParts_text] at h
  cases hbefore : parseU64 spec.before with
  | none =>
    rw [hbefore] at h
    exact .inl (Except.ok.inj h).symm
  | some start =>
    simp only [hbefore, bind, Except.bind] at h
    cases hstop : parseEnd spec.after size with
    | error fault =>
      rw [hstop] at h
      cases h
    | ok stop =>
      rw [hstop] at h
      obtain rfl := Except.ok.inj h
      cases stop with
      | none => exact .inl rfl
      | some stop =>
        rw [Option.bind_some]
        split
        · exact .inl rfl
        · rename_i hin
          refine .inr ?_
          cases spec with
          | span first last =>
            obtain rfl := eq_value_of_parseU64 hbefore
            rw [RangeSpec.after, parseEnd_chars] at hstop
            obtain rfl := eq_value_of_parseU64 (Except.ok.inj hstop)
            rw [resolve_span (by omega), Nat.min_eq_left (by omega)]
          | openEnd first =>
            obtain rfl := eq_value_of_parseU64 hbefore
            obtain rfl := parseEnd_nil hstop
            exact resolve_openEnd (by omega)
          | suffix length => cases hbefore

theorem lanEnd_chars {before : List Char} {d : Digits} {stop : ℕ}
    (h : lanEnd [before, d.chars] size = some stop) :
    ∃ n, parseU64 d.chars = some n ∧ min n (size - 1) = stop := by
  have hfilter : (some d.chars).filter (fun part => !part.isEmpty) = some d.chars :=
    Option.filter_eq_some_iff.mpr ⟨rfl, by simpa using d.ne_nil⟩
  unfold lanEnd at h
  change (match (some d.chars).filter fun part => !part.isEmpty with
    | some part => (parseU64 part).map (min · (size - 1))
    | none => some (size - 1)) = some stop at h
  rw [hfilter] at h
  exact Option.map_eq_some_iff.mp h

theorem lanParseRange_text {range : Option (ℕ × ℕ)}
    (h : lanParseRange spec.text size = .ok range) : range = none ∨ spec.resolve size = range := by
  simp only [lanParseRange, rangeParts_text] at h
  obtain rfl := Except.ok.inj h
  cases hbefore : parseU64 spec.before with
  | none => exact .inl rfl
  | some start =>
    cases hstop : lanEnd [spec.before, spec.after] size with
    | none => exact .inl rfl
    | some stop =>
      rw [Option.bind_some, Option.bind_some]
      split
      · rename_i hin
        refine .inr ?_
        cases spec with
        | span first last =>
          obtain rfl := eq_value_of_parseU64 hbefore
          obtain ⟨n, hn, rfl⟩ := lanEnd_chars hstop
          rw [resolve_span hin.2, eq_value_of_parseU64 hn]
        | openEnd first =>
          obtain rfl := eq_value_of_parseU64 hbefore
          obtain rfl := Option.some.inj hstop
          exact resolve_openEnd hin.2
        | suffix length => cases hbefore
      · exact .inl rfl

theorem getD_parseU64 (d : Digits) (n : ℕ) :
    (parseU64 d.chars).getD n = if d.value < 2 ^ 64 then d.value else n := by
  rw [parseU64_digits]
  split
  · rfl
  · rfl

/-- The start is read, or stands for what is left of the file. -/
def ReadsStart (size : ℕ) : RangeSpec → Prop
  | .span first _ => first.value < 2 ^ 64
  | .openEnd first => first.value < 2 ^ 64
  | .suffix length => size ≤ length.value

theorem defaultingRange_resolve_iff (hvalid : spec.Valid) (hsize : size < 2 ^ 64)
    {range : Option (ℕ × ℕ)} (h : defaultingRange spec.text size = .ok range) :
    (range = none ∨ spec.resolve size = range) ↔ size = 0 ∨ ReadsStart size spec := by
  rw [defaultingRange_text] at h
  obtain rfl := Except.ok.inj h
  rcases Nat.eq_zero_or_pos size with rfl | hpos
  · exact iff_of_true (.inl (if_neg fun h => Nat.not_lt_zero _ h.1)) (.inl rfl)
  · rw [or_iff_right hpos.ne']
    cases spec with
    | span first last =>
      have hle : first.value ≤ last.value := hvalid
      rw [RangeSpec.before, RangeSpec.after, getD_parseU64, getD_parseU64, ReadsStart]
      -- an end that is not read is beyond the file
      have hstop : min (if last.value < 2 ^ 64 then last.value else size - 1) (size - 1)
          = min last.value (size - 1) := by
        split
        · rfl
        · omega
      rw [hstop]
      by_cases hfirst : first.value < 2 ^ 64
      · rw [if_pos hfirst, iff_true_right hfirst]
        by_cases hlt : first.value < size
        · exact (em _).imp (fun h => if_neg h) fun h => by
            rw [if_pos (not_not.mp h), resolve_span hlt]
        · exact .inl (if_neg fun h => hlt h.1)
      · rw [if_neg hfirst, if_pos ⟨hpos, Nat.zero_le _⟩, iff_false_right hfirst]
        have hnone : (RangeSpec.span first last).resolve size = none :=
          RangeSpec.resolve_eq_none fun _ (hsat : first.value < size) => by omega
        simp [hnone]
    | openEnd first =>
      rw [RangeSpec.before, RangeSpec.after, getD_parseU64, parseU64_nil, Option.getD_none,
        Nat.min_self, ReadsStart]
      by_cases hfirst : first.value < 2 ^ 64
      · rw [if_pos hfirst, iff_true_right hfirst]
        split
        · rename_i hin
          exact .inr (resolve_openEnd hin.1)
        · exact .inl rfl
      · rw [if_neg hfirst, if_pos ⟨hpos, Nat.zero_le _⟩, iff_false_right hfirst]
        have hnone : (RangeSpec.openEnd first).resolve size = none :=
          RangeSpec.resolve_eq_none fun _ (hsat : first.value < size) => by omega
        simp [hnone]
    | suffix length =>
      rw [RangeSpec.before, RangeSpec.after, getD_parseU64, parseU64_nil, Option.getD_none,
        if_pos ⟨hpos, Nat.zero_le _⟩, or_iff_right (by simp), ReadsStart]
      by_cases hzero : length.value = 0
      · have hnone : (RangeSpec.suffix length).resolve size = none :=
          RangeSpec.resolve_eq_none fun _ hsat => hsat hzero
        rw [hnone, hzero]
        exact iff_of_false (by simp) (by omega)
      · have hsome : (RangeSpec.suffix length).resolve size
            = some (size - length.value, size - 1) := RangeSpec.resolve_eq_some hpos hzero
        rw [hsome, Option.some_inj, Prod.mk.injEq]
        split
        · omega
        · omega

end Valid

/-! ## The servers, and one range -/

/-- A 206 has the bytes that RFC 7233 assigns to the range, and says so. -/
def Right (file : Content) (spec : RangeSpec) : Answer → Prop
  | .whole body => body = file.bytes
  | .partialContent first last total body => spec.resolve file.size = some (first, last) ∧
      total = file.size ∧ body = bytesBetween file.bytes first last

/-- When a server does not fail, and answers a valid range rightly: the file download, unless it is
asked for all from a position on of an empty file; three others, if the start of a range is there and
a `u64`, or the suffix is all of the file; the LAN server, always. -/
def Agrees : Server → ℕ → String → Prop
  | .download, size, header => ¬ Underflows header size
  | .webdav, size, header | .s3, size, header | .playback, size, header =>
    ∀ spec : RangeSpec, spec.Valid → header = spec.text → size = 0 ∨ ReadsStart size spec
  | .lan, _, _ => True

section Servers

variable (file : Content) (header : String)

theorem right_iff (spec : RangeSpec) (range : Option (ℕ × ℕ)) :
    Right file spec (file.answer range) ↔ range = none ∨ spec.resolve file.size = range := by
  cases range with
  | none => exact iff_of_true rfl (.inl rfl)
  | some r => simp [Content.answer, Right]

/-- A server that has read a range of the file answers with it. -/
theorem answered_iff {server : Server} {range : Option (ℕ × ℕ)}
    (h : server.answer file (some header) = .ok (file.answer range)) :
    (∃ answer, server.answer file (some header) = .ok answer ∧
        ∀ spec : RangeSpec, spec.Valid → header = spec.text → Right file spec answer) ↔
      ∀ spec : RangeSpec, spec.Valid → header = spec.text →
        range = none ∨ spec.resolve file.size = range := by
  constructor
  · rintro ⟨answer, hanswer, hright⟩ spec hvalid hheader
    obtain rfl := Except.ok.inj (h.symm.trans hanswer)
    exact (right_iff file spec range).mp (hright spec hvalid hheader)
  · exact fun hall => ⟨_, h, fun spec hvalid hheader =>
      (right_iff file spec range).mpr (hall spec hvalid hheader)⟩

/-- The servers that let an unparsable start be the start of the file. -/
theorem answered_iff_of_defaulting {server : Server}
    {give : Content → ℕ → ℕ → Checked Answer}
    (hserver : server.answer = respond defaultingRange give)
    (hgive : ∀ first last, first ≤ last → last < file.size →
      give file first last = .ok (file.answer (some (first, last)))) :
    (∃ answer, server.answer file (some header) = .ok answer ∧
        ∀ spec : RangeSpec, spec.Valid → header = spec.text → Right file spec answer) ↔
      ∀ spec : RangeSpec, spec.Valid → header = spec.text →
        file.size = 0 ∨ ReadsStart file.size spec := by
  obtain ⟨range, hparse, hrange⟩ := defaultingRange_ok header file.size
  have hanswer : server.answer file (some header) = .ok (file.answer range) :=
    hserver ▸ respond_ok hgive hparse hrange
  rw [answered_iff file header hanswer]
  refine forall_congr' fun spec => forall_congr' fun hvalid => forall_congr' fun hheader => ?_
  exact defaultingRange_resolve_iff hvalid file.length_lt (hheader ▸ hparse)

/-- **A server answers without a fault, and a valid range rightly, exactly when it agrees with
RFC 7233.** -/
theorem answer_iff (server : Server) :
    (∃ answer, server.answer file (some header) = .ok answer ∧
        ∀ spec : RangeSpec, spec.Valid → header = spec.text → Right file spec answer) ↔
      Agrees server file.size header := by
  cases server with
  | download =>
    by_cases hunder : Underflows header file.size
    · have hanswer : Server.download.answer file (some header) = .error .underflow :=
        respond_error (parseRange_of_underflows header file.size hunder)
      refine iff_of_false ?_ (not_not.mpr hunder)
      rintro ⟨answer, hok, -⟩
      cases hanswer.symm.trans hok
    · obtain ⟨range, hparse, hrange⟩ := parseRange_ok header file.size hunder
      have hanswer : Server.download.answer file (some header) = .ok (file.answer range) :=
        respond_ok (fun _ _ => streamed_ok) hparse hrange
      rw [answered_iff file header hanswer]
      exact iff_of_true (fun spec _ hheader => parseRange_text (hheader ▸ hparse)) hunder
  | webdav => exact answered_iff_of_defaulting file header rfl fun _ _ => cut_ok
  | s3 => exact answered_iff_of_defaulting file header rfl fun _ _ => cut_ok
  | playback => exact answered_iff_of_defaulting file header rfl fun _ _ => streamed_ok
  | lan =>
    obtain ⟨range, hparse, hrange⟩ := lanParseRange_ok header file.size
    have hanswer : Server.lan.answer file (some header) = .ok (file.answer range) :=
      respond_ok (fun _ _ => streamed_ok) hparse hrange
    rw [answered_iff file header hanswer]
    exact iff_of_true (fun spec _ hheader => lanParseRange_text (hheader ▸ hparse)) trivial

end Servers

/-! ## The last three bytes of ten, and all of an empty file -/

def three : Digits := ⟨['3'], by decide, forall_mem_of_all (by decide)⟩

def tenBytes : Content := ⟨[0, 1, 2, 3, 4, 5, 6, 7, 8, 9], by decide⟩

def noBytes : Content := ⟨[], by decide⟩

/-- A media player that asks for the last three bytes is given the first four, and a download of an
empty file from its start on underflows. -/
theorem not_answered :
    (RangeSpec.suffix three).text = "bytes=-3"
      ∧ playWithToken tenBytes (some "bytes=-3") = .ok (.partialContent 0 3 10 [0, 1, 2, 3])
      ∧ (RangeSpec.suffix three).resolve tenBytes.size = some (7, 9)
      ∧ downloadFile noBytes (some "bytes=0-") = .error .underflow
      ∧ ¬ ∀ (server : Server) (file : Content) (header : String), ∃ answer,
        server.answer file (some header) = .ok answer ∧
          ∀ spec : RangeSpec, spec.Valid → header = spec.text → Right file spec answer := by
  have hfault : downloadFile noBytes (some "bytes=0-") = .error .underflow := by decide
  refine ⟨by decide, by decide, by decide, hfault, fun h => ?_⟩
  obtain ⟨answer, hok, -⟩ := h .download noBytes "bytes=0-"
  cases hfault.symm.trans hok

end Pcos.Ranges
