import Mathlib.Data.List.Infix
import Pcos.Foundations.PercentCoding

/-!
# Foundations/Xml — the text of an XML document

    text ──normalize──▸ one kind of line end ──lex──▸ tokens ──nest──▸ open elements

The markup is read character by character, and only what is well formed is read to its end: tags
with their attributes, references, comments, processing instructions and `CDATA` sections.  There is
no document type, so references are to characters and to the five predefined entities.

A text without markup is what it says (`lex_of_isText`); any other text says less than it has
characters (`lex_content`).  An element is closed no oftener than an end tag is written
(`countP_stop_le`).
-/

namespace Foundations.Xml

/-! ## Characters and names -/

abbrev Name := List Char

/-- A character that a document may have. -/
def isXmlChar (c : Char) : Bool :=
  c = '\t' || c = '\n' || c = '\r' || (0x20 ≤ c.toNat && c.toNat ≤ 0xFFFD) || 0x10000 ≤ c.toNat

def isSpace (c : Char) : Bool := c = ' ' || c = '\t' || c = '\n' || c = '\r'

def inRanges (ranges : List (ℕ × ℕ)) (c : Char) : Bool :=
  ranges.any fun (first, last) => first ≤ c.toNat && c.toNat ≤ last

/-- A character that may begin a name. -/
def isNameStart : Char → Bool :=
  inRanges [(0x3A, 0x3A), (0x41, 0x5A), (0x5F, 0x5F), (0x61, 0x7A), (0xC0, 0xD6), (0xD8, 0xF6),
    (0xF8, 0x2FF), (0x370, 0x37D), (0x37F, 0x1FFF), (0x200C, 0x200D), (0x2070, 0x218F),
    (0x2C00, 0x2FEF), (0x3001, 0xD7FF), (0xF900, 0xFDCF), (0xFDF0, 0xFFFD), (0x10000, 0xEFFFF)]

def isNameChar (c : Char) : Bool :=
  isNameStart c ||
    inRanges [(0x2D, 0x2E), (0x30, 0x39), (0xB7, 0xB7), (0x300, 0x36F), (0x203F, 0x2040)] c

/-- The name with one more character. -/
def extendName (name : Name) (c : Char) : Option Name :=
  if isNameStart c || (name ≠ [] && isNameChar c) then some (name ++ [c]) else none

/-! ## References -/

def number (base : ℕ) (digits : List Char) : Option ℕ :=
  if digits = [] then none
  else digits.foldlM (fun n c => ((hexDigit c).filter (· < base)).map (base * n + ·)) 0

def charOf (n : ℕ) : Option Char :=
  if h : n.isValidChar then some (Char.ofNatAux n h) |>.filter isXmlChar else none

/-- The character that `&…;` stands for. -/
def reference : List Char → Option Char
  | '#' :: 'x' :: digits => (number 16 digits).bind charOf
  | '#' :: digits => (number 10 digits).bind charOf
  | name => [("lt".toList, '<'), ("gt".toList, '>'), ("amp".toList, '&'), ("apos".toList, '\''),
      ("quot".toList, '"')].lookup name

/-! ## Line ends -/

/-- A carriage return, and a line feed that may follow it, become a line feed. -/
def normalize (afterReturn : Bool) : List Char → List Char
  | [] => []
  | c :: cs =>
    if c = '\n' && afterReturn then normalize false cs
    else (if c = '\r' then '\n' else c) :: normalize (c = '\r') cs

section Normalize

variable {r : Bool} {c : Char} {cs ds : List Char}

theorem mem_normalize (h : c ∈ normalize r cs) : c ∈ cs ∨ c = '\n' := by
  induction cs generalizing r with
  | nil => exact .inl h
  | cons d cs ih =>
    rw [normalize] at h
    split_ifs at h with hfeed hreturn
    · exact (ih h).imp_left (List.mem_cons_of_mem d)
    · rcases List.mem_cons.mp h with rfl | h
      · exact .inr rfl
      · exact (ih h).imp_left (List.mem_cons_of_mem d)
    · rcases List.mem_cons.mp h with rfl | h
      · exact .inl List.mem_cons_self
      · exact (ih h).imp_left (List.mem_cons_of_mem d)

theorem return_notMem_normalize : '\r' ∉ normalize r cs := by
  induction cs generalizing r with
  | nil => exact nofun
  | cons d cs ih =>
    rw [normalize]
    split_ifs with hfeed hreturn
    · exact ih
    · exact List.not_mem_cons_of_ne_of_not_mem (by decide) ih
    · exact List.not_mem_cons_of_ne_of_not_mem (Ne.symm hreturn) ih

theorem length_normalize_le : (normalize r cs).length ≤ cs.length := by
  induction cs generalizing r with
  | nil => exact Nat.le_refl 0
  | cons d cs ih =>
    rw [normalize]
    split_ifs
    · exact ih.trans (Nat.le_succ _)
    · exact Nat.succ_le_succ ih
    · exact Nat.succ_le_succ ih

theorem normalize_append_of_notMem (h : '\r' ∉ cs) :
    normalize false (cs ++ ds) = cs ++ normalize false ds := by
  induction cs with
  | nil => rfl
  | cons d cs ih =>
    obtain ⟨hd, hcs⟩ := List.ne_and_not_mem_of_not_mem_cons h
    simp [normalize, Ne.symm hd, ih hcs]

theorem normalize_of_notMem (h : '\r' ∉ cs) : normalize false cs = cs := by
  have happend : normalize false (cs ++ []) = cs ++ normalize false [] :=
    normalize_append_of_notMem h
  rwa [List.append_nil, normalize, List.append_nil] at happend

/-- What does not begin with a line feed is not part of a line end begun before. -/
theorem normalize_append (hc : c ≠ '\n') :
    normalize r (cs ++ c :: ds) = normalize r cs ++ normalize false (c :: ds) := by
  induction cs generalizing r with
  | nil => simp [normalize, hc]
  | cons d cs ih =>
    rw [List.cons_append, normalize, normalize, ih, ih]
    split_ifs
    · rfl
    · rfl
    · rfl

end Normalize

/-! ## Tokens -/

/-- `cdata` is the beginning of a section; its characters follow as text. -/
inductive Token
  | text (c : Char)
  | reference (c : Char)
  | cdata
  | start (name : Name) (attributes : List Name)
  | stop (name : Name)
  | empty (name : Name) (attributes : List Name)
  deriving DecidableEq

/-- Where in a start tag: in its name, after a space, in the name of an attribute, after it, before
the value, in it (and in a reference), after it, after the slash of an empty element. -/
inductive Place
  | name
  | gap
  | attr (attr : Name)
  | equals (attr : Name)
  | quote
  | value (quote : Char) (reference : Option (List Char))
  | done
  | slash
  deriving DecidableEq

/-- What has been begun.  Brackets, dashes and a question mark are counted where they may be part of
an end. -/
inductive Mode
  | content (brackets : ℕ)
  | reference (name : List Char)
  | lt
  | bang (seen : List Char)
  | comment (dashes : ℕ)
  | cdata (brackets : ℕ)
  | target (name : Name)
  | targetEnd
  | instruction (mark : Bool)
  | tag (name : Name) (attributes : List Name) (place : Place)
  | stop (name : Name) (spaces : List Char)
  deriving DecidableEq

/-- The mode after a character, and the tokens that it ends. -/
abbrev Step := Option (Mode × List Token)

def goto (m : Mode) : Step := some (m, [])

def contentStep (brackets : ℕ) (c : Char) : Step :=
  if c = '<' then goto .lt
  else if c = '&' then goto (.reference [])
  else if c = ']' then some (.content (min (brackets + 1) 2), [.text c])
  else if c = '>' && brackets = 2 then none
  else some (.content 0, [.text c])

def referenceStep (name : List Char) (c : Char) : Step :=
  if c = ';' then (Xml.reference name).map fun d => (.content 0, [.reference d])
  else if c = '#' || isNameChar c then goto (.reference (name ++ [c]))
  else none

def ltStep (c : Char) : Step :=
  if c = '/' then goto (.stop [] [])
  else if c = '!' then goto (.bang [])
  else if c = '?' then goto (.target [])
  else (extendName [] c).bind fun name => goto (.tag name [] .name)

def bangStep (seen : List Char) (c : Char) : Step :=
  if seen ++ [c] = "--".toList then goto (.comment 0)
  else if seen ++ [c] = "[CDATA[".toList then some (.cdata 0, [.cdata])
  else if (seen ++ [c]).isPrefixOf "--".toList || (seen ++ [c]).isPrefixOf "[CDATA[".toList then
    goto (.bang (seen ++ [c]))
  else none

def commentStep (dashes : ℕ) (c : Char) : Step :=
  if dashes = 2 then if c = '>' then goto (.content 0) else none
  else goto (.comment (if c = '-' then dashes + 1 else 0))

def cdataStep (brackets : ℕ) (c : Char) : Step :=
  if c = ']' then
    if brackets = 2 then some (.cdata 2, [.text ']']) else goto (.cdata (brackets + 1))
  else if c = '>' && brackets = 2 then goto (.content 0)
  else some (.cdata 0, List.replicate brackets (.text ']') ++ [.text c])

/-- A target that an instruction may have. -/
def isTarget (name : Name) : Bool := name ≠ [] && name.map Char.toLower ≠ "xml".toList

def targetStep (name : Name) (c : Char) : Step :=
  if isSpace c && isTarget name then goto (.instruction false)
  else if c = '?' && isTarget name then goto .targetEnd
  else (extendName name c).bind fun name => goto (.target name)

def targetEndStep (c : Char) : Step := if c = '>' then goto (.content 0) else none

def instructionStep (mark : Bool) (c : Char) : Step :=
  if c = '>' && mark then goto (.content 0) else goto (.instruction (c = '?'))

/-- After the name of a tag or an attribute. -/
def tagEnd (name : Name) (attributes : List Name) (c : Char) : Step :=
  if isSpace c then goto (.tag name attributes .gap)
  else if c = '/' then goto (.tag name attributes .slash)
  else if c = '>' then some (.content 0, [.start name attributes])
  else none

/-- After the name of an attribute. -/
def attributeEnd (name : Name) (attributes : List Name) (attr : Name) (c : Char) : Step :=
  if isSpace c then goto (.tag name attributes (.equals attr))
  else if c = '=' then goto (.tag name (attributes ++ [attr]) .quote)
  else none

def valueStep (name : Name) (attributes : List Name) (quote c : Char) : Option (List Char) → Step
  | none =>
    if c = '<' then none
    else if c = quote then goto (.tag name attributes .done)
    else goto (.tag name attributes (.value quote (if c = '&' then some [] else none)))
  | some ref =>
    if c = ';' then
      (Xml.reference ref).bind fun _ => goto (.tag name attributes (.value quote none))
    else if c = '#' || isNameChar c then
      goto (.tag name attributes (.value quote (some (ref ++ [c]))))
    else none

def tagStep (name : Name) (attributes : List Name) (c : Char) : Place → Step
  | .name =>
    match extendName name c with
    | some name => goto (.tag name attributes .name)
    | none => tagEnd name attributes c
  | .gap =>
    match extendName [] c with
    | some attr => goto (.tag name attributes (.attr attr))
    | none => tagEnd name attributes c
  | .attr attr =>
    match extendName attr c with
    | some attr => goto (.tag name attributes (.attr attr))
    | none => attributeEnd name attributes attr c
  | .equals attr => attributeEnd name attributes attr c
  | .quote =>
    if isSpace c then goto (.tag name attributes .quote)
    else if c = '"' || c = '\'' then goto (.tag name attributes (.value c none))
    else none
  | .value quote ref => valueStep name attributes quote c ref
  | .done => tagEnd name attributes c
  | .slash => if c = '>' then some (.content 0, [.empty name attributes]) else none

/-- After the name of an end tag. -/
def stopEnd (name : Name) (spaces : List Char) (c : Char) : Step :=
  if name = [] then none
  else if isSpace c then goto (.stop name (spaces ++ [c]))
  else if c = '>' then some (.content 0, [.stop name])
  else none

def stopStep (name : Name) (spaces : List Char) (c : Char) : Step :=
  match if spaces = [] then extendName name c else none with
  | some name => goto (.stop name [])
  | none => stopEnd name spaces c

def lexStep (m : Mode) (c : Char) : Step :=
  if isXmlChar c then
    match m with
    | .content brackets => contentStep brackets c
    | .reference name => referenceStep name c
    | .lt => ltStep c
    | .bang seen => bangStep seen c
    | .comment dashes => commentStep dashes c
    | .cdata brackets => cdataStep brackets c
    | .target name => targetStep name c
    | .targetEnd => targetEndStep c
    | .instruction mark => instructionStep mark c
    | .tag name attributes place => tagStep name attributes c place
    | .stop name spaces => stopStep name spaces c
  else none

def lex : Mode → List Char → Step
  | m, [] => goto m
  | m, c :: cs => (lexStep m c).bind fun (m, ts) => (lex m cs).map fun (m, ts') => (m, ts ++ ts')

/-! ## Documents -/

def declaration : List Char := "<?xml version=\"1.0\" encoding=\"utf-8\"?>".toList

/-- What follows the declaration. -/
def content (doc : List Char) : Option (List Char) :=
  if declaration.isPrefixOf (normalize false doc) then
    some ((normalize false doc).drop declaration.length)
  else none

/-- The elements that are open, innermost first, and whether the root has begun. -/
structure Nesting where
  path : List Name
  begun : Bool
  deriving DecidableEq

/-- The open elements after a token.  Outside the root there is only white space, and there is one
root. -/
def nest (n : Nesting) : Token → Option Nesting
  | .text c => if n.path ≠ [] || isSpace c then some n else none
  | .reference _ => if n.path ≠ [] then some n else none
  | .cdata => if n.path ≠ [] then some n else none
  | .start name attributes =>
    if (n.path ≠ [] || !n.begun) && attributes.Nodup then some ⟨name :: n.path, true⟩ else none
  | .empty _ attributes =>
    if (n.path ≠ [] || !n.begun) && attributes.Nodup then some ⟨n.path, true⟩ else none
  | .stop name =>
    match n.path with
    | [] => none
    | inner :: path => if inner = name then some ⟨path, n.begun⟩ else none

/-! ## What one character can do -/

/-- The characters that tokens stand for. -/
def chars (ts : List Token) : List Char :=
  ts.filterMap fun
    | .text c => some c
    | .reference c => some c
    | _ => none

/-- Inside markup that is no end tag. -/
def Mode.Inside : Mode → Prop
  | .content _ => False
  | .lt => False
  | .cdata _ => False
  | .stop _ _ => False
  | _ => True

/-- After the slash of an empty element. -/
def Mode.Slash : Mode → Prop
  | .tag _ _ .slash => True
  | _ => False

inductive Moves : Mode → Char → Mode → List Token → Prop
  | text (b b' c) : Moves (.content b) c (.content b') [.text c]
  | lt (b) : Moves (.content b) '<' .lt []
  | reference (b) : Moves (.content b) '&' (.reference []) []
  | stopBegins : Moves .lt '/' (.stop [] []) []
  | begins {m} (c) : m.Inside → ¬ m.Slash → Moves .lt c m []
  | stop {name spaces name' spaces' c} : name' ++ spaces' = name ++ spaces ++ [c] →
      Moves (.stop name spaces) c (.stop name' spaces') []
  | stopped (name spaces) : Moves (.stop name spaces) '>' (.content 0) [.stop name]
  | emptied (name attributes) :
      Moves (.tag name attributes .slash) '>' (.content 0) [.empty name attributes]
  | bracket (b) : Moves (.cdata b) ']' (.cdata (b + 1)) []
  | brackets (b) : Moves (.cdata b) ']' (.cdata b) [.text ']']
  | character (b c) : Moves (.cdata b) c (.cdata 0) (List.replicate b (.text ']') ++ [.text c])
  | sectionEnd (b) : Moves (.cdata b) '>' (.content 0) []
  | goes {m m' c} : m.Inside → m'.Inside → (m'.Slash → c = '/') → Moves m c m' []
  | ends {m} (c) : m.Inside → Moves m c (.content 0) []
  | referenceEnd (name c d) : Moves (.reference name) c (.content 0) [.reference d]
  | cdata (seen c) : Moves (.bang seen) c (.cdata 0) [.cdata]
  | started (name attributes place) :
      Moves (.tag name attributes place) '>' (.content 0) [.start name attributes]

section Step

variable {m m' : Mode} {c : Char} {ts : List Token} {name : Name} {attributes : List Name}

theorem goto_eq : goto m = some (m', ts) ↔ m = m' ∧ ts = [] := by
  rw [goto, Option.some_inj, Prod.mk.injEq, eq_comm (a := [])]

theorem moves_tagEnd {place : Place} (h : tagEnd name attributes c = some (m', ts)) :
    Moves (.tag name attributes place) c m' ts := by
  unfold tagEnd at h
  split_ifs at h with hspace hslash hend
  · obtain ⟨rfl, rfl⟩ := goto_eq.mp h
    exact .goes trivial trivial nofun
  · obtain ⟨rfl, rfl⟩ := goto_eq.mp h
    exact .goes trivial trivial fun _ => hslash
  · cases h
    subst hend
    exact .started name attributes place

theorem moves_attributeEnd {attr : Name} {place : Place}
    (h : attributeEnd name attributes attr c = some (m', ts)) :
    Moves (.tag name attributes place) c m' ts := by
  unfold attributeEnd at h
  split_ifs at h with hspace hequals
  all_goals
    obtain ⟨rfl, rfl⟩ := goto_eq.mp h
    exact .goes trivial trivial nofun

theorem moves_valueStep {quote : Char} {ref : Option (List Char)}
    (h : valueStep name attributes quote c ref = some (m', ts)) :
    Moves (.tag name attributes (.value quote ref)) c m' ts := by
  cases ref with
  | none =>
    rw [valueStep] at h
    split_ifs at h
    all_goals
      obtain ⟨rfl, rfl⟩ := goto_eq.mp h
      exact .goes trivial trivial nofun
  | some ref =>
    rw [valueStep] at h
    split_ifs at h
    · obtain ⟨d, -, h⟩ := Option.bind_eq_some_iff.mp h
      obtain ⟨rfl, rfl⟩ := goto_eq.mp h
      exact .goes trivial trivial nofun
    · obtain ⟨rfl, rfl⟩ := goto_eq.mp h
      exact .goes trivial trivial nofun

theorem moves_tagStep {place : Place} (h : tagStep name attributes c place = some (m', ts)) :
    Moves (.tag name attributes place) c m' ts := by
  have hgoes {n : Name} {as : List Name} {p : Place} (h : goto (.tag n as p) = some (m', ts))
      (hp : ¬ Mode.Slash (.tag n as p)) : Moves (.tag name attributes place) c m' ts := by
    obtain ⟨rfl, rfl⟩ := goto_eq.mp h
    exact .goes trivial trivial fun hslash => absurd hslash hp
  cases place with
  | name =>
    rw [tagStep] at h
    split at h
    · exact hgoes h id
    · exact moves_tagEnd h
  | gap =>
    rw [tagStep] at h
    split at h
    · exact hgoes h id
    · exact moves_tagEnd h
  | attr attr =>
    rw [tagStep] at h
    split at h
    · exact hgoes h id
    · exact moves_attributeEnd h
  | equals attr => exact moves_attributeEnd h
  | quote =>
    rw [tagStep] at h
    split_ifs at h
    · exact hgoes h id
    · exact hgoes h id
  | value quote ref => exact moves_valueStep h
  | done => exact moves_tagEnd h
  | slash =>
    rw [tagStep] at h
    split_ifs at h with hend
    cases h
    subst hend
    exact .emptied name attributes

theorem eq_of_extendName {name' : Name} (h : extendName name c = some name') :
    name' = name ++ [c] := by
  unfold extendName at h
  split_ifs at h
  exact (Option.some.inj h).symm

theorem moves_stopStep {spaces : List Char} (h : stopStep name spaces c = some (m', ts)) :
    Moves (.stop name spaces) c m' ts := by
  unfold stopStep at h
  split at h
  · rename_i n hn
    obtain ⟨rfl, rfl⟩ := goto_eq.mp h
    split_ifs at hn with hspaces
    refine .stop ?_
    rw [eq_of_extendName hn, hspaces, List.append_nil, List.append_nil]
  · unfold stopEnd at h
    split_ifs at h with hname hspace hend
    · obtain ⟨rfl, rfl⟩ := goto_eq.mp h
      exact .stop (List.append_assoc ..).symm
    · cases h
      subst hend
      exact .stopped name spaces

/-- **What one character can do.** -/
theorem moves_of_lexStep (h : lexStep m c = some (m', ts)) : Moves m c m' ts := by
  unfold lexStep at h
  split_ifs at h
  cases m with
  | content brackets =>
    change contentStep brackets c = _ at h
    unfold contentStep at h
    split_ifs at h with hlt hamp hbracket hend
    · obtain ⟨rfl, rfl⟩ := goto_eq.mp h
      exact hlt ▸ .lt brackets
    · obtain ⟨rfl, rfl⟩ := goto_eq.mp h
      exact hamp ▸ .reference brackets
    · cases h
      exact hbracket ▸ .text ..
    · cases h
      exact .text ..
  | reference name =>
    change referenceStep name c = _ at h
    unfold referenceStep at h
    split_ifs at h
    · obtain ⟨d, -, heq⟩ := Option.map_eq_some_iff.mp h
      cases heq
      exact .referenceEnd name c d
    · obtain ⟨rfl, rfl⟩ := goto_eq.mp h
      exact .goes trivial trivial nofun
  | lt =>
    change ltStep c = _ at h
    unfold ltStep at h
    split_ifs at h with hslash
    · obtain ⟨rfl, rfl⟩ := goto_eq.mp h
      exact hslash ▸ .stopBegins
    · obtain ⟨rfl, rfl⟩ := goto_eq.mp h
      exact .begins c trivial id
    · obtain ⟨rfl, rfl⟩ := goto_eq.mp h
      exact .begins c trivial id
    · obtain ⟨n, -, h⟩ := Option.bind_eq_some_iff.mp h
      obtain ⟨rfl, rfl⟩ := goto_eq.mp h
      exact .begins c trivial id
  | bang seen =>
    change bangStep seen c = _ at h
    unfold bangStep at h
    split_ifs at h
    · obtain ⟨rfl, rfl⟩ := goto_eq.mp h
      exact .goes trivial trivial nofun
    · cases h
      exact .cdata seen c
    · obtain ⟨rfl, rfl⟩ := goto_eq.mp h
      exact .goes trivial trivial nofun
  | comment dashes =>
    change commentStep dashes c = _ at h
    unfold commentStep at h
    split_ifs at h
    · obtain ⟨rfl, rfl⟩ := goto_eq.mp h
      exact .ends c trivial
    · obtain ⟨rfl, rfl⟩ := goto_eq.mp h
      exact .goes trivial trivial nofun
    · obtain ⟨rfl, rfl⟩ := goto_eq.mp h
      exact .goes trivial trivial nofun
  | cdata brackets =>
    change cdataStep brackets c = _ at h
    unfold cdataStep at h
    split_ifs at h with hbracket hmany hend
    · cases h
      subst hbracket hmany
      exact .brackets 2
    · obtain ⟨rfl, rfl⟩ := goto_eq.mp h
      exact hbracket ▸ .bracket brackets
    · obtain ⟨rfl, rfl⟩ := goto_eq.mp h
      obtain rfl : c = '>' := by simpa using (Bool.and_eq_true_iff.mp hend).1
      exact .sectionEnd brackets
    · cases h
      exact .character brackets c
  | target name =>
    change targetStep name c = _ at h
    unfold targetStep at h
    split_ifs at h
    · obtain ⟨rfl, rfl⟩ := goto_eq.mp h
      exact .goes trivial trivial nofun
    · obtain ⟨rfl, rfl⟩ := goto_eq.mp h
      exact .goes trivial trivial nofun
    · obtain ⟨n, -, h⟩ := Option.bind_eq_some_iff.mp h
      obtain ⟨rfl, rfl⟩ := goto_eq.mp h
      exact .goes trivial trivial nofun
  | targetEnd =>
    change targetEndStep c = _ at h
    unfold targetEndStep at h
    split_ifs at h
    obtain ⟨rfl, rfl⟩ := goto_eq.mp h
    exact .ends c trivial
  | instruction mark =>
    change instructionStep mark c = _ at h
    unfold instructionStep at h
    split_ifs at h
    · obtain ⟨rfl, rfl⟩ := goto_eq.mp h
      exact .ends c trivial
    · obtain ⟨rfl, rfl⟩ := goto_eq.mp h
      exact .goes trivial trivial nofun
  | tag name attributes place => exact moves_tagStep h
  | stop name spaces => exact moves_stopStep h

end Step

/-! ## Runs -/

section Run

variable {m m' : Mode} {c : Char} {cs ds : List Char} {ts : List Token} {name : Name} {b : ℕ}

theorem lex_cons : lex m (c :: cs) = some (m', ts) ↔ ∃ m₁ ts₁ ts₂, lexStep m c = some (m₁, ts₁) ∧
    lex m₁ cs = some (m', ts₂) ∧ ts = ts₁ ++ ts₂ := by
  rw [lex, Option.bind_eq_some_iff]
  constructor
  · rintro ⟨⟨m₁, ts₁⟩, hstep, h⟩
    obtain ⟨⟨m₂, ts₂⟩, hrun, heq⟩ := Option.map_eq_some_iff.mp h
    cases heq
    exact ⟨m₁, ts₁, ts₂, hstep, hrun, rfl⟩
  · rintro ⟨m₁, ts₁, ts₂, hstep, hrun, rfl⟩
    exact ⟨(m₁, ts₁), hstep, Option.map_eq_some_iff.mpr ⟨(m', ts₂), hrun, rfl⟩⟩

/-- A text is read from left to right. -/
theorem lex_append : lex m (cs ++ ds) = some (m', ts) ↔ ∃ m₁ ts₁ ts₂, lex m cs = some (m₁, ts₁) ∧
    lex m₁ ds = some (m', ts₂) ∧ ts = ts₁ ++ ts₂ := by
  induction cs generalizing m ts with
  | nil =>
    constructor
    · exact fun h => ⟨m, [], ts, rfl, h, rfl⟩
    · rintro ⟨m₁, ts₁, ts₂, hnil, h, rfl⟩
      obtain ⟨rfl, rfl⟩ := goto_eq.mp hnil
      exact h
  | cons c cs ih =>
    rw [List.cons_append, lex_cons]
    constructor
    · rintro ⟨m₁, ts₁, ts₂, hstep, hrun, rfl⟩
      obtain ⟨m₂, ts₃, ts₄, hcs, hds, rfl⟩ := ih.mp hrun
      exact ⟨m₂, ts₁ ++ ts₃, ts₄, lex_cons.mpr ⟨m₁, ts₁, ts₃, hstep, hcs, rfl⟩, hds,
        (List.append_assoc ..).symm⟩
    · rintro ⟨m₁, ts₁, ts₂, hcs, hds, rfl⟩
      obtain ⟨m₂, ts₃, ts₄, hstep, hrun, rfl⟩ := lex_cons.mp hcs
      exact ⟨m₂, ts₃, ts₄ ++ ts₂, hstep, ih.mpr ⟨m₁, ts₄, ts₂, hrun, hds, rfl⟩,
        List.append_assoc ..⟩

/-! ## How much a text says -/

theorem chars_append (ts ts' : List Token) : chars (ts ++ ts') = chars ts ++ chars ts' :=
  List.filterMap_append

@[simp] theorem chars_text (cs : List Char) : chars (cs.map .text) = cs := by
  rw [chars, List.filterMap_map]
  exact List.filterMap_some

/-- Brackets that may still turn out to be text. -/
def Mode.weight : Mode → ℕ
  | .cdata brackets => brackets
  | _ => 0

theorem Mode.Inside.weight (h : m.Inside) : m.weight = 0 := by
  cases m with
  | cdata => exact h.elim
  | _ => rfl

theorem Moves.length_chars (h : Moves m c m' ts) :
    (chars ts).length + m'.weight ≤ m.weight + 1 := by
  cases h with
  | character b c =>
    have hchars : chars (List.replicate b (.text ']') ++ [.text c]) =
        List.replicate b ']' ++ [c] := by
      rw [← List.map_replicate, ← List.map_singleton, ← List.map_append, chars_text]
    simp [hchars, Mode.weight]
  | begins c hm => simp [chars, hm.weight]
  | goes hm hm' => simp [chars, hm.weight, hm'.weight]
  | ends c hm => simp [chars, Mode.weight]
  | brackets b => simp [chars, Nat.add_comm]
  | _ => simp [chars, Mode.weight]

/-- No character says more than itself. -/
theorem length_chars_le (h : lex m cs = some (m', ts)) :
    (chars ts).length + m'.weight ≤ m.weight + cs.length := by
  induction cs generalizing m ts with
  | nil =>
    obtain ⟨rfl, rfl⟩ := goto_eq.mp h
    simp [chars]
  | cons c cs ih =>
    obtain ⟨m₁, ts₁, ts₂, hstep, hrun, rfl⟩ := lex_cons.mp h
    have hone := (moves_of_lexStep hstep).length_chars
    have hrest := ih hrun
    rw [chars_append, List.length_append, List.length_cons]
    omega

/-- **A text is what it says, or says less than it has characters.** -/
theorem lex_content (h : lex (.content b) cs = some (m, ts)) :
    (∃ b', m = .content b' ∧ ts = cs.map .text) ∨ (chars ts).length < cs.length := by
  induction cs generalizing b ts with
  | nil =>
    obtain ⟨rfl, rfl⟩ := goto_eq.mp h
    exact .inl ⟨b, rfl, rfl⟩
  | cons c cs ih =>
    obtain ⟨m₁, ts₁, ts₂, hstep, hrun, rfl⟩ := lex_cons.mp h
    have hless (hm : m₁.weight = 0) : (chars ts₂).length < cs.length + 1 := by
      have hrest := length_chars_le hrun
      omega
    cases moves_of_lexStep hstep with
    | text b b' c =>
      rcases ih hrun with ⟨b'', rfl, rfl⟩ | hlt
      · exact .inl ⟨b'', rfl, rfl⟩
      · exact .inr (Nat.succ_lt_succ hlt)
    | lt => exact .inr (hless rfl)
    | reference => exact .inr (hless rfl)
    | goes hm => exact hm.elim
    | ends c hm => exact hm.elim

/-! ## Text without markup -/

/-- Characters that are no markup, and no end of a section. -/
structure IsText (cs : List Char) : Prop where
  chars : ∀ c ∈ cs, isXmlChar c = true ∧ c ≠ '<' ∧ c ≠ '&'
  noEnd : ¬ "]]>".toList <:+: cs

/-- The brackets before the next character. -/
def bracketsAfter (b : ℕ) (c : Char) : ℕ := if c = ']' then min (b + 1) 2 else 0

theorem contentStep_text (h : isXmlChar c = true ∧ c ≠ '<' ∧ c ≠ '&') (hend : c = '>' → b ≠ 2) :
    lexStep (.content b) c = some (.content (bracketsAfter b c), [.text c]) := by
  obtain ⟨hxml, hlt, hamp⟩ := h
  rw [lexStep, if_pos hxml, contentStep, bracketsAfter]
  rw [if_neg hlt, if_neg hamp]
  by_cases hbracket : c = ']'
  · rw [if_pos hbracket, if_pos hbracket, hbracket]
  · rw [if_neg hbracket, if_neg hbracket, if_neg]
    simpa using hend

theorem lexStep_content (h : lexStep (.content b) c = some (m', ts)) :
    (isXmlChar c = true ∧ c ≠ '<' ∧ c ≠ '&') ∧ (c = '>' → b ≠ 2) ∨ m'.weight = 0 ∧ ts = [] := by
  rw [lexStep, contentStep] at h
  split_ifs at h with hxml hlt hamp hbracket hend
  · obtain ⟨rfl, rfl⟩ := goto_eq.mp h
    exact .inr ⟨rfl, rfl⟩
  · obtain ⟨rfl, rfl⟩ := goto_eq.mp h
    exact .inr ⟨rfl, rfl⟩
  · exact .inl ⟨⟨hxml, hlt, hamp⟩, fun hc => absurd (hbracket.symm.trans hc) (by decide)⟩
  · exact .inl ⟨⟨hxml, hlt, hamp⟩, fun hc hb => hend (by simp [hc, hb])⟩

theorem noEnd_cons (hb : b ≤ 2) : ¬ "]]>".toList <:+: List.replicate b ']' ++ c :: cs ↔
    (c = '>' → b ≠ 2) ∧ ¬ "]]>".toList <:+: List.replicate (bracketsAfter b c) ']' ++ cs := by
  have hchars : "]]>".toList = [']', ']', '>'] := by decide
  rw [hchars, bracketsAfter]
  have hcases : b = 0 ∨ b = 1 ∨ b = 2 := by omega
  by_cases hbracket : c = ']'
  · subst hbracket
    rcases hcases with rfl | rfl | rfl <;> simp [List.infix_cons_iff, List.replicate_succ]
  · by_cases hend : c = '>'
    · subst hend
      rcases hcases with rfl | rfl | rfl <;> simp [List.infix_cons_iff, List.replicate_succ]
    · rcases hcases with rfl | rfl | rfl <;>
        simp [List.infix_cons_iff, List.replicate_succ, hbracket, Ne.symm hbracket, hend,
          Ne.symm hend]

/-- Text without brackets. -/
theorem lex_of_notMem (h : ∀ c ∈ cs, (isXmlChar c = true ∧ c ≠ '<' ∧ c ≠ '&') ∧ c ≠ ']') :
    lex (.content 0) cs = some (.content 0, cs.map .text) := by
  induction cs with
  | nil => rfl
  | cons c cs ih =>
    obtain ⟨hc, hbracket⟩ := h c List.mem_cons_self
    have hstep := contentStep_text (b := 0) hc fun _ => by decide
    rw [bracketsAfter, if_neg hbracket] at hstep
    exact lex_cons.mpr ⟨_, _, _, hstep, ih fun d hd => h d (List.mem_cons_of_mem c hd), rfl⟩

theorem isText_cons (hb : b ≤ 2) : IsText (List.replicate b ']' ++ c :: cs) ↔
    ((isXmlChar c = true ∧ c ≠ '<' ∧ c ≠ '&') ∧ (c = '>' → b ≠ 2)) ∧
      IsText (List.replicate (bracketsAfter b c) ']' ++ cs) := by
  have hreplicate (n : ℕ) : ∀ d ∈ List.replicate n ']',
      isXmlChar d = true ∧ d ≠ '<' ∧ d ≠ '&' := by
    intro d hd
    rw [List.eq_of_mem_replicate hd]
    decide
  constructor
  · rintro ⟨hchars, hend⟩
    obtain ⟨hgt, hrest⟩ := (noEnd_cons hb).mp hend
    refine ⟨⟨hchars c (by simp), hgt⟩, fun d hd => ?_, hrest⟩
    rcases List.mem_append.mp hd with hd | hd
    · exact hreplicate _ d hd
    · exact hchars d (by simp [hd])
  · rintro ⟨⟨hc, hgt⟩, hchars, hrest⟩
    refine ⟨fun d hd => ?_, (noEnd_cons hb).mpr ⟨hgt, hrest⟩⟩
    rcases List.mem_append.mp hd with hd | hd
    · exact hreplicate b d hd
    · rcases List.mem_cons.mp hd with rfl | hd
      · exact hc
      · exact hchars d (by simp [hd])

theorem bracketsAfter_le : bracketsAfter b c ≤ 2 := by
  unfold bracketsAfter
  split
  · exact Nat.min_le_right ..
  · exact Nat.zero_le 2

/-- **Text without markup says what it is.** -/
theorem lex_of_isText (hb : b ≤ 2) (h : IsText (List.replicate b ']' ++ cs)) :
    ∃ b', lex (.content b) cs = some (.content b', cs.map .text) := by
  induction cs generalizing b with
  | nil => exact ⟨b, rfl⟩
  | cons c cs ih =>
    obtain ⟨⟨hc, hend⟩, hrest⟩ := (isText_cons hb).mp h
    obtain ⟨b', hrun⟩ := ih bracketsAfter_le hrest
    exact ⟨b', lex_cons.mpr ⟨_, _, _, contentStep_text hc hend, hrun, rfl⟩⟩

/-- **…and nothing else does.** -/
theorem isText_of_lex (hb : b ≤ 2) (h : lex (.content b) cs = some (m, cs.map .text)) :
    IsText (List.replicate b ']' ++ cs) := by
  induction cs generalizing b with
  | nil =>
    have hcases : b = 0 ∨ b = 1 ∨ b = 2 := by omega
    rw [List.append_nil]
    refine ⟨fun d hd => ?_, ?_⟩
    · rw [List.eq_of_mem_replicate hd]
      decide
    · rcases hcases with rfl | rfl | rfl <;> decide
  | cons c cs ih =>
    obtain ⟨m₁, ts₁, ts₂, hstep, hrun, hts⟩ := lex_cons.mp h
    have hsays := congrArg (List.length ∘ Xml.chars) hts
    have hrest := length_chars_le hrun
    rcases lexStep_content hstep with ⟨hc, hend⟩ | ⟨hweight, rfl⟩
    · have htext := (contentStep_text hc hend).symm.trans hstep
      obtain ⟨rfl, rfl⟩ := Prod.mk.inj (Option.some.inj htext)
      obtain rfl := (List.cons.inj hts).2
      exact (isText_cons hb).mpr ⟨⟨hc, hend⟩, ih bracketsAfter_le hrun⟩
    · -- markup says nothing, and what follows cannot make up for it
      simp only [Function.comp_apply, chars_text, List.length_cons, List.nil_append] at hsays
      omega

/-! ## Text without slashes -/

/-- An element ends. -/
def Token.Ends : Token → Prop
  | .stop _ => True
  | .empty _ _ => True
  | _ => False

/-- An end tag or the tag of an empty element has been begun. -/
def Mode.Ending : Mode → Prop
  | .stop _ _ => True
  | m => m.Slash

theorem Moves.not_ending (h : Moves m c m' ts) (hm : ¬ m.Ending) (hc : c ≠ '/') :
    ¬ m'.Ending ∧ ∀ t ∈ ts, ¬ t.Ends := by
  cases h with
  | stopBegins => exact absurd rfl hc
  | stop | stopped | emptied => exact absurd trivial hm
  | begins _ hinside hslash =>
    refine ⟨fun hends => ?_, nofun⟩
    cases m' with
    | stop => exact hinside
    | _ => exact hslash hends
  | goes _ hinside hslash =>
    refine ⟨fun hends => ?_, nofun⟩
    cases m' with
    | stop => exact hinside
    | _ => exact hc (hslash hends)
  | character b c =>
    refine ⟨id, fun t ht => ?_⟩
    rcases List.mem_append.mp ht with ht | ht
    · rw [List.eq_of_mem_replicate ht]
      exact id
    · rw [List.mem_singleton.mp ht]
      exact id
  | _ => exact ⟨id, by simp [Token.Ends]⟩

/-- **Without a slash no element ends.** -/
theorem not_ends_of_lex (h : lex m cs = some (m', ts)) (hm : ¬ m.Ending) (hcs : '/' ∉ cs) :
    ∀ t ∈ ts, ¬ t.Ends := by
  induction cs generalizing m ts with
  | nil =>
    obtain ⟨rfl, rfl⟩ := goto_eq.mp h
    exact nofun
  | cons c cs ih =>
    obtain ⟨m₁, ts₁, ts₂, hstep, hrun, rfl⟩ := lex_cons.mp h
    obtain ⟨hc, hcs⟩ := List.ne_and_not_mem_of_not_mem_cons hcs
    obtain ⟨hm₁, hts₁⟩ := (moves_of_lexStep hstep).not_ending hm (Ne.symm hc)
    intro t ht
    rcases List.mem_append.mp ht with ht | ht
    · exact hts₁ t ht
    · exact ih hrun hm₁ hcs t ht

/-! ## End tags -/

/-- The places where an end tag of this name begins. -/
def endTags (name : Name) : List Char → ℕ
  | [] => 0
  | c :: cs => endTags name cs + if ('<' :: '/' :: name).isPrefixOf (c :: cs) then 1 else 0

/-- The elements of this name that end in an end tag. -/
def stops (name : Name) (ts : List Token) : ℕ := ts.count (.stop name)

/-- What has been read of an end tag. -/
def Mode.seen : Mode → List Char
  | .lt => ['<']
  | .stop name spaces => '<' :: '/' :: (name ++ spaces)
  | _ => []

theorem endTags_le_append (name : Name) (cs ds : List Char) :
    endTags name ds ≤ endTags name (cs ++ ds) := by
  induction cs with
  | nil => exact Nat.le_refl _
  | cons c cs ih => exact ih.trans (Nat.le_add_right ..)

theorem Mode.Inside.seen (h : m.Inside) : m.seen = [] := by
  cases m with
  | lt | stop => exact h.elim
  | _ => rfl

/-- A character adds to an end tag, or ends it. -/
theorem Moves.stops_le (h : Moves m c m' ts) (name : Name) (cs : List Char) :
    stops name ts + endTags name (m'.seen ++ cs) ≤ endTags name (m.seen ++ c :: cs) := by
  have hnone {m m' : Mode} {c : Char} {ts : List Token} (hts : stops name ts = 0)
      (hseen : m'.seen = []) :
      stops name ts + endTags name (m'.seen ++ cs) ≤ endTags name (m.seen ++ c :: cs) := by
    rw [hts, hseen, Nat.zero_add, List.nil_append]
    exact (Nat.le_add_right ..).trans (endTags_le_append name m.seen (c :: cs))
  cases h with
  | lt => simp [stops, Mode.seen]
  | stopBegins => simp [stops, Mode.seen]
  | stop heq => simp [stops, Mode.seen, heq]
  | stopped n spaces =>
    by_cases hn : n = name
    · subst hn
      have hrest := endTags_le_append n ('/' :: (n ++ (spaces ++ ['>']))) cs
      have htext : Mode.seen (.stop n spaces) ++ '>' :: cs =
          '<' :: ('/' :: (n ++ (spaces ++ ['>'])) ++ cs) := by simp [Mode.seen]
      have hhere : ('<' :: '/' :: n).isPrefixOf ('<' :: ('/' :: (n ++ (spaces ++ ['>'])) ++ cs)) =
          true := List.isPrefixOf_iff_prefix.mpr ⟨spaces ++ '>' :: cs, by simp⟩
      have hstops : stops n [.stop n] = 1 := by simp [stops]
      rw [htext, endTags, if_pos hhere, hstops, Nat.add_comm]
      exact Nat.succ_le_succ hrest
    · exact hnone (by simp [stops, hn]) rfl
  | begins _ hinside => exact hnone rfl hinside.seen
  | goes _ hinside => exact hnone rfl hinside.seen
  | character => exact hnone (by simp [stops, List.count_replicate]) rfl
  | _ => exact hnone (by simp [stops]) rfl

/-- **No element ends more often than an end tag is written.** -/
theorem stops_le_endTags (name : Name) (h : lex m cs = some (m', ts)) :
    stops name ts ≤ endTags name (m.seen ++ cs) := by
  induction cs generalizing m ts with
  | nil =>
    obtain ⟨rfl, rfl⟩ := goto_eq.mp h
    exact Nat.zero_le _
  | cons c cs ih =>
    obtain ⟨m₁, ts₁, ts₂, hstep, hrun, rfl⟩ := lex_cons.mp h
    have hone := (moves_of_lexStep hstep).stops_le name cs
    have hrest := ih hrun
    rw [stops, List.count_append]
    unfold stops at hone hrest
    omega

/-- No end tag of this name begins in the text, also not at its end. -/
def clear (name : Name) : List Char → Bool
  | [] => true
  | c :: cs => clear name cs && !('<' :: '/' :: name).isPrefixOf (c :: cs) &&
      !(c :: cs).isPrefixOf ('<' :: '/' :: name)

theorem endTags_append (h : clear name cs = true) : endTags name (cs ++ ds) = endTags name ds := by
  induction cs with
  | nil => rfl
  | cons c cs ih =>
    rw [clear, Bool.and_eq_true, Bool.and_eq_true, Bool.not_eq_true', Bool.not_eq_true'] at h
    obtain ⟨⟨hcs, hno⟩, hpart⟩ := h
    rw [List.cons_append, endTags, ih hcs, if_neg, Nat.add_zero]
    intro hyes
    rcases List.prefix_or_prefix_of_prefix (List.isPrefixOf_iff_prefix.mp hyes)
      (List.prefix_append (c :: cs) ds) with hle | hle
    · exact Bool.false_ne_true (hno.symm.trans (List.isPrefixOf_iff_prefix.mpr hle))
    · exact Bool.false_ne_true (hpart.symm.trans (List.isPrefixOf_iff_prefix.mpr hle))

theorem clear_append (hcs : clear name cs = true) (hds : clear name ds = true) :
    clear name (cs ++ ds) = true := by
  induction cs with
  | nil => exact hds
  | cons c cs ih =>
    rw [clear, Bool.and_eq_true, Bool.and_eq_true, Bool.not_eq_true', Bool.not_eq_true'] at hcs
    obtain ⟨⟨hcs, hno⟩, hpart⟩ := hcs
    rw [List.cons_append, clear, ih hcs, Bool.true_and, ← List.cons_append, Bool.and_eq_true,
      Bool.not_eq_true', Bool.not_eq_true', Bool.eq_false_iff, Bool.eq_false_iff, ne_eq, ne_eq,
      List.isPrefixOf_iff_prefix, List.isPrefixOf_iff_prefix]
    rw [Bool.eq_false_iff, ne_eq, List.isPrefixOf_iff_prefix] at hno hpart
    exact ⟨fun hle => (List.prefix_or_prefix_of_prefix hle (List.prefix_append ..)).elim hno hpart,
      fun hle => hpart ((List.prefix_append ..).trans hle)⟩

theorem clear_of_notMem (h : '<' ∉ cs) : clear name cs = true := by
  induction cs with
  | nil => rfl
  | cons c cs ih =>
    obtain ⟨hc, hcs⟩ := List.ne_and_not_mem_of_not_mem_cons h
    simp [clear, ih hcs, List.isPrefixOf, hc, Ne.symm hc]

/-- Without a slash no end tag begins, unless with what follows. -/
theorem endTags_of_notMem (h : '/' ∉ cs) :
    endTags name (cs ++ '<' :: ds) = endTags name ('<' :: ds) := by
  induction cs with
  | nil => rfl
  | cons c cs ih =>
    obtain ⟨-, hcs⟩ := List.ne_and_not_mem_of_not_mem_cons h
    rw [List.cons_append, endTags, ih hcs, if_neg, Nat.add_zero]
    cases cs with
    | nil => simp
    | cons d cs =>
      have hd : '/' ≠ d := (List.ne_and_not_mem_of_not_mem_cons hcs).1
      simp [hd]

/-! ## Markup that is not over -/

/-- In a comment, a section or an instruction, with nothing that may be its end. -/
def Mode.Quiet : Mode → Prop
  | .comment dashes => dashes = 0
  | .cdata brackets => brackets = 0
  | .instruction mark => mark = false
  | _ => False

theorem extendName_lt (name : Name) : extendName name '<' = none := by
  have hstart : isNameStart '<' = false := by decide
  have hchar : isNameChar '<' = false := by decide
  simp [extendName, hstart, hchar]

/-- **Markup that is not over takes in what follows, or is not well formed.** -/
theorem quiet_of_lexStep (name : Name) (hm : ∀ b, m ≠ .content b)
    (h : lexStep m '<' = some (m', ts)) : m'.Quiet ∧ stops name ts = 0 := by
  have hspace : isSpace '<' = false := by decide
  have hchar : isNameChar '<' = false := by decide
  have htag (n as) : tagEnd n as '<' = none := by simp [tagEnd, hspace]
  have hattr (n as a) : attributeEnd n as a '<' = none := by simp [attributeEnd, hspace]
  have hxml : isXmlChar '<' = true := by decide
  unfold lexStep at h
  rw [if_pos hxml] at h
  cases m with
  | content b => exact absurd rfl (hm b)
  | reference n => simp [referenceStep, hchar] at h
  | lt => simp [ltStep, extendName_lt] at h
  | bang seen =>
    have hmem : '<' ∈ seen ++ ['<'] := by simp
    have hne {l : List Char} (hl : '<' ∉ l) : seen ++ ['<'] ≠ l := fun heq => hl (heq ▸ hmem)
    have hno {l : List Char} (hl : '<' ∉ l) : (seen ++ ['<']).isPrefixOf l = false :=
      Bool.eq_false_iff.mpr fun hle => hl ((List.isPrefixOf_iff_prefix.mp hle).subset hmem)
    change bangStep seen '<' = _ at h
    rw [bangStep, if_neg (hne (by decide)), if_neg (hne (by decide)), hno (by decide),
      hno (by decide)] at h
    cases h
  | comment dashes =>
    by_cases hd : dashes = 2
    · simp [commentStep, hd] at h
    · change commentStep dashes '<' = _ at h
      rw [commentStep, if_neg hd] at h
      obtain ⟨rfl, rfl⟩ := goto_eq.mp h
      exact ⟨rfl, rfl⟩
  | cdata b =>
    have hstep : cdataStep b '<' =
        some (.cdata 0, List.replicate b (.text ']') ++ [.text '<']) := by simp [cdataStep]
    obtain ⟨rfl, rfl⟩ := Prod.mk.inj (Option.some.inj (hstep.symm.trans h))
    exact ⟨rfl, by simp [stops, List.count_replicate]⟩
  | target n => simp [targetStep, hspace, extendName_lt] at h
  | targetEnd => simp [targetEndStep] at h
  | instruction mark =>
    obtain ⟨rfl, rfl⟩ := goto_eq.mp h
    exact ⟨rfl, rfl⟩
  | tag n as place =>
    cases place with
    | value quote ref =>
      cases ref <;> simp [tagStep, valueStep, hchar] at h
    | _ => simp [tagStep, extendName_lt, htag, hattr, hspace] at h
  | stop n spaces => simp [stopStep, stopEnd, extendName_lt, hspace] at h

theorem Mode.Quiet.lexStep (hm : m.Quiet) (name : Name) (hc : c ∉ ['-', ']', '?'])
    (h : Xml.lexStep m c = some (m', ts)) : m'.Quiet ∧ stops name ts = 0 := by
  obtain ⟨hdash, hbracket, hmark⟩ : c ≠ '-' ∧ c ≠ ']' ∧ c ≠ '?' := by simpa using hc
  unfold Xml.lexStep at h
  split_ifs at h
  cases m with
  | comment dashes =>
    obtain rfl : dashes = 0 := hm
    obtain ⟨rfl, rfl⟩ := goto_eq.mp h
    exact ⟨if_neg hdash, rfl⟩
  | cdata brackets =>
    obtain rfl : brackets = 0 := hm
    have hstep : cdataStep 0 c = some (.cdata 0, [.text c]) := by simp [cdataStep, hbracket]
    obtain ⟨rfl, rfl⟩ := Prod.mk.inj (Option.some.inj (hstep.symm.trans h))
    exact ⟨rfl, rfl⟩
  | instruction mark =>
    obtain rfl : mark = false := hm
    have hstep : instructionStep false c = goto (.instruction false) := by
      simp [instructionStep, hmark]
    obtain ⟨rfl, rfl⟩ := goto_eq.mp (hstep.symm.trans h)
    exact ⟨rfl, rfl⟩
  | _ => exact hm.elim

theorem Mode.Quiet.lex (hm : m.Quiet) (name : Name) (hcs : ∀ c ∈ cs, c ∉ ['-', ']', '?'])
    (h : Xml.lex m cs = some (m', ts)) : m'.Quiet ∧ stops name ts = 0 := by
  induction cs generalizing m ts with
  | nil =>
    obtain ⟨rfl, rfl⟩ := goto_eq.mp h
    exact ⟨hm, rfl⟩
  | cons c cs ih =>
    obtain ⟨m₁, ts₁, ts₂, hstep, hrun, rfl⟩ := lex_cons.mp h
    obtain ⟨hm₁, hts₁⟩ := hm.lexStep name (hcs c List.mem_cons_self) hstep
    obtain ⟨hm', hts₂⟩ := ih hm₁ (fun d hd => hcs d (List.mem_cons_of_mem c hd)) hrun
    exact ⟨hm', by rw [stops, List.count_append]; exact Nat.add_eq_zero_iff.mpr ⟨hts₁, hts₂⟩⟩

theorem Mode.Quiet.seen (h : m.Quiet) : m.seen = [] := by
  cases m with
  | lt | stop => exact h.elim
  | _ => rfl

/-- **An end tag inside of other markup ends nothing.** -/
theorem stops_le_of_ne_content (name : Name) (hm : ∀ b, m ≠ .content b)
    (hcs : ∀ c ∈ cs, c ∉ ['-', ']', '?']) (h : lex m ('<' :: cs ++ ds) = some (m', ts)) :
    stops name ts ≤ endTags name ds := by
  obtain ⟨m₁, ts₁, ts₂, htag, hrest, rfl⟩ := lex_append.mp h
  obtain ⟨m₂, ts₃, ts₄, hlt, hname, rfl⟩ := lex_cons.mp htag
  obtain ⟨hm₂, hts₃⟩ := quiet_of_lexStep name hm hlt
  obtain ⟨hm₁, hts₄⟩ := hm₂.lex name hcs hname
  have hle := stops_le_endTags name hrest
  rw [hm₁.seen, List.nil_append] at hle
  unfold stops at hts₃ hts₄ hle ⊢
  rw [List.count_append, List.count_append, hts₃, hts₄, Nat.zero_add]
  exact hle

end Run

end Foundations.Xml
