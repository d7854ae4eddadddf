import Mathlib.Algebra.GroupWithZero.Nat
import Pcos.Backend.FileEntries
import Pcos.Foundations.Xml

/-!
# Backend/Multistatus — the XML of a `PROPFIND` answer, written and read (`webdav.rs`)

    entries ──propfindXml──▸ text ──lex──▸ tokens ──nest──▸ events ──group──▸ hrefs of each response

The names are written as they are, each twice.  A name without a slash cannot end an element, so
what it opens stays open and the text is not well formed (`flat_of_scan`); and a name that leaves
markup open takes in the end of its `href`, of which there are no more than entries
(`names_or_stops_lt`).  What is read is then the names, as far as they are text
(`responses_propfindXml`).
-/

namespace Pcos.Multistatus

open Foundations Foundations.Xml

/-! ## Writing -/

/-- Id, name, type, size and date of an entry. -/
structure PropfindEntry where
  id : Uuid
  name : String
  entryType : EntryType
  size : ℤ
  updated : String

def responseXml (e : PropfindEntry) : String :=
  "  <D:response>\n    <D:href>/webdav/" ++ e.name ++
  "</D:href>\n    <D:propstat>\n      <D:prop>\n        <D:displayname>" ++ e.name ++
  "</D:displayname>\n        <D:getcontentlength>" ++ toString e.size ++
  "</D:getcontentlength>\n        <D:getlastmodified>" ++ e.updated ++
  "</D:getlastmodified>\n        <D:resourcetype>" ++
  (if e.entryType = .folder then "<D:collection/>" else "") ++
  "</D:resourcetype>\n        <D:getetag>\"" ++ e.id.text ++
  "\"</D:getetag>\n      </D:prop>\n      <D:status>HTTP/1.1 200 OK</D:status>\n" ++
  "    </D:propstat>\n  </D:response>\n"

def propfindXml (entries : List PropfindEntry) : String :=
  "<?xml version=\"1.0\" encoding=\"utf-8\"?>\n<D:multistatus xmlns:D=\"DAV:\">\n" ++
  String.join (entries.map responseXml) ++ "</D:multistatus>\n"

/-! ## Reading -/

def multistatus : Name := "D:multistatus".toList

def response : Name := "D:response".toList

def href : Name := "D:href".toList

/-- A response or an `href` begins, or a character of an `href` is read. -/
inductive Event
  | response
  | href
  | char (c : Char)
  deriving DecidableEq

/-- What a token is for the reader, by the elements it stands in. -/
def event (path : List Name) : Token → List Event
  | .start name _ =>
    if path = [multistatus] ∧ name = response then [.response]
    else if path = [response, multistatus] ∧ name = href then [.href]
    else []
  | .empty name _ => if path = [multistatus] ∧ name = response then [.response] else []
  | .text c => if path = [href, response, multistatus] then [.char c] else []
  | .reference c => if path = [href, response, multistatus] then [.char c] else []
  | _ => []

/-- An `href` of a response that cannot have a text. -/
def isBlank (path : List Name) : Token → Bool
  | .empty name _ => path = [response, multistatus] && name = href
  | _ => false

def readEvents : Nesting → List Token → Option (Nesting × List Event)
  | n, [] => some (n, [])
  | n, t :: ts =>
    if isBlank n.path t then none
    else (nest n t).bind fun n' =>
      (readEvents n' ts).map fun (n'', es) => (n'', event n.path t ++ es)

/-- Read a text on. -/
def scan (m : Mode) (n : Nesting) (cs : List Char) : Option (Mode × Nesting × List Event) :=
  (lex m cs).bind fun (m', ts) => (readEvents n ts).map fun (n', es) => (m', n', es)

/-- Characters before the first `href`, `href`s before the first response, and responses. -/
def group : List Event → List Char × List (List Char) × List (List (List Char))
  | [] => ([], [], [])
  | .char c :: es => (c :: (group es).1, (group es).2)
  | .href :: es => ([], (group es).1 :: (group es).2.1, (group es).2.2)
  | .response :: es => ([], [], (group es).2.1 :: (group es).2.2)

/-- The `href`s of each response, if the document is well formed. -/
def responses (doc : List Char) : Option (List (List (List Char))) :=
  (content doc).bind fun cs =>
    match scan (.content 0) ⟨[], false⟩ cs with
    | some (.content _, ⟨[], true⟩, es) => some (group es).2.2
    | _ => none

/-! ## Piece by piece -/

section Scan

variable {m m' : Mode} {n n' : Nesting} {t : Token} {ts ts' : List Token} {es : List Event}
  {cs ds : List Char}

theorem readEvents_cons : readEvents n (t :: ts) = some (n', es) ↔ isBlank n.path t = false ∧
    ∃ n₁ es₁, nest n t = some n₁ ∧ readEvents n₁ ts = some (n', es₁) ∧
      es = event n.path t ++ es₁ := by
  rw [readEvents]
  cases isBlank n.path t with
  | true => exact ⟨fun h => by simp at h, fun h => by simp at h⟩
  | false =>
    rw [if_neg Bool.false_ne_true, Option.bind_eq_some_iff]
    constructor
    · rintro ⟨n₁, hnest, h⟩
      obtain ⟨⟨n₂, es₁⟩, hread, heq⟩ := Option.map_eq_some_iff.mp h
      cases heq
      exact ⟨rfl, n₁, es₁, hnest, hread, rfl⟩
    · rintro ⟨-, n₁, es₁, hnest, hread, rfl⟩
      exact ⟨n₁, hnest, Option.map_eq_some_iff.mpr ⟨(n', es₁), hread, rfl⟩⟩

theorem readEvents_append : readEvents n (ts ++ ts') = some (n', es) ↔
    ∃ n₁ es₁ es₂, readEvents n ts = some (n₁, es₁) ∧ readEvents n₁ ts' = some (n', es₂) ∧
      es = es₁ ++ es₂ := by
  induction ts generalizing n es with
  | nil =>
    constructor
    · exact fun h => ⟨n, [], es, rfl, h, rfl⟩
    · rintro ⟨n₁, es₁, es₂, hnil, h, rfl⟩
      cases hnil
      exact h
  | cons t ts ih =>
    rw [List.cons_append, readEvents_cons]
    constructor
    · rintro ⟨hblank, n₁, es₁, hnest, hread, rfl⟩
      obtain ⟨n₂, es₂, es₃, hts, hts', rfl⟩ := ih.mp hread
      exact ⟨n₂, _, es₃, readEvents_cons.mpr ⟨hblank, n₁, es₂, hnest, hts, rfl⟩, hts',
        (List.append_assoc ..).symm⟩
    · rintro ⟨n₁, es₁, es₂, hread, hts', rfl⟩
      obtain ⟨hblank, n₂, es₃, hnest, hts, rfl⟩ := readEvents_cons.mp hread
      exact ⟨hblank, n₂, es₃ ++ es₂, hnest, ih.mpr ⟨n₁, es₃, es₂, hts, hts', rfl⟩,
        List.append_assoc ..⟩

theorem scan_eq_some : scan m n cs = some (m', n', es) ↔
    ∃ ts, lex m cs = some (m', ts) ∧ readEvents n ts = some (n', es) := by
  rw [scan, Option.bind_eq_some_iff]
  constructor
  · rintro ⟨⟨m₁, ts⟩, hlex, h⟩
    obtain ⟨⟨n₁, es₁⟩, hread, heq⟩ := Option.map_eq_some_iff.mp h
    cases heq
    exact ⟨ts, hlex, hread⟩
  · rintro ⟨ts, hlex, hread⟩
    exact ⟨(m', ts), hlex, Option.map_eq_some_iff.mpr ⟨(n', es), hread, rfl⟩⟩

/-- **A text is read piece by piece.** -/
theorem scan_append : scan m n (cs ++ ds) = some (m', n', es) ↔
    ∃ m₁ n₁ es₁ es₂, scan m n cs = some (m₁, n₁, es₁) ∧ scan m₁ n₁ ds = some (m', n', es₂) ∧
      es = es₁ ++ es₂ := by
  constructor
  · intro h
    obtain ⟨ts, hlex, hread⟩ := scan_eq_some.mp h
    obtain ⟨m₁, ts₁, ts₂, hcs, hds, rfl⟩ := lex_append.mp hlex
    obtain ⟨n₁, es₁, es₂, hts₁, hts₂, rfl⟩ := readEvents_append.mp hread
    exact ⟨m₁, n₁, es₁, es₂, scan_eq_some.mpr ⟨ts₁, hcs, hts₁⟩, scan_eq_some.mpr ⟨ts₂, hds, hts₂⟩,
      rfl⟩
  · rintro ⟨m₁, n₁, es₁, es₂, hcs, hds, rfl⟩
    obtain ⟨ts₁, hlex₁, hread₁⟩ := scan_eq_some.mp hcs
    obtain ⟨ts₂, hlex₂, hread₂⟩ := scan_eq_some.mp hds
    exact scan_eq_some.mpr ⟨ts₁ ++ ts₂, lex_append.mpr ⟨m₁, ts₁, ts₂, hlex₁, hlex₂, rfl⟩,
      readEvents_append.mpr ⟨n₁, es₁, es₂, hread₁, hread₂, rfl⟩⟩

/-! ## Names -/

/-- The elements that tokens begin, in their order. -/
def opened (ts : List Token) : List Name :=
  ts.filterMap fun
    | .start name _ => some name
    | _ => none

theorem opened_cons (t : Token) (ts : List Token) : opened (t :: ts) = opened [t] ++ opened ts :=
  List.filterMap_append (l := [t])

theorem nest_path (h : nest n t = some n') (ht : ¬ t.Ends) :
    n'.path = (opened [t]).reverse ++ n.path := by
  cases t with
  | stop | empty => exact absurd trivial ht
  | start name attributes =>
    rw [nest] at h
    split_ifs at h
    cases h
    rfl
  | _ =>
    rw [nest] at h
    split_ifs at h
    cases h
    rfl

/-- What is begun and not ended is open. -/
theorem path_of_readEvents (h : readEvents n ts = some (n', es)) (hts : ∀ t ∈ ts, ¬ t.Ends) :
    n'.path = (opened ts).reverse ++ n.path := by
  induction ts generalizing n es with
  | nil =>
    cases h
    rfl
  | cons t ts ih =>
    obtain ⟨-, n₁, es₁, hnest, hread, -⟩ := readEvents_cons.mp h
    rw [opened_cons, List.reverse_append, List.append_assoc,
      ← nest_path hnest (hts t List.mem_cons_self)]
    exact ih hread fun t' ht' => hts t' (List.mem_cons_of_mem t ht')

/-- Characters only. -/
def Flat (ts : List Token) : Prop := (∀ t ∈ ts, ¬ t.Ends) ∧ opened ts = []

theorem flat_text (cs : List Char) : Flat (cs.map .text) := by
  refine ⟨fun t ht => ?_, ?_⟩
  · obtain ⟨c, -, rfl⟩ := List.mem_map.mp ht
    exact id
  · rw [opened, List.filterMap_map]
    exact List.filterMap_eq_nil_iff.mpr fun c _ => rfl

/-- **Characters stay in the element, and are those of an `href` if it is one.** -/
theorem readEvents_flat (hts : Flat ts) (hn : n.path ≠ []) : readEvents n ts =
    some (n, if n.path = [href, response, multistatus] then (chars ts).map .char else []) := by
  induction ts with
  | nil => simp [readEvents, chars]
  | cons t ts ih =>
    obtain ⟨hends, hopened⟩ := hts
    rw [opened_cons, List.append_eq_nil_iff] at hopened
    have hrest := ih ⟨fun t' ht' => hends t' (List.mem_cons_of_mem t ht'), hopened.2⟩
    refine readEvents_cons.mpr ?_
    have ht := hends t List.mem_cons_self
    cases t with
    | stop | empty => exact absurd trivial ht
    | start => exact absurd hopened.1 (by simp [opened])
    | text c =>
      refine ⟨rfl, n, _, by simp [nest, hn], hrest, ?_⟩
      rw [event]
      split_ifs <;> rfl
    | reference c =>
      refine ⟨rfl, n, _, by simp [nest, hn], hrest, ?_⟩
      rw [event]
      split_ifs <;> rfl
    | cdata =>
      refine ⟨rfl, n, _, by simp [nest, hn], hrest, ?_⟩
      have hevent : event n.path .cdata = [] := rfl
      rw [hevent, List.nil_append]
      rfl

/-! ## As many `href`s as are ended -/

theorem count_href_nest (h : nest n t = some n') :
    (event n.path t).count .href + n.path.count href ≤ stops href [t] + n'.path.count href := by
  cases t with
  | start name attributes =>
    rw [nest] at h
    split_ifs at h
    cases h
    by_cases hname : name = href
    · subst hname
      rw [event, List.count_cons_self]
      split_ifs
      · exact Nat.le_add_left_of_le (by simp)
      · exact Nat.le_add_left_of_le (by simp [Nat.add_comm])
      · exact Nat.le_add_left_of_le (by simp)
    · rw [event, if_neg (fun h => hname h.2 : ¬ (n.path = [response, multistatus] ∧ name = href))]
      split_ifs <;> simp [hname]
  | stop name =>
    rw [nest] at h
    split at h
    · cases h
    · rename_i inner path hpath
      split_ifs at h with hinner
      cases h
      subst hinner
      rw [hpath]
      by_cases hname : inner = href
      · simp [event, stops, hname, Nat.add_comm]
      · simp [event, stops, hname]
  | empty name attributes =>
    rw [nest] at h
    split_ifs at h
    cases h
    rw [event]
    split_ifs <;> simp
  | text c =>
    rw [nest] at h
    split_ifs at h
    cases h
    rw [event]
    split_ifs <;> simp
  | reference c =>
    rw [nest] at h
    split_ifs at h
    cases h
    rw [event]
    split_ifs <;> simp
  | cdata =>
    rw [nest] at h
    split_ifs at h
    cases h
    simp [event]

/-- **No more `href`s are read than end.** -/
theorem count_href_le (h : readEvents n ts = some (n', es)) :
    es.count .href + n.path.count href ≤ stops href ts + n'.path.count href := by
  induction ts generalizing n es with
  | nil =>
    cases h
    simp [stops]
  | cons t ts ih =>
    obtain ⟨hblank, n₁, es₁, hnest, hread, rfl⟩ := readEvents_cons.mp h
    have hrest := ih hread
    have hone := count_href_nest hnest
    have hsplit : stops href (t :: ts) = stops href [t] + stops href ts :=
      @List.count_append _ _ _ [t] ts
    rw [List.count_append, hsplit]
    omega

theorem length_group (es : List Event) :
    ((group es).2.2.map List.length).sum + (group es).2.1.length = es.count .href := by
  induction es using group.induct with
  | case1 => rfl
  | case2 c es ih => simpa [group] using ih
  | case3 es ih => simp [group, ← ih, Nat.add_assoc]
  | case4 es ih =>
    simp only [group, List.map_cons, List.sum_cons, List.length_nil] at ih ⊢
    simp [← ih, Nat.add_comm]

end Scan

/-! ## The pieces of a response -/

def opening : List Char := "  <D:response>\n    <D:href>/webdav/".toList

/-- What follows the first slash of the end of an `href`, to its end. -/
def hrefEnd : List Char := "/D:href>".toList

def between : List Char := "\n    <D:propstat>\n      <D:prop>\n        <D:displayname>".toList

def displaynameEnd : List Char := "/D:displayname>".toList

/-- A response: the name twice, and what follows. -/
def block (name rest : List Char) : List Char :=
  opening ++ (name ++ ('<' :: hrefEnd ++ (between ++ (name ++ rest))))

def inMultistatus : Nesting := ⟨[multistatus], true⟩

def inHref : Nesting := ⟨[href, response, multistatus], true⟩

def inDisplayname : Nesting :=
  ⟨["D:displayname".toList, "D:prop".toList, "D:propstat".toList, response, multistatus], true⟩

def base : List Char := "/webdav/".toList

theorem scan_opening : scan (.content 0) inMultistatus opening =
    some (.content 0, inHref, [.response, .href] ++ base.map .char) := by decide

theorem lex_hrefEnd (b : ℕ) :
    lex (.content b) ('<' :: hrefEnd) = some (.content 0, [.stop href]) := by
  refine lex_cons.mpr ⟨.lt, [], [.stop href], rfl, ?_, rfl⟩
  decide

theorem scan_between : scan (.content 0) ⟨[response, multistatus], true⟩ between =
    some (.content 0, inDisplayname, []) := by decide

/-- What follows the name of a response: it ends the name and the response. -/
structure Rest (rest : List Char) : Prop where
  starts : ∃ cs, rest = '<' :: displaynameEnd ++ cs
  scan : ∀ b,
    Multistatus.scan (.content b) inDisplayname rest = some (.content 0, inMultistatus, [])
  clear : Xml.clear href rest = true

section Blocks

variable {name rest cs : List Char} {b : ℕ} {m : Mode} {n : Nesting} {ts : List Token}
  {es : List Event}

/-- **A response whose name is characters is read to its end.** -/
theorem scan_block (hrest : Rest rest) (hlex : lex (.content 0) name = some (.content b, ts))
    (hts : Flat ts) : scan (.content 0) inMultistatus (block name rest) =
      some (.content 0, inMultistatus,
        .response :: .href :: (base ++ chars ts).map .char) := by
  have hname (n : Nesting) (hn : n.path ≠ []) := scan_eq_some.mpr ⟨ts, hlex, readEvents_flat hts hn⟩
  have hend : scan (.content b) inHref ('<' :: hrefEnd) =
      some (.content 0, ⟨[response, multistatus], true⟩, []) :=
    scan_eq_some.mpr ⟨_, lex_hrefEnd b, by decide⟩
  have hbetween := scan_append.mpr ⟨_, _, _, _, scan_between,
    scan_append.mpr ⟨_, _, _, _, hname inDisplayname (by decide), hrest.scan b, rfl⟩, rfl⟩
  refine scan_append.mpr ⟨_, _, _, _, scan_opening, scan_append.mpr ⟨_, _, _, _,
    hname inHref (by decide), scan_append.mpr ⟨_, _, _, _, hend, hbetween, rfl⟩, rfl⟩, ?_⟩
  have hhref : inHref.path = [href, response, multistatus] := rfl
  have hother : inDisplayname.path ≠ [href, response, multistatus] := by decide
  rw [if_pos hhref, if_neg hother, List.map_append]
  simp

/-! ## A response whose name is not characters -/

/-- A piece that ends an element is read where the element is the innermost. -/
theorem head_of_readEvents {n' : Nesting} {element : Name}
    (h : readEvents n (.stop element :: ts) = some (n', es)) :
    ∃ path, n.path = element :: path := by
  obtain ⟨-, n₁, -, hnest, -, -⟩ := readEvents_cons.mp h
  rw [nest] at hnest
  split at hnest
  · cases hnest
  · rename_i inner path hpath
    split_ifs at hnest with hinner
    exact ⟨path, hinner ▸ hpath⟩

theorem lex_displaynameEnd (b : ℕ) : lex (.content b) ('<' :: displaynameEnd) =
    some (.content 0, [.stop "D:displayname".toList]) := by
  refine lex_cons.mpr ⟨.lt, [], [.stop _], rfl, ?_, rfl⟩
  decide

/-- **A name without a slash that opens an element does not end it**, and the text around it ends
two different ones. -/
theorem flat_of_scan (hrest : Rest rest) (hlex : lex (.content 0) name = some (.content b, ts))
    (hname : '/' ∉ name) {m' : Mode} {n' : Nesting}
    (h : scan (.content 0) inMultistatus (block name rest) = some (m', n', es)) : Flat ts := by
  have hends := not_ends_of_lex hlex id hname
  -- the name leaves its last element open, where it is read
  have hopen {n n₁ : Nesting} {m₁ : Mode} {es₁ : List Event}
      (h : scan (.content 0) n name = some (m₁, n₁, es₁)) :
      m₁ = .content b ∧ n₁.path = (opened ts).reverse ++ n.path := by
    obtain ⟨ts', hlex', hread⟩ := scan_eq_some.mp h
    obtain ⟨rfl, rfl⟩ := Prod.mk.inj (Option.some.inj (hlex.symm.trans hlex'))
    exact ⟨rfl, path_of_readEvents hread hends⟩
  -- and what ends there is the innermost
  have hinner {n n₁ : Nesting} {m₁ : Mode} {es₁ : List Event} {element : Name} {cs : List Char}
      (htag : lex (.content b) cs = some (.content 0, [.stop element]))
      (h : scan (.content b) n cs = some (m₁, n₁, es₁)) :
      m₁ = .content 0 ∧ ∃ path, n.path = element :: path := by
    obtain ⟨ts', hlex', hread⟩ := scan_eq_some.mp h
    obtain ⟨rfl, rfl⟩ := Prod.mk.inj (Option.some.inj (htag.symm.trans hlex'))
    exact ⟨rfl, head_of_readEvents hread⟩
  obtain ⟨m₁, n₁, es₁, _, hopening, h, -⟩ := scan_append.mp h
  obtain ⟨rfl, -⟩ := Prod.mk.inj (Option.some.inj (hopening.symm.trans scan_opening))
  obtain ⟨m₂, n₂, es₂, _, hfirst, h, -⟩ := scan_append.mp h
  obtain ⟨rfl, hpath₂⟩ := hopen hfirst
  obtain ⟨m₃, n₃, es₃, _, hhref, h, -⟩ := scan_append.mp h
  obtain ⟨rfl, path, hpath⟩ := hinner (lex_hrefEnd b) hhref
  obtain ⟨m₄, n₄, es₄, _, hbetween, h, -⟩ := scan_append.mp h
  obtain ⟨ts₄, hlex₄, -⟩ := scan_eq_some.mp hbetween
  obtain ⟨ts₅, hlex₅, -⟩ := scan_eq_some.mp scan_between
  obtain ⟨rfl, -⟩ := Prod.mk.inj (Option.some.inj (hlex₄.symm.trans hlex₅))
  obtain ⟨m₅, n₅, es₅, _, hsecond, h, -⟩ := scan_append.mp h
  obtain ⟨rfl, hpath₅⟩ := hopen hsecond
  obtain ⟨cs, rfl⟩ := hrest.starts
  obtain ⟨m₆, n₆, es₆, _, hdisplayname, -, -⟩ := scan_append.mp h
  obtain ⟨-, path', hpath'⟩ := hinner (lex_displaynameEnd b) hdisplayname
  refine ⟨hends, ?_⟩
  rcases List.eq_nil_or_concat (opened ts) with hnil | ⟨l, element, hconcat⟩
  · exact hnil
  · rw [hpath, hconcat, List.concat_eq_append, List.reverse_append] at hpath₂
    rw [hpath', hconcat, List.concat_eq_append, List.reverse_append] at hpath₅
    exact absurd ((List.cons.inj hpath₂).1.trans (List.cons.inj hpath₅).1.symm) (by decide)

/-! ## A name that leaves markup open -/

theorem lex_block (hrest : Rest rest) (hlex : lex (.content 0) name = some (.content b, ts)) :
    ∃ ts', lex (.content 0) (block name rest) = some (.content 0, ts') := by
  obtain ⟨ts₁, hopening, -⟩ := scan_eq_some.mp scan_opening
  obtain ⟨ts₂, hbetween, -⟩ := scan_eq_some.mp scan_between
  obtain ⟨ts₃, hend, -⟩ := scan_eq_some.mp (hrest.scan b)
  have hsecond := lex_append.mpr ⟨_, _, _, hbetween, lex_append.mpr ⟨_, _, _, hlex, hend, rfl⟩, rfl⟩
  exact ⟨_, lex_append.mpr ⟨_, _, _, hopening, lex_append.mpr ⟨_, _, _, hlex,
    lex_append.mpr ⟨_, _, _, lex_hrefEnd b, hsecond, rfl⟩, rfl⟩, rfl⟩⟩

theorem endTags_after (hrest : Rest rest) (hname : '/' ∉ name) (cs : List Char) :
    endTags href (between ++ (name ++ (rest ++ cs))) = endTags href cs := by
  have hbetween : '/' ∉ between := by decide
  have hslash : '/' ∉ between ++ name := fun h => (List.mem_append.mp h).elim hbetween hname
  have hcs : endTags href (rest ++ cs) = endTags href cs := endTags_append hrest.clear
  obtain ⟨ds, rfl⟩ := hrest.starts
  rw [← hcs, ← List.append_assoc, List.append_assoc _ ds, List.cons_append]
  exact endTags_of_notMem hslash

/-- **A response has one end of an `href`.** -/
theorem endTags_block (hrest : Rest rest) (hname : '/' ∉ name) (cs : List Char) :
    endTags href (block name rest ++ cs) = endTags href cs + 1 := by
  have hopening : clear href opening = true := by decide
  have hclear : clear href hrefEnd = true := by decide
  have hblock : block name rest ++ cs =
      opening ++ (name ++ ('<' :: (hrefEnd ++ (between ++ (name ++ (rest ++ cs)))))) := by
    simp [block]
  have hhere (ds : List Char) : ('<' :: '/' :: href).isPrefixOf ('<' :: (hrefEnd ++ ds)) = true :=
    List.isPrefixOf_iff_prefix.mpr ⟨'>' :: ds, rfl⟩
  rw [hblock, endTags_append hopening, endTags_of_notMem hname, endTags, if_pos (hhere _),
    endTags_append hclear, endTags_after hrest hname]

/-- The responses of names and what follows them. -/
def blocks (es : List (List Char × List Char)) : List Char := es.flatMap fun e => block e.1 e.2

def ending : List Char := "</D:multistatus>\n".toList

section Names

variable {entries : List (List Char × List Char)}

theorem endTags_blocks (hrest : ∀ e ∈ entries, Rest e.2) (hname : ∀ e ∈ entries, '/' ∉ e.1) :
    endTags href (blocks entries ++ ending) = entries.length := by
  induction entries with
  | nil => decide
  | cons e entries ih =>
    rw [blocks, List.flatMap_cons, List.append_assoc, endTags_block (hrest e List.mem_cons_self)
      (hname e List.mem_cons_self), List.length_cons]
    exact congrArg (· + 1) (ih (fun e' he' => hrest e' (List.mem_cons_of_mem e he')) fun e' he' =>
      hname e' (List.mem_cons_of_mem e he'))

theorem stops_eq_zero (hts : ∀ t ∈ ts, ¬ t.Ends) : stops href ts = 0 :=
  List.count_eq_zero.mpr fun h => hts _ h trivial

/-- **Every name ends outside of markup, or fewer `href`s end than there are entries.** -/
theorem names_or_stops_lt (hrest : ∀ e ∈ entries, Rest e.2) (hname : ∀ e ∈ entries, '/' ∉ e.1)
    (h : lex (.content 0) (blocks entries ++ ending) = some (m, ts)) :
    (∀ e ∈ entries, ∃ b ts, lex (.content 0) e.1 = some (.content b, ts)) ∨
      stops href ts < entries.length := by
  induction entries generalizing ts with
  | nil => exact .inl nofun
  | cons e entries ih =>
    have hrest' : ∀ e' ∈ entries, Rest e'.2 := fun e' he' => hrest e' (List.mem_cons_of_mem e he')
    have hname' : ∀ e' ∈ entries, '/' ∉ e'.1 := fun e' he' => hname e' (List.mem_cons_of_mem e he')
    have hrest₀ := hrest e List.mem_cons_self
    have hname₀ := hname e List.mem_cons_self
    rw [blocks, List.flatMap_cons, List.append_assoc] at h
    by_cases hgood : ∃ b ts, lex (.content 0) e.1 = some (.content b, ts)
    · obtain ⟨b, ts₀, hlex⟩ := hgood
      obtain ⟨ts₁, hblock⟩ := lex_block hrest₀ hlex
      obtain ⟨m₁, ts₂, ts₃, hfirst, hothers, rfl⟩ := lex_append.mp h
      obtain ⟨rfl, rfl⟩ := Prod.mk.inj (Option.some.inj (hblock.symm.trans hfirst))
      have hone : stops href ts₁ ≤ 1 := by
        have hcount := endTags_block hrest₀ hname₀ []
        rw [List.append_nil] at hcount
        exact (stops_le_endTags href hblock).trans (Nat.le_of_eq hcount)
      refine (ih hrest' hname' hothers).imp (fun hall e' he' => ?_) fun hlt => ?_
      · rcases List.mem_cons.mp he' with rfl | he'
        · exact ⟨b, ts₀, hlex⟩
        · exact hall e' he'
      · rw [stops, List.count_append, List.length_cons]
        unfold stops at hone hlt
        omega
    · -- the name takes in the end of its `href`
      have hsplit : block e.1 e.2 ++ (blocks entries ++ ending) = opening ++ (e.1 ++
          ('<' :: hrefEnd ++ (between ++ (e.1 ++ (e.2 ++ (blocks entries ++ ending)))))) := by
        simp [block]
      obtain ⟨ts₁, hopening, -⟩ := scan_eq_some.mp scan_opening
      have hnone : stops href ts₁ = 0 := Nat.le_zero.mp
        ((stops_le_endTags href hopening).trans (Nat.le_of_eq (by decide)))
      have hwhole := (congrArg (lex (.content 0)) hsplit).symm.trans h
      obtain ⟨m₁, ts₂, ts₃, hfirst, hafter, rfl⟩ := lex_append.mp hwhole
      obtain ⟨rfl, rfl⟩ := Prod.mk.inj (Option.some.inj (hopening.symm.trans hfirst))
      obtain ⟨m₂, ts₄, ts₅, hlex, hend, rfl⟩ := lex_append.mp hafter
      have hinside : ∀ b, m₂ ≠ .content b := fun b hb => hgood ⟨b, ts₄, hb ▸ hlex⟩
      have hname₁ := stops_eq_zero (not_ends_of_lex hlex id hname₀)
      have hplain : hrefEnd.all (fun c => c ∉ ['-', ']', '?']) = true := by decide
      have hothers := stops_le_of_ne_content href hinside
        (fun c hc => of_decide_eq_true (List.all_eq_true.mp hplain c hc)) hend
      rw [endTags_after hrest₀ hname₀, endTags_blocks hrest' hname'] at hothers
      refine .inr ?_
      rw [stops, List.count_append, List.count_append, List.length_cons]
      unfold stops at hnone hname₁ hothers
      omega

/-! ## The whole answer -/

/-- The name is characters to the reader… -/
def IsFlat (name : List Char) : Prop :=
  ∃ b ts, lex (.content 0) name = some (.content b, ts) ∧ Flat ts

/-- …and these are the characters. -/
def said (name : List Char) : List Char :=
  ((lex (.content 0) name).map fun p => chars p.2).getD []

theorem said_eq (h : lex (.content 0) name = some (m, ts)) : said name = chars ts := by
  rw [said, h]
  rfl

/-- What is read of a response. -/
def eventsOf (name : List Char) : List Event := .response :: .href :: (base ++ said name).map .char

theorem scan_blocks (hrest : ∀ e ∈ entries, Rest e.2) (hflat : ∀ e ∈ entries, IsFlat e.1) :
    scan (.content 0) inMultistatus (blocks entries) =
      some (.content 0, inMultistatus, entries.flatMap fun e => eventsOf e.1) := by
  induction entries with
  | nil => rfl
  | cons e entries ih =>
    obtain ⟨b, ts, hlex, hts⟩ := hflat e List.mem_cons_self
    have hblock := scan_block (hrest e List.mem_cons_self) hlex hts
    rw [← said_eq hlex] at hblock
    have hothers := ih (fun e' he' => hrest e' (List.mem_cons_of_mem e he'))
      fun e' he' => hflat e' (List.mem_cons_of_mem e he')
    exact scan_append.mpr ⟨_, _, _, _, hblock, hothers, rfl⟩

theorem group_chars (cs : List Char) (es : List Event) :
    group (cs.map .char ++ es) = (cs ++ (group es).1, (group es).2) := by
  induction cs with
  | nil => rfl
  | cons c cs ih => rw [List.map_cons, List.cons_append, group, ih, List.cons_append]

theorem group_events (entries : List (List Char × List Char)) :
    group (entries.flatMap fun e => eventsOf e.1) =
      ([], [], entries.map fun e => [base ++ said e.1]) := by
  induction entries with
  | nil => rfl
  | cons e entries ih =>
    rw [List.flatMap_cons, eventsOf, List.cons_append, List.cons_append, group, group, group_chars,
      ih, List.append_nil, List.map_cons]

/-- **If the names end outside of markup and the answer is well formed, they are characters.** -/
theorem flat_of_scan_blocks {n' : Nesting} (hrest : ∀ e ∈ entries, Rest e.2)
    (hname : ∀ e ∈ entries, '/' ∉ e.1)
    (hlex : ∀ e ∈ entries, ∃ b ts, lex (.content 0) e.1 = some (.content b, ts))
    (h : scan (.content 0) inMultistatus (blocks entries ++ cs) = some (m, n', es)) :
    ∀ e ∈ entries, IsFlat e.1 := by
  induction entries generalizing es with
  | nil => exact nofun
  | cons e entries ih =>
    obtain ⟨b, ts, hlex₀⟩ := hlex e List.mem_cons_self
    have hrest₀ := hrest e List.mem_cons_self
    rw [blocks, List.flatMap_cons, List.append_assoc] at h
    obtain ⟨m₁, n₁, es₁, es₂, hfirst, hothers, -⟩ := scan_append.mp h
    have hts := flat_of_scan hrest₀ hlex₀ (hname e List.mem_cons_self) hfirst
    have hblock := (scan_block hrest₀ hlex₀ hts).symm.trans hfirst
    cases hblock
    intro e' he'
    rcases List.mem_cons.mp he' with rfl | he'
    · exact ⟨b, ts, hlex₀, hts⟩
    · exact ih (fun e' he' => hrest e' (List.mem_cons_of_mem e he'))
        (fun e' he' => hname e' (List.mem_cons_of_mem e he'))
        (fun e' he' => hlex e' (List.mem_cons_of_mem e he')) hothers e' he'

/-- What follows the declaration, to the first response. -/
def beginning : List Char := "\n<D:multistatus xmlns:D=\"DAV:\">\n".toList

theorem scan_beginning : scan (.content 0) ⟨[], false⟩ beginning =
    some (.content 0, inMultistatus, []) := by decide

theorem scan_ending :
    scan (.content 0) inMultistatus ending = some (.content 0, ⟨[], true⟩, []) := by decide

variable {doc : List Char} {rs : List (List (List Char))}

/-- **Names that are characters are read…** -/
theorem responses_of_flat (hdoc : content doc = some (beginning ++ (blocks entries ++ ending)))
    (hrest : ∀ e ∈ entries, Rest e.2) (hflat : ∀ e ∈ entries, IsFlat e.1) :
    responses doc = some (entries.map fun e => [base ++ said e.1]) := by
  have hscan := scan_append.mpr ⟨_, _, _, _, scan_beginning, scan_append.mpr ⟨_, _, _, _,
    scan_blocks hrest hflat, scan_ending, rfl⟩, rfl⟩
  rw [List.nil_append, List.append_nil] at hscan
  rw [responses, hdoc, Option.bind_some, hscan]
  exact congrArg (fun g => some g.2.2) (group_events entries)

/-- **…and with one `href` for each entry, no others are.** -/
theorem flat_of_responses (hdoc : content doc = some (beginning ++ (blocks entries ++ ending)))
    (hrest : ∀ e ∈ entries, Rest e.2) (hname : ∀ e ∈ entries, '/' ∉ e.1)
    (h : responses doc = some rs) (hone : ∀ r ∈ rs, r.length = 1)
    (hlength : rs.length = entries.length) : ∀ e ∈ entries, IsFlat e.1 := by
  rw [responses, hdoc, Option.bind_some] at h
  split at h
  · rename_i b es hscan
    cases h
    obtain ⟨m₁, n₁, es₁, es₂, hbeginning, hafter, rfl⟩ := scan_append.mp hscan
    cases scan_beginning.symm.trans hbeginning
    rw [List.nil_append] at hone hlength
    obtain ⟨ts, hlex, hread⟩ := scan_eq_some.mp hafter
    refine flat_of_scan_blocks hrest hname ?_ hafter
    refine (names_or_stops_lt hrest hname hlex).resolve_right fun hlt => ?_
    -- each entry has an `href`, and each `href` an end
    have hcount := count_href_le hread
    have hgroup := length_group es₂
    have hsum : ((group es₂).2.2.map List.length).sum = entries.length := by
      rw [List.map_congr_left hone, List.map_const', List.sum_replicate_nat, Nat.mul_one]
      exact hlength
    have hpath : inMultistatus.path.count href = 0 := by decide
    rw [hpath] at hcount
    simp only [List.count_nil] at hcount
    omega
  · cases h

end Names

end Blocks

/-! ## The answer as its pieces -/

/-- Text that the reader takes as it is. -/
def Plain (cs : List Char) : Prop :=
  ∀ c ∈ cs, ((isXmlChar c = true ∧ c ≠ '<' ∧ c ≠ '&') ∧ c ≠ ']') ∧ c ≠ '\r'

def afterName : List Char := "\n        <D:getcontentlength>".toList

def afterSize : List Char := "</D:getcontentlength>\n        <D:getlastmodified>".toList

def afterDate (type : EntryType) : List Char :=
  ("</D:getlastmodified>\n        <D:resourcetype>" ++
    (if type = .folder then "<D:collection/>" else "") ++
    "</D:resourcetype>\n        <D:getetag>\"").toList

def afterId : List Char :=
  ("\"</D:getetag>\n      </D:prop>\n      <D:status>HTTP/1.1 200 OK</D:status>\n" ++
    "    </D:propstat>\n  </D:response>\n").toList

/-- What follows the second name of a response. -/
def restXml (e : PropfindEntry) : List Char :=
  '<' :: displaynameEnd ++ (afterName ++ ((toString e.size).toList ++ (afterSize ++
    (e.updated.toList ++ (afterDate e.entryType ++ (e.id.text.toList ++ afterId))))))

section Pieces

variable {e : PropfindEntry} {n : Nesting} {cs : List Char}

theorem scan_plain (h : Plain cs) (hn : n.path ≠ [])
    (hhref : n.path ≠ [href, response, multistatus]) :
    scan (.content 0) n cs = some (.content 0, n, []) := by
  have hread := readEvents_flat (n := n) (flat_text cs) hn
  rw [if_neg hhref] at hread
  exact scan_eq_some.mpr ⟨_, lex_of_notMem fun c hc => (h c hc).1, hread⟩

theorem plain_of_isUuidChar (h : ∀ c ∈ cs, isUuidChar c = true) : Plain cs := by
  intro c hc
  have hrange : 48 ≤ c.toNat ∧ c.toNat ≤ 57 ∨ 97 ≤ c.toNat ∧ c.toNat ≤ 102 ∨ c.toNat = 45 := by
    rcases isUuidChar_iff.mp (h c hc) with h | h | rfl
    · exact .inl h
    · exact .inr (.inl h)
    · exact .inr (.inr rfl)
  have hxml : isXmlChar c = true := by
    have hlow : 0x20 ≤ c.toNat := by omega
    have hhigh : c.toNat ≤ 0xFFFD := by omega
    simp [isXmlChar, hlow, hhigh]
  refine ⟨⟨⟨hxml, ?_, ?_⟩, ?_⟩, ?_⟩
  all_goals
    rintro rfl
    revert hrange
    decide

theorem plain_id (e : PropfindEntry) : Plain e.id.text.toList := by
  have h := e.id.canonical
  rw [Bool.and_eq_true, List.all_eq_true] at h
  exact plain_of_isUuidChar h.2

/-- A number is written in digits, with a sign. -/
theorem plain_size (e : PropfindEntry) : Plain (toString e.size).toList := by
  refine plain_of_isUuidChar fun c hc => ?_
  have hdigits {k : ℕ} (h : c ∈ (Nat.repr k).toList) : isUuidChar c = true := by
    rw [Nat.repr_eq_ofList_toDigits, String.toList_ofList] at h
    simp [isUuidChar, Nat.isDigit_of_mem_toDigits (by decide) (by decide) h]
  rw [Int.toString_eq_repr, Int.repr_eq_if] at hc
  split_ifs at hc
  · exact hdigits hc
  · rw [String.toList_append] at hc
    rcases List.mem_append.mp hc with hc | hc
    · obtain rfl : c = '-' := by simpa using hc
      decide
    · exact hdigits hc

def inProp : Nesting := ⟨["D:prop".toList, "D:propstat".toList, response, multistatus], true⟩

/-- The element of a property. -/
def inProperty (name : String) : Nesting := ⟨name.toList :: inProp.path, true⟩

theorem rest_restXml (h : Plain e.updated.toList) : Rest (restXml e) where
  starts := ⟨_, rfl⟩
  scan b := by
    have hname : scan (.content b) inDisplayname ('<' :: displaynameEnd) =
        some (.content 0, inProp, []) :=
      scan_eq_some.mpr ⟨_, lex_displaynameEnd b, by decide⟩
    have hafterName : scan (.content 0) inProp afterName =
        some (.content 0, inProperty "D:getcontentlength", []) := by decide
    have hafterSize : scan (.content 0) (inProperty "D:getcontentlength") afterSize =
        some (.content 0, inProperty "D:getlastmodified", []) := by decide
    have hafterDate : scan (.content 0) (inProperty "D:getlastmodified") (afterDate e.entryType) =
        some (.content 0, inProperty "D:getetag", []) := by
      cases e.entryType <;> decide +kernel
    have hafterId : scan (.content 0) (inProperty "D:getetag") afterId =
        some (.content 0, inMultistatus, []) := by decide +kernel
    have hsize := scan_plain (n := inProperty "D:getcontentlength") (plain_size e) nofun (by decide)
    have hdate := scan_plain (n := inProperty "D:getlastmodified") h nofun (by decide)
    have hid := scan_plain (n := inProperty "D:getetag") (plain_id e) nofun (by decide)
    exact scan_append.mpr ⟨_, _, _, _, hname, scan_append.mpr ⟨_, _, _, _, hafterName,
      scan_append.mpr ⟨_, _, _, _, hsize, scan_append.mpr ⟨_, _, _, _, hafterSize,
      scan_append.mpr ⟨_, _, _, _, hdate, scan_append.mpr ⟨_, _, _, _, hafterDate,
      scan_append.mpr ⟨_, _, _, _, hid, hafterId, rfl⟩, rfl⟩, rfl⟩, rfl⟩, rfl⟩, rfl⟩, rfl⟩
  clear := by
    have hplain {cs : List Char} (h : Plain cs) : clear href cs = true :=
      clear_of_notMem fun hlt => (h '<' hlt).1.1.2.1 rfl
    have hdate : clear href (afterDate e.entryType) = true := by
      cases e.entryType <;> decide +kernel
    exact clear_append (by decide) (clear_append (by decide) (clear_append
      (hplain (plain_size e)) (clear_append (by decide) (clear_append (hplain h)
      (clear_append hdate (clear_append (hplain (plain_id e)) (by decide +kernel)))))))

/-! ## Line ends -/

theorem return_notMem_restXml (h : Plain e.updated.toList) : '\r' ∉ restXml e := by
  have hplain {cs : List Char} (h : Plain cs) : '\r' ∉ cs := fun hr => (h '\r' hr).2 rfl
  have hdate : '\r' ∉ afterDate e.entryType := by
    cases e.entryType <;> decide
  have hname : '\r' ∉ '<' :: displaynameEnd := by decide
  have hafterName : '\r' ∉ afterName := by decide
  have hafterSize : '\r' ∉ afterSize := by decide
  have hafterId : '\r' ∉ afterId := by decide
  simp only [restXml, List.mem_append, not_or]
  exact ⟨hname, hafterName, hplain (plain_size e), hafterSize, hplain h, hdate, hplain (plain_id e),
    hafterId⟩

theorem normalize_block {name rest ds : List Char} (hstarts : ∃ cs, rest = '<' :: cs)
    (hreturn : '\r' ∉ rest) : normalize false (block name rest ++ ds) =
      block (normalize false name) rest ++ normalize false ds := by
  obtain ⟨cs, rfl⟩ := hstarts
  have hopening : '\r' ∉ opening := by decide
  have hbetween : '\r' ∉ '<' :: (hrefEnd ++ between) := by decide
  have hlt : '<' ≠ '\n' := by decide
  have hblock (name ds : List Char) : block name ('<' :: cs) ++ ds =
      opening ++ (name ++ '<' :: (hrefEnd ++ between ++ (name ++ '<' :: (cs ++ ds)))) := by
    simp [block]
  have hrest : normalize false ('<' :: (cs ++ ds)) = '<' :: cs ++ normalize false ds :=
    normalize_append_of_notMem hreturn
  rw [hblock, hblock, normalize_append_of_notMem hopening, normalize_append hlt, ← List.cons_append,
    normalize_append_of_notMem hbetween, normalize_append hlt, hrest]
  rfl

end Pieces

section Whole

variable {entries : List PropfindEntry}

/-- The names and what follows them, as they are read. -/
def pieces (e : PropfindEntry) : List Char × List Char := (normalize false e.name.toList, restXml e)

theorem toList_responseXml (e : PropfindEntry) :
    (responseXml e).toList = block e.name.toList (restXml e) := by
  have hhref : "</D:href>\n    <D:propstat>\n      <D:prop>\n        <D:displayname>".toList =
      '<' :: hrefEnd ++ between := by decide
  have hdisplayname : "</D:displayname>\n        <D:getcontentlength>".toList =
      '<' :: displaynameEnd ++ afterName := by decide
  have hpieces (a b c d f g h i n s u t j : String) (hb : b.toList = '<' :: hrefEnd ++ between)
      (hc : c.toList = '<' :: displaynameEnd ++ afterName) :
      (a ++ n ++ b ++ n ++ c ++ s ++ d ++ u ++ f ++ t ++ g ++ j ++ h ++ i).toList =
        a.toList ++ (n.toList ++ ('<' :: hrefEnd ++ (between ++ (n.toList ++
          ('<' :: displaynameEnd ++ (afterName ++ (s.toList ++ (d.toList ++ (u.toList ++
            ((f ++ t ++ g).toList ++ (j.toList ++ (h ++ i).toList))))))))))) := by
    simp only [String.toList_append, hb, hc, List.append_assoc, List.cons_append]
  exact hpieces _ _ _ _ _ _ _ _ _ _ _ _ _ hhref hdisplayname

theorem toList_propfindXml (entries : List PropfindEntry) : (propfindXml entries).toList =
    declaration ++ (beginning ++
      (blocks (entries.map fun e => (e.name.toList, restXml e)) ++ ending)) := by
  have hhead :
      "<?xml version=\"1.0\" encoding=\"utf-8\"?>\n<D:multistatus xmlns:D=\"DAV:\">\n".toList =
        declaration ++ beginning := by decide
  have hblocks : (String.join (entries.map responseXml)).toList =
      blocks (entries.map fun e => (e.name.toList, restXml e)) := by
    rw [String.toList_join, List.flatMap_map, blocks, List.flatMap_map]
    exact congrArg (List.flatMap · entries) (funext toList_responseXml)
  have hpieces (a b c : String) (ha : a.toList = declaration ++ beginning) :
      (a ++ b ++ c).toList = declaration ++ (beginning ++ (b.toList ++ c.toList)) := by
    simp only [String.toList_append, ha, List.append_assoc]
  rw [← hblocks]
  exact hpieces _ _ _ hhead

theorem normalize_blocks (h : ∀ e ∈ entries, Plain e.updated.toList) (ds : List Char) :
    normalize false (blocks (entries.map fun e => (e.name.toList, restXml e)) ++ ds) =
      blocks (entries.map pieces) ++ normalize false ds := by
  induction entries with
  | nil => rfl
  | cons e entries ih =>
    have hothers := ih fun e' he' => h e' (List.mem_cons_of_mem e he')
    have hreturn := return_notMem_restXml (h e List.mem_cons_self)
    rw [List.map_cons, List.map_cons, blocks, List.flatMap_cons, blocks, List.flatMap_cons,
      List.append_assoc, List.append_assoc]
    refine (normalize_block ⟨_, rfl⟩ hreturn).trans ?_
    exact congrArg (block _ _ ++ ·) hothers

/-- **The answer is the text of its pieces**, with one kind of line end. -/
theorem content_propfindXml (h : ∀ e ∈ entries, Plain e.updated.toList) :
    content (propfindXml entries).toList =
      some (beginning ++ (blocks (entries.map pieces) ++ ending)) := by
  have hhead : '\r' ∉ declaration ++ beginning := by decide
  have hending : normalize false ending = ending := by decide
  have hnormal : normalize false (propfindXml entries).toList =
      declaration ++ (beginning ++ (blocks (entries.map pieces) ++ ending)) := by
    rw [toList_propfindXml, ← List.append_assoc, normalize_append_of_notMem hhead,
      normalize_blocks h, hending, List.append_assoc]
  rw [content, hnormal, if_pos (List.isPrefixOf_iff_prefix.mpr (List.prefix_append ..)),
    List.drop_left]

theorem rest_pieces (h : ∀ e ∈ entries, Plain e.updated.toList) :
    ∀ p ∈ entries.map pieces, Rest p.2 := by
  intro p hp
  obtain ⟨e, he, rfl⟩ := List.mem_map.mp hp
  exact rest_restXml (h e he)

theorem slash_notMem_pieces (h : ∀ e ∈ entries, '/' ∉ e.name.toList) :
    ∀ p ∈ entries.map pieces, '/' ∉ p.1 := by
  intro p hp hmem
  obtain ⟨e, he, rfl⟩ := List.mem_map.mp hp
  exact (mem_normalize hmem).elim (h e he) (by decide)

/-- What the `href` of an entry says after its base. -/
def hrefName (e : PropfindEntry) : List Char := said (normalize false e.name.toList)

/-- **Names that are characters are read as what they say…** -/
theorem responses_propfindXml (hdates : ∀ e ∈ entries, Plain e.updated.toList)
    (hflat : ∀ e ∈ entries, IsFlat (normalize false e.name.toList)) :
    responses (propfindXml entries).toList = some (entries.map fun e => [base ++ hrefName e]) := by
  have hcontent := content_propfindXml hdates
  refine (responses_of_flat hcontent (rest_pieces hdates) fun p hp => ?_).trans ?_
  · obtain ⟨e, he, rfl⟩ := List.mem_map.mp hp
    exact hflat e he
  · rw [List.map_map]
    rfl

/-- **…and if there is one `href` for each entry, all names are.** -/
theorem flat_of_propfindXml {rs : List (List (List Char))}
    (hdates : ∀ e ∈ entries, Plain e.updated.toList) (hnames : ∀ e ∈ entries, '/' ∉ e.name.toList)
    (h : responses (propfindXml entries).toList = some rs) (hone : ∀ r ∈ rs, r.length = 1)
    (hlength : rs.length = entries.length) :
    ∀ e ∈ entries, IsFlat (normalize false e.name.toList) := by
  intro e he
  have hlength' : rs.length = (entries.map pieces).length := by rw [List.length_map, hlength]
  exact flat_of_responses (content_propfindXml hdates) (rest_pieces hdates)
    (slash_notMem_pieces hnames) h hone hlength' (pieces e) (List.mem_map_of_mem he)

/-- **A name says no more than its characters**, and as many only if it is itself. -/
theorem length_said {name : List Char} (h : IsFlat (normalize false name)) :
    (said (normalize false name)).length ≤ name.length ∧
      ((said (normalize false name)).length = name.length →
        said (normalize false name) = normalize false name ∧ IsText (normalize false name)) := by
  obtain ⟨b, ts, hlex, -⟩ := h
  have hle := length_chars_le hlex
  have hnormal : (normalize false name).length ≤ name.length := length_normalize_le
  simp only [Mode.weight, Nat.zero_add, Nat.add_zero] at hle
  rw [said_eq hlex]
  refine ⟨hle.trans hnormal, fun heq => ?_⟩
  rcases lex_content hlex with ⟨b', hb, rfl⟩ | hlt
  · exact ⟨chars_text _, isText_of_lex (Nat.zero_le 2) hlex⟩
  · omega

end Whole

end Pcos.Multistatus
