import Mathlib.Data.List.Forall2
import Pcos.Backend.DavTransfers
import Pcos.Backend.Multistatus
import Pcos.Backend.S3Listing
import Pcos.Foundations.Sums
import Pcos.Foundations.Text

/-!
# Backend/Propfind — the listing of a folder over WebDAV (`webdav.rs`)

    folder ──ORDER BY entry_type DESC, name──▸ propfind_xml ──a client──▸ hrefs ──▸ paths

An `href` is the base and the bare name of the entry: no folder, and nothing escaped.  So the paths
that a client reads lead to the entries only from the root, and only if each name says itself: in
XML, and as a percent-encoded text (`propfind_iff`).
-/

namespace Pcos.Propfind

open Foundations Foundations.Xml Multistatus Listing

/-! ## The handler -/

/-- A letter, a digit, or what stands between them in a date. -/
def isDateChar (c : Char) : Bool :=
  c.isDigit || ('A' ≤ c && c ≤ 'Z') || ('a' ≤ c && c ≤ 'z') || c == ' ' || c == ',' || c == ':'

/-- `to_char(updated_at, 'Dy, DD Mon YYYY HH24:MI:SS GMT')` -/
structure DateText where
  text : ℤ → String
  chars : ∀ t, (text t).toList.all isDateChar = true

/-- `ORDER BY entry_type DESC, name` -/
def byTypeAndName (coll : Collation) (a b : FileEntry) : Prop :=
  a.entryType = .folder ∧ b.entryType = .file ∨
    a.entryType = b.entryType ∧ coll.le a.name b.name = true

instance (coll : Collation) : DecidableRel (byTypeAndName coll) := fun a b =>
  inferInstanceAs (Decidable (a.entryType = .folder ∧ b.entryType = .file ∨
    a.entryType = b.entryType ∧ coll.le a.name b.name = true))

/-- The entries of a folder that are not in the trash. -/
def liveChildren (w : World) (user : Uuid) (folder : Option Uuid) : List FileEntry :=
  w.entries.rows.filter fun r => r.userId = user && r.parentId = folder && !r.isTrashed

variable (dates : DateText) (coll : Collation) (scan : Scan)

def listed (w : World) (user : Uuid) (folder : Option Uuid) : List FileEntry :=
  (scan.rows (liveChildren w user folder)).insertionSort (byTypeAndName coll)

def entryOf (r : FileEntry) : PropfindEntry :=
  ⟨r.id, r.name, r.entryType, r.sizeBytes, dates.text r.updatedAt⟩

/-- `PROPFIND`: the body of the answer, if it is not 404. -/
def propfind (w : World) (user : Uuid) (rawPath : String) : Option String :=
  match (resolvePath w user rawPath).2 with
  | some r =>
    match r.entryType with
    | .folder => some (propfindXml ((listed coll scan w user (some r.id)).map (entryOf dates)))
    | .file => some (propfindXml [entryOf dates r])
  | none =>
    if rawPath = "" then some (propfindXml ((listed coll scan w user none).map (entryOf dates)))
    else none

/-! ## What a listing is for -/

/-- The `href`, decoded and without the base, is a path of the entry. -/
def LeadsTo (w : World) (user : Uuid) (href : List Char) (r : FileEntry) : Prop :=
  ∃ path : String, percentBytes href = utf8 ("/webdav/" ++ path).toList ∧
    (resolvePath w user path).2 = some r

/-- Each response has one `href`, which leads to an entry of the folder, and each entry has one. -/
def Faithful (w : World) (user : Uuid) (folder : Option Uuid) (body : String) : Prop :=
  ∃ rs children, responses body.toList = some rs ∧ children.Perm (liveChildren w user folder) ∧
    List.Forall₂ (fun hrefs r => ∃ href, hrefs = [href] ∧ LeadsTo w user href r) rs children

/-- A name that says itself. -/
structure SaysItself (name : String) : Prop where
  nonempty : name ≠ ""
  text : IsText name.toList
  noReturn : '\r' ∉ name.toList
  noEscape : hasEscape name.toList = false

/-- The path is answered, and the folder is empty, or is the root with names that say themselves. -/
def Listable (w : World) (user : Uuid) (folder : Option Uuid) (rawPath : String) : Prop :=
  (rawPath = "" ∨ segments rawPath ≠ []) ∧ (liveChildren w user folder = [] ∨
    folder = none ∧ ∀ r ∈ liveChildren w user folder, SaysItself r.name)

/-! ## The folder of a path -/

section Resolve

variable {dates} {coll} {scan} {w : World} {user : Uuid} {folder : Option Uuid} {rawPath : String}
  {r : FileEntry}

theorem mem_liveChildren : r ∈ liveChildren w user folder ↔
    r ∈ w.entries.rows ∧ r.userId = user ∧ r.parentId = folder ∧ r.isTrashed = false := by
  simp [liveChildren, and_assoc]

theorem listed_perm : (listed coll scan w user folder).Perm (liveChildren w user folder) :=
  (List.perm_insertionSort _ _).trans (scan.perm _)

/-- **A path that leads to a folder is answered with the entries of the folder**, unless it consists
of slashes. -/
theorem propfind_eq (hfolder : folderAt w user (segments rawPath) = some folder) :
    propfind dates coll scan w user rawPath = if rawPath = "" ∨ segments rawPath ≠ [] then
      some (propfindXml ((listed coll scan w user folder).map (entryOf dates))) else none := by
  rcases List.eq_nil_or_concat (segments rawPath) with hnil | ⟨ns, name, hconcat⟩
  · have hresolve : (resolvePath w user rawPath).2 = none := by rw [resolvePath, hnil]; rfl
    rw [hnil] at hfolder
    cases hfolder
    rw [propfind, hresolve, hnil]
    simp
  · rw [List.concat_eq_append] at hconcat
    rw [hconcat, folderAt, walk_append] at hfolder
    obtain ⟨parent, hparent, hname⟩ := Option.bind_eq_some_iff.mp hfolder
    obtain ⟨_, hname, heq⟩ := Option.bind_eq_some_iff.mp hname
    cases heq
    rw [enterFolder_eq] at hname
    obtain ⟨f, hf, rfl⟩ := Option.map_eq_some_iff.mp hname
    obtain ⟨hchild, htype⟩ := Option.filter_eq_some_iff.mp hf
    have hresolve : (resolvePath w user rawPath).2 = some f := by
      rw [resolvePath, hconcat, (resolveSegments_concat ns).1 parent hparent]
      exact hchild
    have hne : segments rawPath ≠ [] := by simp [hconcat]
    rw [propfind, hresolve]
    simp [of_decide_eq_true htype, hne]

theorem mem_segments {path name : String} (h : name ∈ segments path) :
    name.toList ≠ [] ∧ '/' ∉ name.toList ∧ name.toList.Sublist path.toList := by
  obtain ⟨cs, hcs, rfl⟩ := List.mem_map.mp h
  obtain ⟨hmem, hne⟩ := List.mem_filter.mp hcs
  have htrim : (trimSlashes path.toList).Sublist path.toList := by
    have hend := ((path.toList.dropWhile (· = '/')).reverse.dropWhile_sublist (· = '/')).reverse
    rw [List.reverse_reverse] at hend
    exact hend.trans (List.dropWhile_sublist _)
  rw [String.toList_ofList]
  refine ⟨of_decide_eq_true hne, fun hslash => ?_, (sublist_of_mem_splitOnP hmem).trans htrim⟩
  exact absurd (not_of_mem_splitOnP hmem hslash) (by decide)

/-- The path of a name in the root. -/
theorem segments_name {name : String} (hne : name.toList ≠ []) (hslash : '/' ∉ name.toList) :
    segments name = [name] := by
  let p : DavPath := ⟨[], name, by
    intro n hn
    obtain rfl := List.mem_singleton.mp hn
    exact ⟨hne, hslash⟩⟩
  have hraw : p.raw = name := by
    rw [DavPath.raw, DavPath.names, List.nil_append, List.map_singleton, List.intercalate_singleton,
      String.ofList_toList]
  have hsegments := p.segments_raw
  rw [hraw] at hsegments
  exact hsegments

theorem resolvePath_name {name : String} (hne : name.toList ≠ []) (hslash : '/' ∉ name.toList) :
    (resolvePath w user name).2 = liveChild w user none name := by
  rw [resolvePath, segments_name hne hslash]
  rfl

/-- **A path is no shorter than the name of what it leads to**, and the name alone leads to what is
in the root. -/
theorem resolvePath_length {path : String} (h : (resolvePath w user path).2 = some r) :
    r.name ≠ "" ∧ r.name.toList.length ≤ path.toList.length ∧
      (r.name.toList.length = path.toList.length → path = r.name ∧ r.parentId = none) := by
  have hmem : r.name ∈ segments path := by
    rcases List.eq_nil_or_concat (segments path) with hnil | ⟨ns, name, hconcat⟩
    · rw [resolvePath, hnil] at h
      cases h
    · rw [List.concat_eq_append] at hconcat
      rw [resolvePath, hconcat] at h
      cases hwalk : walk (enterFolder w user) none ns with
      | none => cases ((resolveSegments_concat ns).2 hwalk).symm.trans h
      | some folder =>
        rw [(resolveSegments_concat ns).1 folder hwalk] at h
        simp [hconcat, (liveChild_eq_some h).2.2.1]
  obtain ⟨hne, hslash, hsublist⟩ := mem_segments hmem
  refine ⟨fun hempty => hne (by rw [hempty]; rfl), hsublist.length_le, fun heq => ?_⟩
  obtain rfl : path = r.name := String.toList_injective (hsublist.eq_of_length heq).symm
  rw [resolvePath_name hne hslash] at h
  exact ⟨rfl, (liveChild_eq_some h).2.2.2.2⟩

end Resolve

/-! ## What the entries are read as -/

theorem DateText.plain (dates : DateText) (t : ℤ) : Plain (dates.text t).toList := by
  intro c hc
  have h := List.all_eq_true.mp (dates.chars t) c hc
  simp only [isDateChar, Bool.or_eq_true, Bool.and_eq_true, decide_eq_true_eq, beq_iff_eq] at h
  have hrange : (48 ≤ c.toNat ∧ c.toNat ≤ 57 ∨ 65 ≤ c.toNat ∧ c.toNat ≤ 90 ∨
      97 ≤ c.toNat ∧ c.toNat ≤ 122) ∨ c.toNat = 32 ∨ c.toNat = 44 ∨ c.toNat = 58 := by
    rcases h with ((((h | h) | h) | rfl) | rfl) | rfl
    · exact .inl (.inl (Char.isDigit_iff_toNat.mp h))
    · exact .inl (.inr (.inl h))
    · exact .inl (.inr (.inr h))
    · exact .inr (.inl rfl)
    · exact .inr (.inr (.inl rfl))
    · exact .inr (.inr (.inr rfl))
  have hxml : isXmlChar c = true := by
    have hlow : 0x20 ≤ c.toNat := by omega
    have hhigh : c.toNat ≤ 0xFFFD := by omega
    simp [isXmlChar, hlow, hhigh]
  refine ⟨⟨⟨hxml, ?_, ?_⟩, ?_⟩, ?_⟩
  all_goals
    rintro rfl
    revert hrange
    decide

section Entries

variable {dates : DateText} {w : World} {user : Uuid} {folder : Option Uuid} {r : FileEntry}
  {rows : List FileEntry} {name : String}

theorem hasEscape_base (cs : List Char) : hasEscape (base ++ cs) = hasEscape cs := by
  have hbase : base = ['/', 'w', 'e', 'b', 'd', 'a', 'v', '/'] := by decide
  simp [hbase, hasEscape_cons]

theorem toList_base (path : String) : ("/webdav/" ++ path).toList = base ++ path.toList :=
  String.toList_append

/-- A name that says itself is read as it is. -/
theorem flat_of_saysItself (h : SaysItself name) : IsFlat (normalize false name.toList) ∧
    said (normalize false name.toList) = name.toList := by
  rw [normalize_of_notMem h.noReturn]
  obtain ⟨b, hlex⟩ := lex_of_isText (b := 0) (Nat.zero_le 2) h.text
  exact ⟨⟨b, _, hlex, flat_text _⟩, (said_eq hlex).trans (chars_text _)⟩

/-- **From the root it leads to the entry.** -/
theorem leadsTo_of_saysItself (h : SaysItself r.name) (hslash : '/' ∉ r.name.toList)
    (hr : r ∈ liveChildren w user none) : LeadsTo w user (base ++ r.name.toList) r := by
  obtain ⟨hmem, huser, hparent, hlive⟩ := mem_liveChildren.mp hr
  refine ⟨r.name, ?_, ?_⟩
  · rw [toList_base, percentBytes_of_hasEscape ((hasEscape_base _).trans h.noEscape)]
  · rw [resolvePath_name (fun hnil => h.nonempty (String.toList_injective hnil)) hslash]
    exact liveChild_iff.mpr ⟨hmem, huser, rfl, hlive, hparent⟩

/-- **What an `href` leads to has a name no longer than what it says**, and if it is as long, it is
in the root and is what the `href` says. -/
theorem LeadsTo.length_le {cs : List Char} (h : LeadsTo w user (base ++ cs) r) :
    r.name.toList.length ≤ cs.length ∧ (r.name.toList.length = cs.length →
      r.name.toList = cs ∧ r.name ≠ "" ∧ r.parentId = none ∧ hasEscape cs = false) := by
  obtain ⟨path, hbytes, hresolve⟩ := h
  rw [toList_base] at hbytes
  obtain ⟨hne, hle, hsame⟩ := resolvePath_length hresolve
  have hleads := leads_percentBytes_le (base ++ cs)
  rw [hbytes, leads_utf8, List.length_append, List.length_append] at hleads
  refine ⟨by omega, fun heq => ?_⟩
  obtain ⟨rfl, hparent⟩ := hsame (by omega)
  have hlength : (base ++ cs).length ≤ (base ++ r.name.toList).length := by
    rw [List.length_append, List.length_append, heq]
  obtain ⟨hescape, hcs⟩ := eq_of_percentBytes hbytes hlength
  exact ⟨(List.append_cancel_left hcs).symm, hne, hparent, (hasEscape_base cs).symm.trans hescape⟩

/-! ## When it is -/

theorem updated_plain (dates : DateText) (rows : List FileEntry) :
    ∀ e ∈ rows.map (entryOf dates), Plain e.updated.toList := by
  intro e he
  obtain ⟨r, -, rfl⟩ := List.mem_map.mp he
  exact dates.plain r.updatedAt

theorem faithful_of_flat (hperm : rows.Perm (liveChildren w user folder))
    (h : ∀ r ∈ rows, IsFlat (normalize false r.name.toList) ∧
      LeadsTo w user (base ++ said (normalize false r.name.toList)) r) :
    Faithful w user folder (propfindXml (rows.map (entryOf dates))) := by
  refine ⟨_, rows, responses_propfindXml (updated_plain dates rows) fun e he => ?_, hperm, ?_⟩
  · obtain ⟨r, hr, rfl⟩ := List.mem_map.mp he
    exact (h r hr).1
  · rw [List.map_map, List.forall₂_map_left_iff, List.forall₂_same]
    exact fun r hr => ⟨_, rfl, (h r hr).2⟩

theorem exists_of_forall₂ {α β : Type*} {R : α → β → Prop} {l : List α} {l' : List β}
    (h : List.Forall₂ R l l') : ∀ b ∈ l', ∃ a, R a b := by
  induction h with
  | nil => exact nofun
  | cons hab _ ih =>
    intro b hb
    rcases List.mem_cons.mp hb with rfl | hb
    · exact ⟨_, hab⟩
    · exact ih b hb

/-- An entry whose `href` leads to a name as long has that name, in the root, and it says itself. -/
theorem LeadsTo.saysItself {child : FileEntry} (hflat : IsFlat (normalize false r.name.toList))
    (h : LeadsTo w user (base ++ said (normalize false r.name.toList)) child) :
    child.name.toList.length ≤ r.name.toList.length ∧
      (child.name.toList.length = r.name.toList.length →
        child.parentId = none ∧ SaysItself child.name) := by
  obtain ⟨hchild, hsame⟩ := h.length_le
  obtain ⟨hsaid, htext⟩ := length_said hflat
  refine ⟨hchild.trans hsaid, fun heq => ?_⟩
  obtain ⟨hname, hne, hparent, hescape⟩ := hsame (by omega)
  obtain ⟨hnormal, htext⟩ := htext (by omega)
  rw [hnormal] at hname hescape
  rw [← hname] at htext hescape
  exact ⟨hparent, hne, htext, hname ▸ return_notMem_normalize, hescape⟩

/-- **A faithful answer is about entries of the root that say themselves.** -/
theorem saysItself_of_faithful (hperm : rows.Perm (liveChildren w user folder))
    (hslash : ∀ r ∈ rows, '/' ∉ r.name.toList)
    (h : Faithful w user folder (propfindXml (rows.map (entryOf dates)))) :
    ∀ r ∈ liveChildren w user folder, r.parentId = none ∧ SaysItself r.name := by
  obtain ⟨rs, children, hresponses, hchildren, hall⟩ := h
  have hsame := hchildren.trans hperm.symm
  have hone : ∀ hrefs ∈ rs, hrefs.length = 1 := by
    intro hrefs hmem
    obtain ⟨r, href, rfl, -⟩ := exists_of_forall₂ hall.flip hrefs hmem
    rfl
  have hlength : rs.length = (rows.map (entryOf dates)).length := by
    rw [hall.length_eq, hsame.length_eq, List.length_map]
  have hnames : ∀ e ∈ rows.map (entryOf dates), '/' ∉ e.name.toList := by
    intro e he
    obtain ⟨r, hr, rfl⟩ := List.mem_map.mp he
    exact hslash r hr
  have hdates := updated_plain dates rows
  have hflat := flat_of_propfindXml hdates hnames hresponses hone hlength
  cases hresponses.symm.trans (responses_propfindXml hdates hflat)
  rw [List.map_map, List.forall₂_map_left_iff] at hall
  have hpairs := (List.forall₂_and_left rows children).mpr
    ⟨fun r hr => hflat _ (List.mem_map_of_mem hr), hall⟩
  have hleads : List.Forall₂ (fun r child => child.name.toList.length ≤ r.name.toList.length ∧
      (child.name.toList.length = r.name.toList.length →
        child.parentId = none ∧ SaysItself child.name)) rows children := by
    refine hpairs.imp fun r child h => ?_
    obtain ⟨hflat, href, heq, hleads⟩ := h
    cases heq
    exact hleads.saysItself hflat
  -- no entry has a longer name than the one it is read from, so none has a shorter one
  have hlengths := forall₂_eq_of_sum (hleads.imp fun r child h => h.1)
    (Nat.le_of_eq (hsame.symm.map _).sum_eq)
  have hself : List.Forall₂ (fun _ child => child.parentId = none ∧ SaysItself child.name)
      rows children := hlengths.mp (fun r child heq h => h.2 heq) hleads
  intro r hr
  obtain ⟨_, hself⟩ := exists_of_forall₂ hself r (hchildren.mem_iff.mpr hr)
  exact hself

end Entries

/-- **The listing of a folder is faithful exactly when it is listable.** -/
theorem propfind_iff (dates : DateText) (coll : Collation) (scan : Scan) (w : World) (user : Uuid)
    (rawPath : String) (folder : Option Uuid)
    (hfolder : folderAt w user (segments rawPath) = some folder)
    (hslash : ∀ r ∈ liveChildren w user folder, '/' ∉ r.name.toList) :
    (∃ body, propfind dates coll scan w user rawPath = some body ∧ Faithful w user folder body) ↔
      Listable w user folder rawPath := by
  have hperm : (listed coll scan w user folder).Perm (liveChildren w user folder) := listed_perm
  have hslash' : ∀ r ∈ listed coll scan w user folder, '/' ∉ r.name.toList := fun r hr =>
    hslash r (hperm.mem_iff.mp hr)
  rw [propfind_eq hfolder, Listable]
  constructor
  · rintro ⟨body, hbody, hfaithful⟩
    split_ifs at hbody with hanswered
    cases hbody
    refine ⟨hanswered, ?_⟩
    have hself := saysItself_of_faithful hperm hslash' hfaithful
    rcases List.eq_nil_or_concat (liveChildren w user folder) with hnil | ⟨l, r, hconcat⟩
    · exact .inl hnil
    · have hr : r ∈ liveChildren w user folder := by simp [hconcat]
      exact .inr ⟨(mem_liveChildren.mp hr).2.2.1.symm.trans (hself r hr).1,
        fun r hr => (hself r hr).2⟩
  · rintro ⟨hanswered, hcases⟩
    rw [if_pos hanswered]
    refine ⟨_, rfl, faithful_of_flat hperm fun r hr => ?_⟩
    have hmem := hperm.mem_iff.mp hr
    rcases hcases with hnil | ⟨rfl, hself⟩
    · rw [hnil] at hmem
      cases hmem
    · obtain ⟨hflat, hsaid⟩ := flat_of_saysItself (hself r hmem)
      refine ⟨hflat, ?_⟩
      rw [hsaid]
      exact leadsTo_of_saysItself (hself r hmem) (hslash r hmem) hmem

/-- The path leads to the folder, no name in it has a slash, and the listing is not faithful. -/
def Fails (dates : DateText) (coll : Collation) (scan : Scan) (w : World) (user : Uuid)
    (rawPath : String) (folder : Option Uuid) : Prop :=
  folderAt w user (segments rawPath) = some folder ∧
    (∀ r ∈ liveChildren w user folder, '/' ∉ r.name.toList) ∧
    ¬ ∃ body, propfind dates coll scan w user rawPath = some body ∧ Faithful w user folder body

theorem fails_of_mem {dates : DateText} {coll : Collation} {scan : Scan} {w : World} {user : Uuid}
    {rawPath : String} {folder : Option Uuid} {r : FileEntry}
    (hfolder : folderAt w user (segments rawPath) = some folder)
    (hslash : ∀ r ∈ liveChildren w user folder, '/' ∉ r.name.toList)
    (hr : r ∈ liveChildren w user folder) (h : r.parentId = none → ¬ SaysItself r.name) :
    Fails dates coll scan w user rawPath folder := by
  refine ⟨hfolder, hslash, ?_⟩
  rintro ⟨body, hbody, hfaithful⟩
  rw [propfind_eq hfolder] at hbody
  split_ifs at hbody
  cases hbody
  have hperm : (listed coll scan w user folder).Perm (liveChildren w user folder) := listed_perm
  obtain ⟨hparent, hself⟩ := saysItself_of_faithful hperm
    (fun r hr => hslash r (hperm.mem_iff.mp hr)) hfaithful r hr
  exact h hparent hself

namespace Sample

open Pcos.Sample Listing.Sample

/-- One date for all. -/
def someDate : DateText := ⟨fun _ => "Thu, 01 Jan 1970 00:00:00 GMT", fun _ => by decide⟩

def entryIn (folder : Option Uuid) (id : Uuid) (name : String) (type : EntryType) : FileEntry :=
  ⟨id, alice, folder, name, type, none, 1, none, none, false, none, 0, 0⟩

/-- A folder and a file beside it. -/
def besideFile : World :=
  { World.empty migratedColumns users with
    entries := ⟨[entryIn none id1 "docs" .folder, entryIn none id2 "a b" .file], by decide⟩ }

/-- A folder with a file in it. -/
def aroundFile : World :=
  { World.empty migratedColumns users with
    entries := ⟨[entryIn none id1 "docs" .folder, entryIn (some id1) id2 "x" .file], by decide⟩ }

/-- A name with markup… -/
def markedName : World :=
  { World.empty migratedColumns users with
    entries := ⟨[entryIn none id1 "a&b" .file], by decide⟩ }

/-- …and one with an escape. -/
def escapedName : World :=
  { World.empty migratedColumns users with
    entries := ⟨[entryIn none id1 "100%41" .file], by decide⟩ }

end Sample

open Pcos.Sample Listing.Sample Sample

theorem saysItself_docs : SaysItself "docs" :=
  ⟨by decide, ⟨by simp [isXmlChar], by decide⟩, by decide, by decide⟩

theorem saysItself_a_b : SaysItself "a b" :=
  ⟨by decide, ⟨by simp [isXmlChar], by decide⟩, by decide, by decide⟩

theorem propfind_besideFile : ∃ body,
    propfind someDate bytewise inOrder besideFile alice "" = some body ∧
      Faithful besideFile alice none body := by
  have hchildren : liveChildren besideFile alice none = besideFile.entries.rows := by decide
  refine (propfind_iff someDate bytewise inOrder besideFile alice "" none (by decide)
    (by decide)).mpr ⟨.inl rfl, .inr ⟨rfl, fun r hr => ?_⟩⟩
  rw [hchildren] at hr
  rcases List.mem_cons.mp hr with rfl | hr
  · exact saysItself_docs
  · obtain rfl := List.mem_singleton.mp hr
    exact saysItself_a_b

/-- **An entry of another folder than the root is listed under a path that is not its own, and so is
one whose name has an escape; a name with markup is no XML.** -/
theorem propfind_fails : Fails someDate bytewise inOrder aroundFile alice "docs" (some id1) ∧
    Fails someDate bytewise inOrder markedName alice "" none ∧
    Fails someDate bytewise inOrder escapedName alice "" none := by
  refine ⟨fails_of_mem (r := entryIn (some id1) id2 "x" .file) (by decide) (by decide) (by decide)
      nofun, fails_of_mem (r := entryIn none id1 "a&b" .file) (by decide) (by decide) (by decide)
      fun _ h => ?_, fails_of_mem (r := entryIn none id1 "100%41" .file) (by decide) (by decide)
      (by decide) fun _ h => ?_⟩
  · exact (h.text.chars '&' (by decide)).2.2 rfl
  · exact absurd h.noEscape (by decide)

end Pcos.Propfind
