import Pcos.Backend.DavNamespace
import Pcos.Foundations.PercentCoding

/-!
# Backend/DavTransfers — what `MOVE` and `COPY` do to the paths (`webdav.rs`)

Both take the last segment of the `Destination` header, as it stands there, for the new name, and
the folder of the source for the new folder.  `MOVE` renames the row, and all that is below it moves
along.  `COPY` adds one row, without a hash, and for a folder nothing else.

So they do what they should when source and destination are in one folder and the header ends in the
name itself; for `COPY`, moreover, the source is a file without a hash or an empty folder.
-/

namespace Pcos

open Foundations

/-! ## Requests -/

/-- A `Destination` header that asks for the path `q`: what stands before the path, the encoded
names, and whether a slash follows them. -/
structure Destination (q : DavPath) where
  base : String
  pieces : List String
  slash : Bool
  plain : ∀ s ∈ pieces, '/' ∉ s.toList
  encodes : pieces.map (fun s => percentBytes s.toList) = q.names.map fun n => utf8 n.toList

/-- The header. -/
def Destination.text {q : DavPath} (d : Destination q) : String :=
  String.ofList (['/'].intercalate ((d.base :: d.pieces ++ if d.slash then [""] else []).map
    String.toList))

inductive Transfer
  | move
  | copy
  deriving DecidableEq

def transfer (c : Call) (p : DavPath) (destination : String) : Transfer → Handler ℕ
  | .move => webdavMove c p.raw (some destination)
  | .copy => webdavCopy c p.raw (some destination)

/-! ## What they should do -/

/-- The path `t` below `p`. -/
def DavPath.below (p t : DavPath) : DavPath where
  parent := p.names ++ t.parent
  name := t.name
  valid n hn := by
    rw [List.append_assoc] at hn
    rcases List.mem_append.mp hn with hn | hn
    · exact p.valid n hn
    · exact t.valid n hn

/-- `t` is `p` or below it. -/
def DavPath.Within (t p : DavPath) : Prop := p.names <+: t.names

/-- Type, size, hash and content. -/
def facts (e : FileEntry × Option Bytes) : EntryType × ℤ × Option String × Option Bytes :=
  (e.1.entryType, e.1.sizeBytes, e.1.sha256Hash, e.2)

/-- The entry at `p`, and all that is below it, has gone to `q`. -/
structure Moved (w w' : World) (user : Uuid) (p q : DavPath) (r : FileEntry) : Prop where
  target : ∃ r', resolvesTo w' user q = some (r', contentOf w r) ∧ r'.id = r.id ∧
    r'.entryType = r.entryType ∧ r'.sizeBytes = r.sizeBytes ∧ r'.sha256Hash = r.sha256Hash
  subtree : ∀ t, resolvesTo w' user (q.below t) = resolvesTo w user (p.below t)
  source : resolvesTo w' user p = none
  others : ∀ t, ¬ t.Within p → ¬ t.Within q → resolvesTo w' user t = resolvesTo w user t

/-- At `q` is what is at `p`, and likewise below; nothing else is different. -/
structure Copied (w w' : World) (user : Uuid) (p q : DavPath) : Prop where
  target : (resolvesTo w' user q).map facts = (resolvesTo w user p).map facts
  subtree : ∀ t, (resolvesTo w' user (q.below t)).map facts =
    (resolvesTo w user (p.below t)).map facts
  others : ∀ t, ¬ t.Within q → resolvesTo w' user t = resolvesTo w user t

def Transferred (w w' : World) (user : Uuid) (p q : DavPath) (r : FileEntry) : Transfer → Prop
  | .move => Moved w w' user p q r
  | .copy => Copied w w' user p q

/-- What a copy keeps: the source is a file without a hash, or an empty folder. -/
def Copyable (w : World) (user : Uuid) (p : DavPath) (r : FileEntry) : Prop :=
  r.sha256Hash = none ∧ match r.entryType with
    | .file => r.storagePath.isSome
    | .folder => r.sizeBytes = 0 ∧ ∀ t, entryAt w user (p.below t) = none

/-- `q` is in the folder of `p`, and the header ends in its name as it is. -/
def NamesSibling {q : DavPath} (p : DavPath) (d : Destination q) : Prop :=
  q.parent = p.parent ∧ d.slash = false ∧ d.pieces.getLast? = some q.name

def Transferable (w : World) (user : Uuid) {q : DavPath} (p : DavPath) (d : Destination q)
    (r : FileEntry) : Transfer → Prop
  | .move => NamesSibling p d
  | .copy => NamesSibling p d ∧ Copyable w user p r

/-! ## The header -/

theorem lastSegment_append (cs ds : List Char) :
    lastSegment (cs ++ '/' :: ds) = lastSegment ds := by
  have hne : ds.splitOn '/' ≠ [] := List.splitOn_ne_nil _ _
  rw [lastSegment, lastSegment, List.splitOn_append_cons_self, List.getLastD_eq_getLast?,
    List.getLastD_eq_getLast?, List.getLast?_append_of_ne_nil _ hne]

/-- What is joined ends in the last piece. -/
theorem lastSegment_intercalate (ls : List (List Char)) (l : List Char) (h : '/' ∉ l) :
    lastSegment (['/'].intercalate (ls ++ [l])) = String.ofList l := by
  induction ls with
  | nil =>
    rw [List.nil_append, List.intercalate_singleton, lastSegment, List.splitOn_eq_singleton h]
    rfl
  | cons l' ls ih =>
    obtain ⟨m, ms, hms⟩ := List.exists_cons_of_ne_nil (List.append_ne_nil_of_right_ne_nil ls
      (List.cons_ne_nil l []))
    rw [hms] at ih
    rw [List.cons_append, hms, List.intercalate_cons_cons, List.append_assoc, List.singleton_append,
      lastSegment_append, ih]

variable {p q : DavPath}

theorem Destination.exists_concat (d : Destination q) : ∃ l s, d.pieces = l ++ [s] := by
  rcases List.eq_nil_or_concat d.pieces with h | ⟨l, s, h⟩
  · have hlen := congrArg List.length d.encodes
    rw [h, DavPath.names] at hlen
    simp at hlen
  · exact ⟨l, s, h.trans List.concat_eq_append⟩

/-- **The name that the header asks for**: the last piece, or nothing after a slash. -/
theorem lastSegment_text (d : Destination q) : lastSegment d.text.toList = q.name ↔
    d.slash = false ∧ d.pieces.getLast? = some q.name := by
  obtain ⟨l, s, hpieces⟩ := d.exists_concat
  rw [Destination.text, String.toList_ofList]
  cases hslash : d.slash with
  | true =>
    rw [if_pos rfl, List.map_append, List.map_singleton]
    rw [lastSegment_intercalate _ _ (by decide)]
    refine ⟨fun h => absurd ?_ (q.valid q.name (by simp)).1, fun h => nomatch h.1⟩
    rw [← h]
    rfl
  | false =>
    rw [if_neg Bool.false_ne_true, List.append_nil, hpieces, ← List.cons_append, List.map_append,
      List.map_singleton, lastSegment_intercalate _ _ (d.plain s (by rw [hpieces]; simp)),
      String.ofList_toList, List.getLast?_append, List.getLast?_singleton]
    simp

/-! ## Rows by place and name -/

section Rows

variable {w w' : World} {user : Uuid} {folder : Option Uuid} {name m : String} {r x : FileEntry}
  {now : ℤ}

theorem eq_of_key (hr : r ∈ w.entries.rows) (hx : x ∈ w.entries.rows) (h : r.key = x.key) : r = x :=
  List.inj_on_of_nodup_map w.entries.valid.uq hr hx h

/-- **One live row has a name in a folder.** -/
theorem liveChild_iff : liveChild w user folder name = some r ↔ r ∈ w.entries.rows ∧
    r.userId = user ∧ r.name = name ∧ r.isTrashed = false ∧ r.parentId = folder := by
  refine ⟨liveChild_eq_some, fun ⟨hmem, huser, hname, hlive, hparent⟩ => ?_⟩
  cases hfound : liveChild w user folder name with
  | none =>
    refine absurd (List.find?_eq_none.mp hfound r hmem) ?_
    simp [huser, hname, hlive, hparent]
  | some x =>
    obtain ⟨hmem', huser', hname', hlive', hparent'⟩ := liveChild_eq_some hfound
    refine congrArg some (eq_of_key hmem' hmem ?_)
    rw [FileEntry.key, FileEntry.key, huser, hname, hlive, hparent, huser', hname', hlive',
      hparent']

/-- A folder is entered when the row of the name is one. -/
theorem enterFolder_eq (w : World) (user : Uuid) (folder : Option Uuid) (name : String) :
    enterFolder w user folder name =
      ((liveChild w user folder name).filter (·.entryType = .folder)).map fun f => some f.id := by
  rw [enterFolder]
  congr 1
  refine Option.ext fun f => ?_
  rw [Option.filter_eq_some_iff, decide_eq_true_eq, liveChild_iff]
  constructor
  · intro hf
    obtain ⟨hmem, huser, hname, htype, hlive, hparent⟩ := liveFolder_eq_some hf
    exact ⟨⟨hmem, huser, hname, hlive, hparent⟩, htype⟩
  · rintro ⟨⟨hmem, huser, hname, hlive, hparent⟩, htype⟩
    cases hfound : liveFolder w user folder name with
    | none =>
      refine absurd (List.find?_eq_none.mp hfound f hmem) ?_
      simp [huser, hname, hlive, hparent, htype]
    | some x =>
      obtain ⟨hmem', huser', hname', -, hlive', hparent'⟩ := liveFolder_eq_some hfound
      refine congrArg some (eq_of_key hmem' hmem ?_)
      rw [FileEntry.key, FileEntry.key, huser, hname, hlive, hparent, huser', hname', hlive',
        hparent']

/-- What `MOVE` makes of the row. -/
def FileEntry.renamed (r : FileEntry) (m : String) (now : ℤ) : FileEntry :=
  { r with name := m, updatedAt := now }

/-- The row `r` of the user has been given a new name. -/
structure Renames (w w' : World) (user : Uuid) (r : FileEntry) (m : String) (now : ℤ) : Prop where
  rows : w'.entries.rows = w.entries.rows.map fun x =>
    if (x.id = r.id && x.userId = user) = true then x.renamed m now else x
  mem : r ∈ w.entries.rows
  owner : r.userId = user
  live : r.isTrashed = false

namespace Renames

theorem mem_iff (h : Renames w w' user r m now) :
    x ∈ w'.entries.rows ↔ x = r.renamed m now ∨ x ∈ w.entries.rows ∧ x.id ≠ r.id := by
  rw [h.rows, List.mem_map]
  constructor
  · rintro ⟨y, hy, rfl⟩
    by_cases hid : y.id = r.id
    · obtain rfl := FileTable.eq_of_id hy h.mem hid
      exact .inl (if_pos (by simp [h.owner]))
    · rw [if_neg (by simp [hid])]
      exact .inr ⟨hy, hid⟩
  · rintro (rfl | ⟨hx, hid⟩)
    · exact ⟨r, h.mem, if_pos (by simp [h.owner])⟩
    · exact ⟨x, hx, if_neg (by simp [hid])⟩

theorem liveChild_new (h : Renames w w' user r m now) :
    liveChild w' user r.parentId m = some (r.renamed m now) :=
  liveChild_iff.mpr ⟨h.mem_iff.mpr (.inl rfl), h.owner, rfl, h.live, rfl⟩

theorem liveChild_old (h : Renames w w' user r m now) (hm : m ≠ r.name) :
    liveChild w' user r.parentId r.name = none := by
  refine Option.eq_none_iff_forall_ne_some.mpr fun x hx => ?_
  obtain ⟨hmem, huser, hname, hlive, hparent⟩ := liveChild_iff.mp hx
  rcases h.mem_iff.mp hmem with rfl | ⟨hmem, hid⟩
  · exact hm hname
  · refine hid (congrArg FileEntry.id (eq_of_key hmem h.mem ?_))
    rw [FileEntry.key, FileEntry.key, huser, hname, hlive, hparent, h.owner, h.live]

theorem liveChild_frame (h : Renames w w' user r m now)
    (hne : folder ≠ r.parentId ∨ name ≠ r.name ∧ name ≠ m) :
    liveChild w' user folder name = liveChild w user folder name := by
  refine Option.ext fun x => ?_
  rw [liveChild_iff, liveChild_iff, h.mem_iff]
  constructor
  · rintro ⟨rfl | ⟨hmem, -⟩, huser, hname, hlive, hparent⟩
    · exact absurd hne (by simp [← hparent, ← hname, FileEntry.renamed])
    · exact ⟨hmem, huser, hname, hlive, hparent⟩
  · rintro ⟨hmem, huser, hname, hlive, hparent⟩
    refine ⟨.inr ⟨hmem, fun hid => ?_⟩, huser, hname, hlive, hparent⟩
    obtain rfl := FileTable.eq_of_id hmem h.mem hid
    exact absurd hne (by simp [← hparent, ← hname])

/-- **To the folders, the row has a new name**, if it is another one. -/
theorem enterFolder_renamed (h : Renames w w' user r m now) (hm : m ≠ r.name) :
    Renamed (enterFolder w user) (enterFolder w' user) r.parentId r.name m where
  new := by
    have hold : liveChild w user r.parentId r.name = some r :=
      liveChild_iff.mpr ⟨h.mem, h.owner, rfl, h.live, rfl⟩
    rw [enterFolder_eq, enterFolder_eq, h.liveChild_new, hold]
    cases htype : r.entryType <;> simp [htype, Option.filter_some, FileEntry.renamed]
  old := by rw [enterFolder_eq, h.liveChild_old hm]; rfl
  frame y n hne := by rw [enterFolder_eq, enterFolder_eq, h.liveChild_frame hne]

/-- The folder of the row is where it was. -/
theorem folderAt_parent (h : Renames w w' user r m now) {ns : List String}
    (hns : folderAt w user ns = some r.parentId) : folderAt w' user ns = some r.parentId := by
  by_cases hm : m = r.name
  · have hrewrites : Rewrites w w' fun x =>
        if (x.id = r.id && x.userId = user) = true then { x with updatedAt := now } else x := by
      refine ⟨?_, ?_, ?_, ?_, ?_, ?_, ?_⟩
      · rw [h.rows]
        refine List.map_congr_left fun x hx => ?_
        by_cases hx' : (x.id = r.id && x.userId = user) = true
        · rw [if_pos hx', if_pos hx']
          rw [Bool.and_eq_true, decide_eq_true_eq, decide_eq_true_eq] at hx'
          obtain rfl := FileTable.eq_of_id hx h.mem hx'.1
          rw [FileEntry.renamed, hm]
        · rw [if_neg hx', if_neg hx']
      all_goals
        intro x
        split <;> rfl
    rw [hrewrites.folderAt]
    exact hns
  · exact (h.enterFolder_renamed hm).walk_parent (rooted_enterFolder w user) hns

end Renames

end Rows

/-! ## Moving -/

section Move

variable {w w' : World} {user : Uuid} {m : String} {r : FileEntry} {now : ℤ} {p q t : DavPath}

theorem folderAt_of_entryAt (hp : entryAt w user p = some r) :
    folderAt w user p.parent = some r.parentId := by
  obtain ⟨folder, hfolder, hchild⟩ := Option.bind_eq_some_iff.mp hp
  rw [hfolder, (liveChild_eq_some hchild).2.2.2.2]

/-- **An entry is found where its row is.** -/
theorem entryAt_iff : entryAt w user p = some r ↔ r ∈ w.entries.rows ∧ r.userId = user ∧
    r.name = p.name ∧ r.isTrashed = false ∧ folderAt w user p.parent = some r.parentId := by
  constructor
  · intro h
    obtain ⟨folder, -, hchild⟩ := Option.bind_eq_some_iff.mp h
    obtain ⟨hmem, huser, hname, hlive, -⟩ := liveChild_eq_some hchild
    exact ⟨hmem, huser, hname, hlive, folderAt_of_entryAt h⟩
  · rintro ⟨hmem, huser, hname, hlive, hfolder⟩
    rw [entryAt, hfolder, Option.bind_some]
    exact liveChild_iff.mpr ⟨hmem, huser, hname, hlive, rfl⟩

/-- What is below a path is in the folder that the path leads to. -/
theorem entryAt_below : entryAt w user (p.below t) =
    ((walk (enterFolder w user) none (p.parent ++ p.name :: t.parent)).bind fun folder =>
      liveChild w user folder t.name) := by
  have hparent : (p.below t).parent = p.parent ++ p.name :: t.parent := by
    change p.parent ++ [p.name] ++ t.parent = _
    rw [List.append_assoc, List.singleton_append]
  rw [entryAt, folderAt, hparent]
  rfl

/-- **Where the renamed row is found**: in its folder, under its new name. -/
theorem Renames.entryAt_renamed (h : Renames w w' user r m now) (hp : entryAt w user p = some r) :
    entryAt w' user q = some (r.renamed m now) ↔ q.parent = p.parent ∧ m = q.name := by
  have hparent' : Pcos.folderAt w' user p.parent = some r.parentId :=
    h.folderAt_parent (folderAt_of_entryAt hp)
  rw [entryAt_iff]
  constructor
  · rintro ⟨-, -, hname, -, hfolder⟩
    exact ⟨(rooted_enterFolder w' user).walk_inj hfolder hparent', hname⟩
  · rintro ⟨hparent, rfl⟩
    exact ⟨h.mem_iff.mpr (.inl rfl), h.owner, rfl, h.live, hparent ▸ hparent'⟩

theorem resolvesTo_eq_some {content : Option Bytes} : resolvesTo w user p = some (r, content) ↔
    entryAt w user p = some r ∧ contentOf w r = content := by
  rw [resolvesTo_eq, Option.map_eq_some_iff]
  constructor
  · rintro ⟨r', hr', heq⟩
    cases heq
    exact ⟨hr', rfl⟩
  · rintro ⟨hr, rfl⟩
    exact ⟨r, hr, rfl⟩

/-- **A row that is renamed to the last name of `q`, in the folder of `q`, has moved to `q`.** -/
theorem Renames.moved (h : Renames w w' user r m now) (hblobs : w'.blobs = w.blobs)
    (hp : entryAt w user p = some r) (hq : entryAt w user q = none) (hparent : q.parent = p.parent)
    (hm : m = q.name) : Moved w w' user p q r := by
  have hcontent : ∀ x, contentOf w' x = contentOf w x := fun x =>
    contentOf_congr fun path _ => congrFun hblobs path
  have hroot := rooted_enterFolder w user
  have hfolder := folderAt_of_entryAt hp
  have hname : r.name = p.name := (entryAt_iff.mp hp).2.2.1
  have hne : m ≠ r.name := by
    rintro rfl
    have hpq : q = p := DavPath.ext hparent (hm.symm.trans hname)
    rw [hpq, hp] at hq
    cases hq
  have hren := h.enterFolder_renamed hne
  have hold : p.names = p.parent ++ [r.name] := by rw [DavPath.names, hname]
  have hnew : q.names = p.parent ++ [m] := by rw [DavPath.names, hparent, hm]
  constructor
  · refine ⟨r.renamed m now, resolvesTo_eq_some.mpr ⟨?_, hcontent _⟩, rfl, rfl, rfl, rfl⟩
    exact (h.entryAt_renamed hp).mpr ⟨hparent, hm⟩
  · intro t
    refine resolvesTo_congr ?_ fun x _ => hcontent x
    rw [entryAt_below, entryAt_below, hparent, ← hm, ← hname, hren.walk_new hroot hfolder]
    refine Option.bind_congr fun folder hwalk => h.liveChild_frame (.inl fun heq => ?_)
    rw [heq] at hwalk
    have hlen := congrArg List.length (hroot.walk_inj hwalk hfolder)
    rw [List.length_append, List.length_cons] at hlen
    omega
  · rw [resolvesTo_eq, entryAt, h.folderAt_parent hfolder, Option.bind_some, ← hname,
      h.liveChild_old hne]
    rfl
  · intro t htp htq
    refine resolvesTo_congr ?_ fun x _ => hcontent x
    have hpre : ∀ n, p.parent ++ [n] <+: t.parent → p.parent ++ [n] <+: t.names := fun n hn =>
      hn.trans (List.prefix_append _ _)
    rw [DavPath.Within, hold] at htp
    rw [DavPath.Within, hnew] at htq
    rw [entryAt, entryAt, folderAt, folderAt, hren.walk_of_not_prefix hroot hfolder
      (fun hn => htp (hpre _ hn)) (fun hn => htq (hpre _ hn))]
    refine Option.bind_congr fun folder hwalk => h.liveChild_frame ?_
    refine or_iff_not_imp_left.mpr fun heq => ?_
    rw [not_not.mp heq] at hwalk
    have htparent := hroot.walk_inj hwalk hfolder
    refine ⟨fun hn => htp ?_, fun hn => htq ?_⟩
    · rw [DavPath.names, htparent, hn]
    · rw [DavPath.names, htparent, hn]

/-- **A rename moves to `q` exactly when it gives the row the last name of `q`, in the folder of
`q`.** -/
theorem Renames.moved_iff (h : Renames w w' user r m now) (hblobs : w'.blobs = w.blobs)
    (hp : entryAt w user p = some r) (hq : entryAt w user q = none) :
    Moved w w' user p q r ↔ q.parent = p.parent ∧ m = q.name := by
  refine ⟨fun hmoved => ?_, fun ⟨hparent, hm⟩ => h.moved hblobs hp hq hparent hm⟩
  obtain ⟨r', hr', hid, -⟩ := hmoved.target
  have hentry := (resolvesTo_eq_some.mp hr').1
  rw [← h.entryAt_renamed hp, hentry]
  rcases h.mem_iff.mp (entryAt_mem hentry) with rfl | ⟨-, hne⟩
  · rfl
  · exact absurd hid hne

end Move

/-! ## Copying -/

section Copy

variable {w w' : World} {user : Uuid} {m : String} {r x : FileEntry} {p q t : DavPath}

/-- Nothing is below what is not there, or is a file. -/
theorem entryAt_below_eq_none (h : ∀ f ∈ entryAt w user p, f.entryType = .file) :
    entryAt w user (p.below t) = none := by
  have hwalk : walk (enterFolder w user) none (p.parent ++ [p.name]) = none := by
    rw [walk_concat]
    refine Option.bind_eq_none_iff.mpr fun folder hfolder => ?_
    rw [enterFolder_eq, Option.map_eq_none_iff, Option.filter_eq_none_iff]
    intro f hf htype
    have hfile := h f (by rw [entryAt, folderAt, hfolder]; exact hf)
    rw [hfile] at htype
    cases of_decide_eq_true htype
  rw [entryAt_below, ← List.singleton_append, ← List.append_assoc, walk_append, hwalk]
  rfl

theorem below_ne (q t : DavPath) : q.below t ≠ q := by
  intro h
  have hlen := congrArg (fun s : DavPath => s.parent.length) h
  simp [DavPath.below, DavPath.names] at hlen

/-- Where the new row is found. -/
theorem Adds.entryAt_new (h : Adds w w' x)
    (hfolder : folderAt w x.userId p.parent = some x.parentId)
    (hq : entryAt w x.userId q = none) : entryAt w' x.userId q = some x ↔
      q.parent = p.parent ∧ x.name = q.name := by
  constructor
  · intro hx
    obtain ⟨-, -, hname, -, hfolder'⟩ := entryAt_iff.mp hx
    exact ⟨(rooted_enterFolder w' x.userId).walk_inj hfolder' (h.folderAt_mono hfolder), hname⟩
  · rintro ⟨hparent, hname⟩
    exact h.entryAt_self (hparent ▸ hfolder) hname hq

/-- …and nothing is found below it. -/
theorem Adds.entryAt_below_eq_none (h : Adds w w' x) (hq : entryAt w x.userId q = none)
    (hx : entryAt w' x.userId q = some x) : entryAt w' x.userId (q.below t) = none := by
  refine Option.eq_none_iff_forall_ne_some.mpr fun y hy => ?_
  rcases h.entryAt_or hy with hy' | rfl
  · have hnone : entryAt w x.userId (q.below t) = none :=
      Pcos.entryAt_below_eq_none fun f hf => by
        rw [hq] at hf
        cases hf
    rw [hnone] at hy'
    cases hy'
  · exact below_ne q t (entryAt_inj hy hx)

/-- **A row that is added at `q`** is a copy of the entry at `p` when it is like it and nothing is
below `p`. -/
theorem Adds.copied_iff (h : Adds w w' x) (hp : entryAt w x.userId p = some r)
    (hfolder : r.parentId = x.parentId) (hq : entryAt w x.userId q = none)
    (hcontent : ∀ y ∈ w.entries.rows, contentOf w' y = contentOf w y) :
    Copied w w' x.userId p q ↔ (q.parent = p.parent ∧ x.name = q.name) ∧
      facts (x, contentOf w' x) = facts (r, contentOf w r) ∧
      ∀ t, entryAt w x.userId (p.below t) = none := by
  have hparent : folderAt w x.userId p.parent = some x.parentId :=
    hfolder ▸ folderAt_of_entryAt hp
  have hsource : resolvesTo w x.userId p = some (r, contentOf w r) :=
    resolvesTo_eq_some.mpr ⟨hp, rfl⟩
  rw [← h.entryAt_new hparent hq]
  constructor
  · intro hcopied
    have htarget := hcopied.target
    rw [hsource, Option.map_some, Option.map_eq_some_iff] at htarget
    obtain ⟨⟨y, content⟩, hy, hfacts⟩ := htarget
    obtain ⟨hentry, rfl⟩ := resolvesTo_eq_some.mp hy
    obtain rfl : y = x := (h.entryAt_or hentry).resolve_left (by rw [hq]; exact nofun)
    refine ⟨hentry, hfacts, fun t => ?_⟩
    have hbelow := hcopied.subtree t
    rw [resolvesTo_eq, resolvesTo_eq, h.entryAt_below_eq_none hq hentry] at hbelow
    simpa using hbelow.symm
  · rintro ⟨hentry, hfacts, hbelow⟩
    refine ⟨?_, fun t => ?_, fun t ht => ?_⟩
    · rw [resolvesTo_eq_some.mpr ⟨hentry, rfl⟩, hsource, Option.map_some, Option.map_some, hfacts]
    · rw [resolvesTo_eq, resolvesTo_eq, h.entryAt_below_eq_none hq hentry, hbelow t]
      rfl
    · refine resolvesTo_congr (h.entryAt_of_ne hentry ?_) fun y hy => hcontent y (entryAt_mem hy)
      rintro rfl
      exact ht List.prefix_rfl

end Copy

/-! ## The requests -/

section Law

variable {env : Env} {w w' : World} {c : Call} {p q : DavPath} {r : FileEntry} {status : ℕ}

/-- What a successful `MOVE` has done. -/
theorem renames_of_move (destination : String) (hp : entryAt w c.user p = some r)
    (hok : webdavMove c p.raw (some destination) w = .ok status w') :
    Renames w w' c.user r (lastSegment destination.toList) c.now ∧ w'.blobs = w.blobs := by
  have hres : (resolvePath w c.user p.raw).2 = some r := resolvePath_snd.trans hp
  obtain ⟨hmem, huser, -, hlive, -⟩ := entryAt_iff.mp hp
  refine wp.of_eq (Q := fun _ w' => Renames w w' c.user r (lastSegment destination.toList) c.now ∧
    w'.blobs = w.blobs) (E := fun _ _ => True) ?_ hok
  simp only [webdavMove, destinationName, Option.map_some, wp_bind, wp_okOr, wp_get, hres,
    wp_updateEntries, wp_pure, Option.some.injEq, forall_eq', reduceCtorEq, false_implies, and_true]
  exact ⟨fun t ht => ⟨FileTable.rows_of_update ht, hmem, huser, hlive⟩, fun _ => trivial⟩

/-- The row that `COPY` adds. -/
def FileEntry.copied (r : FileEntry) (c : Call) (m : String) : FileEntry :=
  match r.entryType with
  | .folder => newFolder c r.parentId m
  | .file => copyRow c r.parentId m r

theorem FileEntry.copied_of_folder {m : String} (h : r.entryType = .folder) :
    r.copied c m = newFolder c r.parentId m := by
  rw [copied, h]

theorem FileEntry.copied_of_file {m : String} (h : r.entryType = .file) :
    r.copied c m = copyRow c r.parentId m r := by
  rw [copied, h]

theorem FileEntry.copied_place (r : FileEntry) (c : Call) (m : String) :
    (r.copied c m).userId = c.user ∧ (r.copied c m).parentId = r.parentId ∧
      (r.copied c m).name = m := by
  rw [copied]
  split <;> exact ⟨rfl, rfl, rfl⟩

/-- What a successful `COPY` has done. -/
theorem adds_of_copy (hs : Shaped w) (hcol : .isFavorite ∉ w.columns) (hnew : NewId w c)
    (destination : String) (hp : entryAt w c.user p = some r)
    (hok : webdavCopy c p.raw (some destination) w = .ok status w') :
    (r.entryType = .file ∧ r.storagePath = none ∧ w' = w) ∨
    ((r.entryType = .file → r.storagePath.isSome) ∧
      Adds w w' (r.copied c (lastSegment destination.toList)) ∧
      contentOf w' (r.copied c (lastSegment destination.toList)) = contentOf w r ∧
      ∀ y ∈ w.entries.rows, contentOf w' y = contentOf w y) := by
  have hfolder := folderAt_of_entryAt hp
  have hres : resolvePath w c.user p.raw = (r.parentId, some r) := by
    rw [resolvePath_of_folderAt hfolder, ← hp, entryAt, hfolder, Option.bind_some]
  refine wp.of_eq (Q := fun _ w' => (r.entryType = .file ∧ r.storagePath = none ∧ w' = w) ∨
    ((r.entryType = .file → r.storagePath.isSome) ∧
      Adds w w' (r.copied c (lastSegment destination.toList)) ∧
      contentOf w' (r.copied c (lastSegment destination.toList)) = contentOf w r ∧
      ∀ y ∈ w.entries.rows, contentOf w' y = contentOf w y)) (E := fun _ _ => True) ?_ hok
  simp only [webdavCopy, destinationName, Option.map_some, wp_bind, wp_okOr, wp_get, hres,
    Option.some.injEq, forall_eq', reduceCtorEq, false_implies, and_true]
  cases htype : r.entryType with
  | folder =>
    rw [FileEntry.copied_of_folder htype]
    simp only [wp_bind, wp_insertEntry, wp_pure]
    refine ⟨fun t _ ht => .inr ⟨?_, ?_, ?_, fun _ _ => rfl⟩, fun _ => trivial⟩
    · rintro ⟨⟩
    · exact adds_of_insert hfolder ht rfl rfl
    · rw [contentOf, contentOf, htype]
      rfl
  | file =>
    cases hpath : r.storagePath with
    | none =>
      simp only [wp_pure]
      exact .inl ⟨trivial, trivial, trivial⟩
    | some src =>
      rw [FileEntry.copied_of_file htype]
      simp only [wp_bind, wp_insertEntry, wp_pure, wp_okOr, wp_modify]
      refine ⟨fun data hdata => ⟨fun t _ ht => .inr ⟨fun _ => rfl, ?_, ?_, fun y hy => ?_⟩,
        fun _ => trivial⟩, fun _ => trivial⟩
      · exact adds_of_insert hfolder ht rfl rfl
      · rw [contentOf_putBlob rfl rfl, contentOf, htype, hpath]
        exact hdata.symm
      · exact contentOf_congr fun path hpath' =>
          if_neg (hs.ne_filePath hcol hy (hnew.rows y hy) path hpath')

theorem facts_copied {m : String} {content : Option Bytes} :
    facts (r.copied c m, content) = facts (r, content) ↔
      r.sha256Hash = none ∧ (r.entryType = .folder → r.sizeBytes = 0) := by
  cases htype : r.entryType <;>
    simp [facts, FileEntry.copied, htype, newFolder, copyRow, newFile, eq_comm, and_comm]

/-- **`MOVE` moves an entry exactly when the header asks for a name in its folder.** -/
theorem moved_iff (d : Destination q) (hp : entryAt w c.user p = some r)
    (hq : entryAt w c.user q = none)
    (hok : webdavMove c p.raw (some d.text) w = .ok status w') :
    Moved w w' c.user p q r ↔ NamesSibling p d := by
  obtain ⟨hrenames, hblobs⟩ := renames_of_move d.text hp hok
  rw [hrenames.moved_iff hblobs hp hq, lastSegment_text, NamesSibling]

/-- **…and `COPY` copies one when, moreover, it has no hash, and nothing is below it.** -/
theorem copied_iff (hs : Shaped w) (hcol : .isFavorite ∉ w.columns) (hnew : NewId w c)
    (d : Destination q) (hp : entryAt w c.user p = some r) (hq : entryAt w c.user q = none)
    (hok : webdavCopy c p.raw (some d.text) w = .ok status w') :
    Copied w w' c.user p q ↔ NamesSibling p d ∧ Copyable w c.user p r := by
  rcases adds_of_copy hs hcol hnew d.text hp hok with
    ⟨hfile, hpath, rfl⟩ | ⟨hpath, hadds, hcontent, hothers⟩
  · refine ⟨fun h => ?_, fun ⟨_, _, hcopy⟩ => ?_⟩
    · have htarget := h.target
      rw [resolvesTo_eq, hq, resolvesTo_eq_some.mpr ⟨hp, rfl⟩] at htarget
      cases htarget
    · rw [hfile, hpath] at hcopy
      cases hcopy
  · obtain ⟨huser, hparent, hname⟩ := r.copied_place c (lastSegment d.text.toList)
    rw [← huser] at hp hq ⊢
    rw [hadds.copied_iff hp hparent.symm hq hothers, hcontent, facts_copied, hname,
      lastSegment_text, NamesSibling, Copyable]
    refine and_congr_right' ?_
    cases htype : r.entryType with
    | file =>
      have hbelow : ∀ t, entryAt w (r.copied c (lastSegment d.text.toList)).userId (p.below t) =
          none := fun t => entryAt_below_eq_none fun f hf => by
        rw [hp] at hf
        exact Option.some.inj hf ▸ htype
      simp [hbelow, hpath htype]
    | folder => simp [and_assoc]

end Law

/-! ## Runs -/

/-- **Which transfers do what they should**, of those that succeed, on the tree that any requests of
any users have led to. -/
theorem transferred_iff (env : Env) (users : Uuid → Option ℤ) (es : List Event) (c : Call)
    (p q : DavPath) (d : Destination q) (op : Transfer) (r : FileEntry) (status : ℕ) (w' : World)
    (hnew : NewId (run (step env) (.empty migratedColumns users) es) c)
    (hp : entryAt (run (step env) (.empty migratedColumns users) es) c.user p = some r)
    (hq : entryAt (run (step env) (.empty migratedColumns users) es) c.user q = none)
    (hok : transfer c p d.text op (run (step env) (.empty migratedColumns users) es) =
      .ok status w') :
    Transferred (run (step env) (.empty migratedColumns users) es) w' c.user p q r op ↔
      Transferable (run (step env) (.empty migratedColumns users) es) c.user p d r op := by
  have hs := shaped_run env migratedColumns users es
  have hcol : .isFavorite ∉ (run (step env) (.empty migratedColumns users) es).columns := by
    rw [columns_run]
    exact (by decide : Column.isFavorite ∉ migratedColumns)
  cases op with
  | move => exact moved_iff d hp hq hok
  | copy => exact copied_iff hs hcol hnew d hp hq hok

namespace Sample

/-- Alice has a folder with a file in it. -/
def folderWithFile : List Event :=
  [sent alice 0 id1 (.createFolder none "A"),
    sent alice 1 id2 (.uploadFile (some id1) "x" "text/plain" [0x61])]

def folderTree : World := run (step env) start folderWithFile

def third : Call := ⟨alice, 2, id3, tmp, 0⟩

def fileInFolder : DavPath := ⟨["A"], "x", inFolder.valid⟩

def siblingPath : DavPath := ⟨["A"], "y", by decide⟩

def rootPath : DavPath := ⟨[], "x", by decide⟩

def spacedPath : DavPath := ⟨["A"], "y z", by decide⟩

def folderPath : DavPath := ⟨[], "A", folderItself.valid⟩

def otherFolder : DavPath := ⟨[], "B", by decide⟩

def toSibling : Destination siblingPath := ⟨"/webdav", ["A", "y"], false, by decide, by decide⟩

def toRoot : Destination rootPath := ⟨"/webdav", ["x"], false, by decide, by decide⟩

def toSpaced : Destination spacedPath := ⟨"/webdav", ["A", "y%20z"], false, by decide, by decide⟩

def toOther (slash : Bool) : Destination otherFolder :=
  ⟨"/webdav", ["B"], slash, by decide, by decide⟩

theorem newId_third : NewId folderTree third where
  rows := by decide
  file := by decide

end Sample

open Sample

theorem transferred_sibling : ∃ r w',
    transfer third fileInFolder toSibling.text .move folderTree = .ok 201 w' ∧
      Transferred folderTree w' alice fileInFolder siblingPath r .move :=
  ⟨_, _, rfl, (transferred_iff env Sample.users folderWithFile third fileInFolder siblingPath
    toSibling .move _ 201 _ newId_third rfl rfl rfl).mpr ⟨rfl, rfl, rfl⟩⟩

/-- The transfer succeeds, to a path that is free in a folder that is there, and does not do what it
should. -/
def GoesWrong (w : World) (c : Call) {q : DavPath} (p : DavPath) (d : Destination q)
    (op : Transfer) : Prop :=
  ∃ r w', entryAt w c.user p = some r ∧ entryAt w c.user q = none ∧
    (folderAt w c.user q.parent).isSome ∧ transfer c p d.text op w = .ok 201 w' ∧
      ¬ Transferred w w' c.user p q r op

section Wrong

variable {w w' : World} {c : Call} {p q : DavPath} {r : FileEntry} {d : Destination q}

theorem goesWrong_move (hp : entryAt w c.user p = some r) (hq : entryAt w c.user q = none)
    (hfolder : (folderAt w c.user q.parent).isSome)
    (hok : webdavMove c p.raw (some d.text) w = .ok 201 w') (h : ¬ NamesSibling p d) :
    GoesWrong w c p d .move :=
  ⟨r, w', hp, hq, hfolder, hok, fun hmoved => h ((moved_iff d hp hq hok).mp hmoved)⟩

theorem goesWrong_copy (hs : Shaped w) (hcol : .isFavorite ∉ w.columns) (hnew : NewId w c)
    (hp : entryAt w c.user p = some r) (hq : entryAt w c.user q = none)
    (hfolder : (folderAt w c.user q.parent).isSome)
    (hok : webdavCopy c p.raw (some d.text) w = .ok 201 w') (h : ¬ Copyable w c.user p r) :
    GoesWrong w c p d .copy :=
  ⟨r, w', hp, hq, hfolder, hok, fun hcopied =>
    h ((copied_iff hs hcol hnew d hp hq hok).mp hcopied).2⟩

end Wrong

/-- **A move to another folder renames in place, an encoded name stays encoded, a slash at the end
leaves no name, a copy has no hash, and that of a folder is empty.** -/
theorem goesWrong : GoesWrong folderTree third fileInFolder toRoot .move ∧
    GoesWrong folderTree third fileInFolder toSpaced .move ∧
    GoesWrong folderTree third folderPath (toOther true) .move ∧
    GoesWrong folderTree third fileInFolder toSibling .copy ∧
    GoesWrong folderTree third folderPath (toOther false) .copy := by
  have hs : Shaped folderTree := shaped_run env migratedColumns Sample.users _
  have hcol : .isFavorite ∉ folderTree.columns := by decide
  refine ⟨goesWrong_move rfl rfl rfl rfl fun h => ?_, goesWrong_move rfl rfl rfl rfl fun h => ?_,
    goesWrong_move rfl rfl rfl rfl fun h => ?_,
    goesWrong_copy hs hcol newId_third rfl rfl rfl rfl fun h => ?_,
    goesWrong_copy hs hcol newId_third rfl rfl rfl rfl fun h => ?_⟩
  · exact absurd h.1 (by decide)
  · exact absurd h.2.2 (by decide)
  · exact absurd h.2.1 (by decide)
  · exact absurd h.1 nofun
  · exact absurd (h.2.2 rootPath) (by decide)

end Pcos
