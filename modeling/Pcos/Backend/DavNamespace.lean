import Pcos.Backend.Blobs
import Pcos.Foundations.Directories

/-!
# Backend/DavNamespace — what WebDAV paths resolve to (`webdav.rs`)

`resolve_path` answers "no entry" both when the last name is missing and when a folder on the way
is; in the second case it gives the last folder it found as the parent.  `PUT` and `MKCOL` take that
for the folder to write to, and `PUT` overwrites what it finds without asking whether it is a file.

On paths whose folders are there and that do not name a folder, each request does to its own path
what it should, and nothing to any other.
-/

namespace Pcos

open Foundations

/-! ## Paths -/

/-- Nothing is trimmed if no segment is empty. -/
theorem trimSlashes_eq_self {cs : List Char} (h : [] ∉ cs.splitOn '/') : trimSlashes cs = cs := by
  have hdrop : ∀ ds : List Char, [] ∉ ds.splitOn '/' → ds.dropWhile (· = '/') = ds := by
    intro ds hds
    cases ds with
    | nil => rfl
    | cons d ds =>
      refine List.dropWhile_cons_of_neg fun hd => hds ?_
      obtain rfl : d = '/' := of_decide_eq_true hd
      have hsplit := List.splitOn_append_cons_self (a := '/') [] ds
      rw [List.nil_append, List.splitOn_nil] at hsplit
      rw [hsplit]
      exact List.mem_cons_self
  have hreverse : cs.reverse.dropWhile (· = '/') = cs.reverse := by
    rcases List.eq_nil_or_concat cs with rfl | ⟨ds, d, rfl⟩
    · rfl
    · rw [List.concat_eq_append] at h ⊢
      rw [List.reverse_append, List.reverse_singleton, List.singleton_append]
      refine List.dropWhile_cons_of_neg fun hd => h ?_
      obtain rfl : d = '/' := of_decide_eq_true hd
      rw [List.splitOn_append_cons_self, List.splitOn_nil]
      exact List.mem_append_right _ (List.mem_singleton_self _)
  rw [trimSlashes, hdrop cs h, hreverse, List.reverse_reverse]

/-- A path: names that are not empty and have no slash, the last one apart. -/
@[ext] structure DavPath where
  parent : List String
  name : String
  valid : ∀ n ∈ parent ++ [name], n.toList ≠ [] ∧ '/' ∉ n.toList

namespace DavPath

variable (p : DavPath)

def names : List String := p.parent ++ [p.name]

/-- The path as a request has it. -/
def raw : String := String.ofList (['/'].intercalate (p.names.map String.toList))

theorem splitOn_raw : p.raw.toList.splitOn '/' = p.names.map String.toList := by
  rw [raw, String.toList_ofList]
  refine List.splitOn_intercalate '/' (fun cs hcs => ?_) (by simp [names])
  obtain ⟨n, hn, rfl⟩ := List.mem_map.mp hcs
  exact (p.valid n hn).2

theorem trimSlashes_raw : trimSlashes p.raw.toList = p.raw.toList := by
  refine trimSlashes_eq_self fun h => ?_
  rw [splitOn_raw] at h
  obtain ⟨n, hn, hnil⟩ := List.mem_map.mp h
  exact (p.valid n hn).1 hnil

/-- `resolve_path` takes the path apart into its names. -/
@[simp] theorem segments_raw : segments p.raw = p.names := by
  rw [segments, trimSlashes_raw, splitOn_raw, List.filter_eq_self.mpr, List.map_map]
  · exact (List.map_congr_left fun n _ => String.ofList_toList).trans (List.map_id _)
  · intro cs hcs
    obtain ⟨n, hn, rfl⟩ := List.mem_map.mp hcs
    exact decide_eq_true (p.valid n hn).1

/-- …and a new entry gets the last of them. -/
@[simp] theorem entryName_raw : entryName p.raw = p.name := by
  rw [entryName, trimSlashes_raw, lastSegment, splitOn_raw, names, List.map_append,
    List.map_singleton, List.getLastD_concat, String.ofList_toList]

end DavPath

/-! ## Folders on the way -/

/-- The live folder that a name leads to. -/
def enterFolder (w : World) (user : Uuid) (parent : Option Uuid) (name : String) :
    Option (Option Uuid) :=
  (liveFolder w user parent name).map fun f => some f.id

/-- The folder that these names lead to from the root, if all of them are there. -/
def folderAt (w : World) (user : Uuid) (names : List String) : Option (Option Uuid) :=
  walk (enterFolder w user) none names

/-- The entry that a path names. -/
def entryAt (w : World) (user : Uuid) (p : DavPath) : Option FileEntry :=
  (folderAt w user p.parent).bind fun parent => liveChild w user parent p.name

section Resolve

variable {w : World} {user : Uuid} {p q : DavPath} {parent : Option Uuid} {name : String}
  {r : FileEntry}

theorem liveFolder_eq_some : liveFolder w user parent name = some r → r ∈ w.entries.rows ∧
    r.userId = user ∧ r.name = name ∧ r.entryType = .folder ∧ r.isTrashed = false ∧
      r.parentId = parent := by
  intro h
  have hr := List.find?_some h
  simp only [Bool.and_eq_true, decide_eq_true_eq, Bool.not_eq_true'] at hr
  obtain ⟨⟨⟨⟨h1, h2⟩, h3⟩, h4⟩, h5⟩ := hr
  exact ⟨List.mem_of_find?_eq_some h, h1, h2, h3, h4, h5⟩

theorem liveChild_eq_some : liveChild w user parent name = some r → r ∈ w.entries.rows ∧
    r.userId = user ∧ r.name = name ∧ r.isTrashed = false ∧ r.parentId = parent := by
  intro h
  have hr := List.find?_some h
  simp only [Bool.and_eq_true, decide_eq_true_eq, Bool.not_eq_true'] at hr
  obtain ⟨⟨⟨h1, h2⟩, h3⟩, h4⟩ := hr
  exact ⟨List.mem_of_find?_eq_some h, h1, h2, h3, h4⟩

/-- A folder is entered from its parent by its name. -/
theorem rooted_enterFolder (w : World) (user : Uuid) : Rooted (enterFolder w user) none where
  inj x m x' m' y h h' := by
    obtain ⟨f, hf, rfl⟩ := Option.map_eq_some_iff.mp h
    obtain ⟨f', hf', hid⟩ := Option.map_eq_some_iff.mp h'
    obtain ⟨hmem, -, hname, -, -, hparent⟩ := liveFolder_eq_some hf
    obtain ⟨hmem', -, hname', -, -, hparent'⟩ := liveFolder_eq_some hf'
    rw [FileTable.eq_of_id hmem' hmem (Option.some.inj hid)] at hname' hparent'
    exact ⟨hparent.symm.trans hparent', hname.symm.trans hname'⟩
  root x m h := by
    obtain ⟨f, -, hf⟩ := Option.map_eq_some_iff.mp h
    cases hf

/-- **`resolve_path` finds the entry in the folder the path names**, if the folder is there, and
otherwise nothing. -/
theorem resolveSegments_concat (ns : List String) :
    (∀ folder, walk (enterFolder w user) parent ns = some folder →
      resolveSegments w user parent (ns ++ [name]) = (folder, liveChild w user folder name)) ∧
    (walk (enterFolder w user) parent ns = none →
      (resolveSegments w user parent (ns ++ [name])).2 = none) := by
  induction ns generalizing parent with
  | nil =>
    refine ⟨fun folder h => ?_, fun h => nomatch h⟩
    rw [← Option.some.inj h]
    rfl
  | cons n ns ih =>
    have hne : ns ++ [name] ≠ [] := by simp
    cases hfolder : liveFolder w user parent n with
    | some f =>
      have hstep : resolveSegments w user parent (n :: (ns ++ [name])) =
          resolveSegments w user (some f.id) (ns ++ [name]) := by
        rw [resolveSegments, hfolder]
        exact hne
      have hwalk : walk (enterFolder w user) parent (n :: ns) =
          walk (enterFolder w user) (some f.id) ns := by
        rw [walk, enterFolder, hfolder]
        rfl
      rw [List.cons_append, hstep, hwalk]
      exact ih
    | none =>
      have hstep : resolveSegments w user parent (n :: (ns ++ [name])) = (parent, none) := by
        rw [resolveSegments, hfolder]
        exact hne
      have hwalk : walk (enterFolder w user) parent (n :: ns) = none := by
        rw [walk, enterFolder, hfolder]
        rfl
      rw [List.cons_append, hstep, hwalk]
      exact ⟨fun folder h => (by cases h), fun _ => rfl⟩

theorem resolvePath_of_folderAt {folder : Option Uuid} (h : folderAt w user p.parent = some folder) :
    resolvePath w user p.raw = (folder, liveChild w user folder p.name) := by
  rw [resolvePath, DavPath.segments_raw]
  exact (resolveSegments_concat p.parent).1 folder h

theorem resolvePath_snd : (resolvePath w user p.raw).2 = entryAt w user p := by
  cases h : folderAt w user p.parent with
  | some folder => rw [resolvePath_of_folderAt h, entryAt, h, Option.bind_some]
  | none =>
    rw [entryAt, h, resolvePath, DavPath.segments_raw]
    exact (resolveSegments_concat p.parent).2 h

/-- **No two paths name one entry.** -/
theorem entryAt_inj (hp : entryAt w user p = some r) (hq : entryAt w user q = some r) : p = q := by
  obtain ⟨x, hx, hpx⟩ := Option.bind_eq_some_iff.mp hp
  obtain ⟨y, hy, hqy⟩ := Option.bind_eq_some_iff.mp hq
  obtain ⟨-, -, hpname, -, hpparent⟩ := liveChild_eq_some hpx
  obtain ⟨-, -, hqname, -, hqparent⟩ := liveChild_eq_some hqy
  rw [← hpparent] at hx
  rw [← hqparent] at hy
  exact DavPath.ext ((rooted_enterFolder w user).walk_inj hx hy) (hpname.symm.trans hqname)

end Resolve

/-! ## Requests -/

inductive DavRequest
  | put (contentType : Option String) (data : Bytes)
  | mkcol

/-- The request to a path, with the status it is answered with. -/
def dav (env : Env) (c : Call) (p : DavPath) : DavRequest → Handler ℕ
  | .put contentType data => do
    let response ← webdavPut env c p.raw contentType data
    pure response.status
  | .mkcol => mkcol c p.raw

/-- What a path resolves to: the entry, and its content. -/
def resolvesTo (w : World) (user : Uuid) (p : DavPath) : Option (FileEntry × Option Bytes) :=
  (resolvePath w user p.raw).2.map fun r => (r, contentOf w r)

/-- The path resolves to an entry in the folder named by its parent: a file with this content after a
`PUT`, a folder after a `MKCOL`. -/
def Done (w : World) (user : Uuid) (p : DavPath) (req : DavRequest) : Prop :=
  ∃ folder r, folderAt w user p.parent = some folder ∧ resolvePath w user p.raw = (folder, some r) ∧
    r.parentId = folder ∧
    match req with
    | .put _ data => r.entryType = .file ∧ contentOf w r = some data
    | .mkcol => r.entryType = .folder

/-- A request that succeeds does what it should to its path; without the parent folder it changes
nothing; and it changes what no other path resolves to. -/
structure Lawful (env : Env) (w : World) (c : Call) (p : DavPath) (req : DavRequest) : Prop where
  done : wp (dav env c p req) (fun status w' => status < 300 → Done w' c.user p req)
    (fun _ _ => True) w
  absent : folderAt w c.user p.parent = none → leaves (dav env c p req) w = w
  others : ∀ q, q ≠ p → resolvesTo (leaves (dav env c p req) w) c.user q = resolvesTo w c.user q

/-- The parent folder is there, and a `PUT` does not find a folder (unless its row is refused for the
media type); or the request is refused before it has written anything. -/
def Behaves (env : Env) (w : World) (c : Call) (p : DavPath) : DavRequest → Prop
  | .put contentType data => maxBody < data.length ∨
      (folderAt w c.user p.parent).isSome ∧ ∀ r ∈ entryAt w c.user p,
        r.entryType = .file ∨ mimeTooLong (putMime env contentType p.name) = true
  | .mkcol => (folderAt w c.user p.parent).isSome ∨
      ¬ w.Accepts folderColumns (newFolder c (resolvePath w c.user p.raw).1 p.name)

section Outcomes

variable {env : Env} {w : World} {c : Call} {p : DavPath} {contentType : Option String} {data : Bytes}

/-- What a `PUT` comes to. -/
theorem wp_put {Q : ℕ → World → Prop} {E : World → Prop} :
    wp (dav env c p (.put contentType data)) Q (fun _ => E) w ↔
      (maxBody < data.length → E w) ∧ (data.length ≤ maxBody →
        match resolvePath w c.user p.raw with
        | (parent, none) =>
          let r := putRow env c parent p.name (putMime env contentType p.name) data
          (∀ t, w.Accepts fileColumns r → w.entries.insert r = some t →
            Q 201 { w.putBlob (filePath c.user c.newId) data with entries := t }) ∧
          (¬ w.Accepts fileColumns r → E (w.putBlob (filePath c.user c.newId) data))
        | (_, some r) =>
          (∀ t, w.entries.update (fun r' => r'.id = r.id && r'.userId = c.user)
              (overwritten env c r.target (putMime env contentType p.name) data) = some t →
            Q 204 { w.putBlob r.target data with entries := t }) ∧
          (w.entries.update (fun r' => r'.id = r.id && r'.userId = c.user)
              (overwritten env c r.target (putMime env contentType p.name) data) = none →
            E (w.putBlob r.target data))) := by
  simp only [dav, webdavPut, wp_bind, wp_get, DavPath.entryName_raw]
  rcases resolvePath w c.user p.raw with ⟨parent, existing⟩
  simp only [wp_ensure, decide_eq_true_eq, decide_eq_false_iff_not, Nat.not_le]
  rw [and_comm]
  refine and_congr_right' (imp_congr_right fun _ => ?_)
  cases existing with
  | none => simp only [createEntry, wp_bind, wp_modify, wp_insertEntry, wp_pure]; rfl
  | some r => simp only [overwriteEntry, wp_bind, wp_modify, wp_updateEntries, wp_pure]; rfl

/-- What a `MKCOL` comes to. -/
theorem wp_mkcol {Q : ℕ → World → Prop} {E : World → Prop} :
    wp (dav env c p .mkcol) Q (fun _ => E) w ↔
      match resolvePath w c.user p.raw with
      | (parent, none) =>
        let r := newFolder c parent p.name
        (∀ t, w.Accepts folderColumns r → w.entries.insert r = some t →
          Q 201 { w with entries := t }) ∧ (¬ w.Accepts folderColumns r → E w)
      | (_, some _) => Q 405 w := by
  simp only [dav, mkcol, wp_bind, wp_get, DavPath.entryName_raw]
  rcases resolvePath w c.user p.raw with ⟨parent, existing⟩
  cases existing with
  | none => simp only [wp_bind, wp_insertEntry, wp_pure]
  | some r => rfl

end Outcomes

/-! ## What a new row does to the paths -/

/-- One more live row, under a new id and an old parent. -/
structure Adds (w w' : World) (x : FileEntry) : Prop where
  rows : w'.entries.rows = w.entries.rows ++ [x]
  fresh : ∀ r ∈ w.entries.rows, r.id ≠ x.id
  parent : ∀ y ∈ x.parentId, ∃ r ∈ w.entries.rows, r.id = y
  live : x.isTrashed = false

namespace Adds

variable {w w' : World} {x r : FileEntry} {p q : DavPath} {folder : Option Uuid} {name : String}

theorem liveChild (h : Adds w w' x) (user : Uuid) : liveChild w' user folder name =
    (liveChild w user folder name).or
      (if x.userId = user ∧ x.name = name ∧ x.parentId = folder then some x else none) := by
  rw [Pcos.liveChild, Pcos.liveChild, h.rows, List.find?_append, List.find?_singleton]
  simp [h.live, and_assoc]

theorem liveFolder (h : Adds w w' x) (user : Uuid) : liveFolder w' user folder name =
    (liveFolder w user folder name).or
      (if x.userId = user ∧ x.name = name ∧ x.entryType = .folder ∧ x.parentId = folder then some x
        else none) := by
  rw [Pcos.liveFolder, Pcos.liveFolder, h.rows, List.find?_append, List.find?_singleton]
  simp [h.live, and_assoc]

/-- Nothing is below the new row. -/
theorem parentId_ne (h : Adds w w' x) (hr : r ∈ w'.entries.rows) : r.parentId ≠ some x.id := by
  intro hp
  rw [h.rows, List.mem_append, List.mem_singleton] at hr
  rcases hr with hr | rfl
  · obtain ⟨r', hr', hid⟩ := List.mem_map.mp (w.entries.valid.fk r hr x.id hp)
    exact h.fresh r' hr' hid
  · obtain ⟨r', hr', hid⟩ := h.parent _ hp
    exact h.fresh r' hr' hid

/-- Folders stay where they are. -/
theorem folderAt_mono (h : Adds w w' x) {user : Uuid} {ns : List String}
    (hw : folderAt w user ns = some folder) : folderAt w' user ns = some folder := by
  refine walk_mono (fun y n z hz => ?_) hw
  obtain ⟨f, hf, rfl⟩ := Option.map_eq_some_iff.mp hz
  rw [enterFolder, h.liveFolder, hf]
  rfl

theorem folderAt_or (h : Adds w w' x) {user : Uuid} {ns : List String}
    (hw : folderAt w' user ns = some folder) :
    folderAt w user ns = some folder ∨ folder = some x.id := by
  refine walk_extend (fun y n z hz => ?_) (fun n => ?_) hw
  · obtain ⟨f, hf, rfl⟩ := Option.map_eq_some_iff.mp hz
    rw [h.liveFolder, Option.or_eq_some_iff] at hf
    rcases hf with hf | ⟨-, hf⟩
    · exact Or.inl (Option.map_eq_some_iff.mpr ⟨f, hf, rfl⟩)
    · split at hf
      · exact Or.inr (by rw [Option.some.inj hf])
      · cases hf
  · rw [enterFolder, Option.map_eq_none_iff]
    cases hf : Pcos.liveFolder w' user (some x.id) n with
    | none => rfl
    | some f =>
      obtain ⟨hmem, -, -, -, -, hparent⟩ := liveFolder_eq_some hf
      exact absurd hparent (h.parentId_ne hmem)

theorem entryAt_mono (h : Adds w w' x) {user : Uuid} (hr : entryAt w user q = some r) :
    entryAt w' user q = some r := by
  obtain ⟨y, hy, hchild⟩ := Option.bind_eq_some_iff.mp hr
  rw [entryAt, h.folderAt_mono hy, Option.bind_some, h.liveChild, hchild]
  rfl

/-- **A path names what it named, or the new row.** -/
theorem entryAt_or (h : Adds w w' x) {user : Uuid} (hr : entryAt w' user q = some r) :
    entryAt w user q = some r ∨ r = x := by
  obtain ⟨y, hy, hchild⟩ := Option.bind_eq_some_iff.mp hr
  rcases h.folderAt_or hy with hy | rfl
  · rw [h.liveChild, Option.or_eq_some_iff] at hchild
    rcases hchild with hchild | ⟨-, hchild⟩
    · exact Or.inl (by rw [entryAt, hy]; exact hchild)
    · split at hchild
      · exact Or.inr (Option.some.inj hchild).symm
      · cases hchild
  · obtain ⟨hmem, -, -, -, hparent⟩ := liveChild_eq_some hchild
    exact absurd hparent (h.parentId_ne hmem)

/-- The path of the new row. -/
theorem entryAt_self (h : Adds w w' x) (hfolder : folderAt w x.userId p.parent = some x.parentId)
    (hname : x.name = p.name) (hnone : entryAt w x.userId p = none) :
    entryAt w' x.userId p = some x := by
  rw [entryAt, hfolder, Option.bind_some] at hnone
  rw [entryAt, h.folderAt_mono hfolder, Option.bind_some, h.liveChild, hnone]
  simp [hname]

/-- …and every other path names what it named. -/
theorem entryAt_of_ne (h : Adds w w' x) (hp : entryAt w' x.userId p = some x) (hq : q ≠ p) :
    entryAt w' x.userId q = entryAt w x.userId q := by
  refine Option.ext fun r => ⟨fun hr => ?_, h.entryAt_mono⟩
  rcases h.entryAt_or hr with hr' | rfl
  · exact hr'
  · exact absurd (entryAt_inj hr hp) hq

end Adds

/-! ## What an overwritten row does to them -/

/-- Rows are rewritten without a change to where they are found. -/
structure Rewrites (w w' : World) (g : FileEntry → FileEntry) : Prop where
  rows : w'.entries.rows = w.entries.rows.map g
  id : ∀ r, (g r).id = r.id
  userId : ∀ r, (g r).userId = r.userId
  parentId : ∀ r, (g r).parentId = r.parentId
  name : ∀ r, (g r).name = r.name
  entryType : ∀ r, (g r).entryType = r.entryType
  isTrashed : ∀ r, (g r).isTrashed = r.isTrashed

namespace Rewrites

variable {w w' : World} {g : FileEntry → FileEntry} {user : Uuid}

theorem liveChild (h : Rewrites w w' g) (folder : Option Uuid) (name : String) :
    liveChild w' user folder name = (liveChild w user folder name).map g := by
  rw [Pcos.liveChild, Pcos.liveChild, h.rows, List.find?_map]
  simp only [Function.comp_def, h.userId, h.name, h.isTrashed, h.parentId]

theorem folderAt (h : Rewrites w w' g) : folderAt w' user = folderAt w user := by
  have henter : enterFolder w' user = enterFolder w user := by
    funext folder name
    rw [enterFolder, enterFolder, Pcos.liveFolder, Pcos.liveFolder, h.rows, List.find?_map,
      Option.map_map]
    simp only [Function.comp_def, h.userId, h.name, h.isTrashed, h.parentId, h.entryType, h.id]
  unfold Pcos.folderAt
  rw [henter]

/-- **A path names the row it named, as it is now.** -/
theorem entryAt (h : Rewrites w w' g) (q : DavPath) :
    entryAt w' user q = (entryAt w user q).map g := by
  rw [Pcos.entryAt, Pcos.entryAt, h.folderAt, Option.map_bind]
  exact congrArg _ (funext fun folder => h.liveChild folder q.name)

end Rewrites

/-! ## Contents -/

section Contents

variable {w w' : World} {user : Uuid} {q : DavPath} {r : FileEntry}

theorem resolvesTo_eq : resolvesTo w user q = (entryAt w user q).map fun r => (r, contentOf w r) := by
  rw [resolvesTo, resolvePath_snd]

theorem entryAt_mem (h : entryAt w user q = some r) : r ∈ w.entries.rows := by
  obtain ⟨folder, -, hchild⟩ := Option.bind_eq_some_iff.mp h
  exact (liveChild_eq_some hchild).1

theorem resolvesTo_congr {p : DavPath} (hentry : entryAt w' user q = entryAt w user p)
    (hcontent : ∀ r, entryAt w user p = some r → contentOf w' r = contentOf w r) :
    resolvesTo w' user q = resolvesTo w user p := by
  rw [resolvesTo_eq, resolvesTo_eq, hentry]
  cases hr : entryAt w user p with
  | none => rfl
  | some r => rw [Option.map_some, Option.map_some, hcontent r hr]

/-- A content stays while no file is written under its path. -/
theorem contentOf_congr (h : ∀ path ∈ r.storagePath, w'.blobs path = w.blobs path) :
    contentOf w' r = contentOf w r := by
  unfold contentOf
  cases r.entryType with
  | folder => rfl
  | file =>
    cases hp : r.storagePath with
    | none => rfl
    | some path => exact h path hp

/-- A file has the content that is written under its path. -/
theorem contentOf_putBlob {path : String} {data : Bytes} {t : FileTable} (hfile : r.entryType = .file)
    (hpath : r.storagePath = some path) :
    contentOf { w.putBlob path data with entries := t } r = some data := by
  rw [contentOf, hfile, hpath]
  exact if_pos rfl

/-- What a new file is written under is no row's path. -/
theorem Shaped.ne_filePath (h : Shaped w) (hcol : .isFavorite ∉ w.columns)
    (hr : r ∈ w.entries.rows) {newId : Uuid} (hid : r.id ≠ newId) :
    ∀ path ∈ r.storagePath, path ≠ filePath user newId := by
  rintro path hp rfl
  rcases (h.paths r hr _ hp).resolve_right fun hp => hcol hp.2 with hown | hown
  · exact hid (filePath_inj hown).2.symm
  · exact filePath_ne_flatPath hown

end Contents

/-! ## Which requests are lawful -/

section Law

variable {env : Env} {w : World} {c : Call} {p : DavPath} {folder : Option Uuid}
  {contentType : Option String} {data : Bytes}

/-- The id is in use nowhere: no row has it, and no file is stored under it. -/
structure NewId (w : World) (c : Call) : Prop where
  rows : ∀ r ∈ w.entries.rows, r.id ≠ c.newId
  file : w.blobs (filePath c.user c.newId) = none

theorem adds_of_insert {w' : World} {x : FileEntry} (hfolder : folderAt w c.user p.parent = some folder)
    (ht : w.entries.insert x = some w'.entries) (hparent : x.parentId = folder)
    (hlive : x.isTrashed = false) : Adds w w' x where
  rows := FileTable.rows_of_insert ht
  fresh r hr := FileTable.id_notMem_of_insert ht hr
  parent y hy := by
    have hfst : (resolvePath w c.user p.raw).1 = some y := by
      rw [resolvePath_of_folderAt hfolder, ← hparent]
      exact hy
    obtain ⟨f, hf, hid, -⟩ := resolvePath_parent hfst
    exact ⟨f, hf, hid⟩
  live := hlive

/-- **A row that is added at its path** is what the path resolves to, and no other path resolves to
anything else. -/
theorem done_of_insert (w' : World) {x : FileEntry}
    (hfolder : folderAt w c.user p.parent = some folder) (hnone : entryAt w c.user p = none)
    (ht : w.entries.insert x = some w'.entries) (huser : x.userId = c.user)
    (hparent : x.parentId = folder) (hname : x.name = p.name) (hlive : x.isTrashed = false)
    (hcontent : ∀ r ∈ w.entries.rows, contentOf w' r = contentOf w r) :
    (folderAt w' c.user p.parent = some folder ∧ resolvePath w' c.user p.raw = (folder, some x)) ∧
      ∀ q, q ≠ p → resolvesTo w' c.user q = resolvesTo w c.user q := by
  have h := adds_of_insert hfolder ht hparent hlive
  subst hparent
  rw [← huser] at hfolder hnone ⊢
  have hself := h.entryAt_self hfolder hname hnone
  refine ⟨⟨h.folderAt_mono hfolder, ?_⟩, fun q hq => ?_⟩
  · have hchild := hself
    rw [entryAt, h.folderAt_mono hfolder, Option.bind_some] at hchild
    rw [resolvePath_of_folderAt (h.folderAt_mono hfolder), hchild]
  · exact resolvesTo_congr (h.entryAt_of_ne hself hq) fun r hr => hcontent r (entryAt_mem hr)

/-- What an overwriting `PUT` does to the rows. -/
theorem rewrites_of_update (w' : World) {r : FileEntry} {mime : Option String}
    (ht : w.entries.update (fun r' => r'.id = r.id && r'.userId = c.user)
      (overwritten env c r.target mime data) = some w'.entries) :
    Rewrites w w' fun r' => if (r'.id = r.id && r'.userId = c.user) = true then
      overwritten env c r.target mime data r' else r' := by
  refine ⟨FileTable.rows_of_update ht, ?_, ?_, ?_, ?_, ?_, ?_⟩ <;> intro r' <;> split <;> rfl

/-- A row that was rewritten fits. -/
theorem not_mimeTooLong_of_update {t : FileTable} {r : FileEntry} {mime : Option String}
    (hr : r ∈ w.entries.rows) (huser : r.userId = c.user)
    (ht : w.entries.update (fun r' => r'.id = r.id && r'.userId = c.user)
      (overwritten env c r.target mime data) = some t) : mimeTooLong mime = false := by
  have hmem : overwritten env c r.target mime data r ∈ t.rows :=
    (FileTable.mem_update ht).mpr ⟨r, hr, if_pos (by simp [huser])⟩
  cases mime with
  | none => rfl
  | some m =>
    refine decide_eq_false (Nat.not_lt.mpr ?_)
    exact (t.valid.fits _ hmem).2.1 m rfl

/-- **An overwritten row** is found where it was, and no other path resolves to anything else. -/
theorem done_of_update (hs : Shaped w) (hcol : .isFavorite ∉ w.columns) {t : FileTable}
    {r : FileEntry} {mime : Option String} (hfolder : folderAt w c.user p.parent = some folder)
    (hr : entryAt w c.user p = some r)
    (ht : w.entries.update (fun r' => r'.id = r.id && r'.userId = c.user)
      (overwritten env c r.target mime data) = some t) :
    (folderAt { w.putBlob r.target data with entries := t } c.user p.parent = some folder ∧
      resolvePath { w.putBlob r.target data with entries := t } c.user p.raw =
        (folder, some (overwritten env c r.target mime data r)) ∧ r.parentId = folder) ∧
      ∀ q, q ≠ p → resolvesTo { w.putBlob r.target data with entries := t } c.user q =
        resolvesTo w c.user q := by
  set w' : World := { w.putBlob r.target data with entries := t } with hw'
  have h : Rewrites w w' _ := rewrites_of_update w' ht
  have hchild : liveChild w c.user folder p.name = some r := by
    rw [entryAt, hfolder, Option.bind_some] at hr
    exact hr
  obtain ⟨hmem, huser, -, -, hparent⟩ := liveChild_eq_some hchild
  have hfolder' : folderAt w' c.user p.parent = some folder := by rw [h.folderAt]; exact hfolder
  refine ⟨⟨hfolder', ?_, hparent⟩, fun q hq => ?_⟩
  · rw [resolvePath_of_folderAt hfolder', h.liveChild, hchild, Option.map_some,
      if_pos (by simp [huser])]
  · have hother : ∀ r', entryAt w c.user q = some r' → r'.id ≠ r.id := fun r' hr' hid => by
      rw [FileTable.eq_of_id (entryAt_mem hr') hmem hid] at hr'
      exact hq (entryAt_inj hr' hr)
    refine resolvesTo_congr ?_ fun r' hr' => contentOf_congr fun path hpath => if_neg fun heq => ?_
    · rw [h.entryAt]
      cases hr' : entryAt w c.user q with
      | none => rfl
      | some r' => rw [Option.map_some, if_neg (by simp [hother r' hr'])]
    · refine hs.target_ne hcol (entryAt_mem hr') hmem (hother r' hr') ?_
      have htarget : r'.target = path := by rw [FileEntry.target, hpath, Option.getD_some]
      rw [htarget, heq]

/-- The path of a request that finds no entry there. -/
theorem resolvePath_eq_none (h : entryAt w c.user p = none) :
    resolvePath w c.user p.raw = ((resolvePath w c.user p.raw).1, none) := by
  rw [← h, ← resolvePath_snd]

/-- A refused `PUT` of too many bytes. -/
theorem lawful_put_of_size (h : maxBody < data.length) :
    Lawful env w c p (.put contentType data) := by
  have hlarge : ¬ data.length ≤ maxBody := Nat.not_le.mpr h
  have hsame : leaves (dav env c p (.put contentType data)) w = w := by
    refine wp.leaves (P := fun w' => w' = w) ?_
    rw [wp_put]
    generalize resolvePath w c.user p.raw = resolved
    exact ⟨fun _ => rfl, fun hle => absurd hle hlarge⟩
  refine ⟨?_, fun _ => hsame, fun q _ => by rw [hsame]⟩
  rw [wp_put]
  generalize resolvePath w c.user p.raw = resolved
  exact ⟨fun _ => trivial, fun hle => absurd hle hlarge⟩

/-- A `PUT` of a new file into a folder that is there. -/
theorem lawful_put_of_new (hs : Shaped w) (hcol : .isFavorite ∉ w.columns) (hnew : NewId w c)
    (hfolder : folderAt w c.user p.parent = some folder) (hnone : entryAt w c.user p = none) :
    Lawful env w c p (.put contentType data) := by
  have hres : resolvePath w c.user p.raw = (folder, none) := by
    rw [resolvePath_of_folderAt hfolder, ← hnone, entryAt, hfolder, Option.bind_some]
  set x := putRow env c folder p.name (putMime env contentType p.name) data with hx
  have hcontent : ∀ t : FileTable, ∀ r ∈ w.entries.rows,
      contentOf { w.putBlob (filePath c.user c.newId) data with entries := t } r = contentOf w r :=
    fun t r hr => contentOf_congr fun path hpath =>
      if_neg (hs.ne_filePath hcol hr (hnew.rows r hr) path hpath)
  have hins : ∀ t, w.entries.insert x = some t → _ := fun t ht => done_of_insert
    { w.putBlob (filePath c.user c.newId) data with entries := t } (x := x) hfolder hnone ht
    rfl rfl rfl rfl (hcontent t)
  refine ⟨?_, fun habsent => ?_, fun q hq => ?_⟩
  · rw [wp_put, hres]
    refine ⟨fun _ => trivial, fun _ => ⟨fun t _ ht _ => ?_, fun _ => trivial⟩⟩
    exact ⟨folder, x, (hins t ht).1.1, (hins t ht).1.2, rfl, rfl, contentOf_putBlob rfl rfl⟩
  · rw [hfolder] at habsent
    cases habsent
  · refine wp.leaves (P := fun w' => resolvesTo w' c.user q = resolvesTo w c.user q) ?_
    rw [wp_put, hres]
    refine ⟨fun _ => rfl, fun _ => ⟨fun t _ ht => (hins t ht).2 q hq, fun _ => ?_⟩⟩
    exact resolvesTo_congr rfl fun r hr => hcontent w.entries r (entryAt_mem hr)

/-- A `PUT` over what is there, unless it is a folder and the row is rewritten. -/
theorem lawful_put_of_entry (hs : Shaped w) (hcol : .isFavorite ∉ w.columns) {r : FileEntry}
    (hfolder : folderAt w c.user p.parent = some folder) (hr : entryAt w c.user p = some r)
    (htype : r.entryType = .file ∨ mimeTooLong (putMime env contentType p.name) = true) :
    Lawful env w c p (.put contentType data) := by
  have hchild : liveChild w c.user folder p.name = some r := by
    rw [entryAt, hfolder, Option.bind_some] at hr
    exact hr
  have hres : resolvePath w c.user p.raw = (folder, some r) := by
    rw [resolvePath_of_folderAt hfolder, hchild]
  obtain ⟨hmem, huser, -⟩ := liveChild_eq_some hchild
  refine ⟨?_, fun habsent => ?_, fun q hq => ?_⟩
  · rw [wp_put, hres]
    refine ⟨fun _ => trivial, fun _ => ⟨fun t ht _ => ?_, fun _ => trivial⟩⟩
    obtain ⟨⟨hfolder', hres', hparent⟩, -⟩ := done_of_update hs hcol hfolder hr ht
    have hfile : r.entryType = .file := htype.resolve_right fun hmime => by
      rw [not_mimeTooLong_of_update hmem huser ht] at hmime
      cases hmime
    exact ⟨folder, _, hfolder', hres', hparent, hfile, contentOf_putBlob hfile rfl⟩
  · rw [hfolder] at habsent
    cases habsent
  · refine wp.leaves (P := fun w' => resolvesTo w' c.user q = resolvesTo w c.user q) ?_
    rw [wp_put, hres]
    refine ⟨fun _ => rfl, fun _ => ⟨fun t ht => (done_of_update hs hcol hfolder hr ht).2 q hq,
      fun _ => resolvesTo_congr rfl fun r' hr' => ?_⟩⟩
    refine contentOf_congr fun path hpath => if_neg fun heq => ?_
    have hne : r'.id ≠ r.id := fun hid => by
      rw [FileTable.eq_of_id (entryAt_mem hr') hmem hid] at hr'
      exact hq (entryAt_inj hr' hr)
    refine hs.target_ne hcol (entryAt_mem hr') hmem hne ?_
    rw [← heq, FileEntry.target, hpath, Option.getD_some]

-- the linter would run the request to see what `hput` says
set_option linter.constructorNameAsVariable false in
/-- **Which `PUT`s are lawful.** -/
theorem lawful_put_iff (hs : Shaped w) (hcol : .isFavorite ∉ w.columns) (hnew : NewId w c) :
    Lawful env w c p (.put contentType data) ↔ Behaves env w c p (.put contentType data) := by
  constructor
  · intro h
    by_contra hnot
    obtain ⟨hsize, hrest⟩ := not_or.mp hnot
    have hle : data.length ≤ maxBody := Nat.not_lt.mp hsize
    cases hfolder : folderAt w c.user p.parent with
    | none =>
      have hnone : entryAt w c.user p = none := by rw [entryAt, hfolder, Option.bind_none]
      -- whether the row is accepted or not, a file is written
      refine wp.leaves (P := fun w' => w' ≠ w) ?_ (h.absent hfolder)
      rw [wp_put, resolvePath_eq_none hnone]
      refine ⟨fun hlt => absurd hlt hsize, fun _ => ⟨fun t _ ht heq => ?_, fun _ heq => ?_⟩⟩
      · have hrows := FileTable.rows_of_insert ht
        rw [show t = w.entries from congrArg World.entries heq] at hrows
        simpa using congrArg List.length hrows
      · have hblob : (w.putBlob (filePath c.user c.newId) data).blobs (filePath c.user c.newId) =
            some data := if_pos rfl
        rw [heq, hnew.file] at hblob
        cases hblob
    | some folder =>
      refine hrest ⟨by rw [hfolder]; rfl, fun r hr => ?_⟩
      by_contra hbad
      obtain ⟨htype, hmime⟩ := not_or.mp hbad
      have hchild : liveChild w c.user folder p.name = some r := by
        rw [entryAt, hfolder, Option.bind_some] at hr
        exact hr
      obtain ⟨hput, -, -⟩ := h
      rw [wp_put, resolvePath_of_folderAt hfolder, hchild] at hput
      obtain ⟨t, ht⟩ : ∃ t, w.entries.update (fun r' => r'.id = r.id && r'.userId = c.user)
          (overwritten env c r.target (putMime env contentType p.name) data) = some t :=
        Option.ne_none_iff_exists'.mp fun hrefused =>
          hmime (mimeTooLong_of_overwrite_eq_none hrefused)
      obtain ⟨folder', r', -, hres, -, hfile, -⟩ := (hput.2 hle).1 t ht (by decide)
      obtain ⟨⟨-, hres', -⟩, -⟩ := done_of_update hs hcol hfolder hr ht
      rw [hres', Prod.mk.injEq] at hres
      rw [← Option.some.inj hres.2] at hfile
      exact htype hfile
  · rintro (hlt | ⟨hsome, htype⟩)
    · exact lawful_put_of_size hlt
    · obtain ⟨folder, hfolder⟩ := Option.isSome_iff_exists.mp hsome
      cases hr : entryAt w c.user p with
      | none => exact lawful_put_of_new hs hcol hnew hfolder hr
      | some r => exact lawful_put_of_entry hs hcol hfolder hr (htype r hr)

/-- **Which `MKCOL`s are lawful.** -/
theorem lawful_mkcol_iff : Lawful env w c p .mkcol ↔ Behaves env w c p .mkcol := by
  constructor
  · intro h
    by_contra hnot
    obtain ⟨hfolder, hrest⟩ := not_or.mp hnot
    have haccepts := not_not.mp hrest
    have habsent : folderAt w c.user p.parent = none := by
      rwa [Bool.not_eq_true, Option.isSome_eq_false_iff, Option.isNone_iff_eq_none] at hfolder
    have hnone : entryAt w c.user p = none := by rw [entryAt, habsent, Option.bind_none]
    refine wp.leaves (P := fun w' => w' ≠ w) ?_ (h.absent habsent)
    rw [wp_mkcol, resolvePath_eq_none hnone]
    refine ⟨fun t _ ht heq => ?_, fun hno => absurd haccepts hno⟩
    have hrows := FileTable.rows_of_insert ht
    rw [show t = w.entries from congrArg World.entries heq] at hrows
    simpa using congrArg List.length hrows
  · intro hb
    cases hfolder : folderAt w c.user p.parent with
    | none =>
      have hnone : entryAt w c.user p = none := by rw [entryAt, hfolder, Option.bind_none]
      have hno := hb.resolve_left (by rw [hfolder]; exact Bool.false_ne_true)
      have hsame : leaves (dav env c p .mkcol) w = w := by
        refine wp.leaves (P := fun w' => w' = w) ?_
        rw [wp_mkcol, resolvePath_eq_none hnone]
        exact ⟨fun _ haccepts => absurd haccepts hno, fun _ => rfl⟩
      refine ⟨?_, fun _ => hsame, fun q _ => by rw [hsame]⟩
      rw [wp_mkcol, resolvePath_eq_none hnone]
      exact ⟨fun _ haccepts => absurd haccepts hno, fun _ => trivial⟩
    | some folder =>
      cases hr : entryAt w c.user p with
      | none =>
        have hres : resolvePath w c.user p.raw = (folder, none) := by
          rw [resolvePath_of_folderAt hfolder, ← hr, entryAt, hfolder, Option.bind_some]
        have hins : ∀ t, w.entries.insert (newFolder c folder p.name) = some t → _ := fun t ht =>
          done_of_insert { w with entries := t } hfolder hr ht rfl rfl rfl rfl fun _ _ => rfl
        refine ⟨?_, fun habsent => ?_, fun q hq => ?_⟩
        · rw [wp_mkcol, hres]
          exact ⟨fun t _ ht _ => ⟨folder, _, (hins t ht).1.1, (hins t ht).1.2, rfl, rfl⟩,
            fun _ => trivial⟩
        · rw [hfolder] at habsent
          cases habsent
        · refine wp.leaves (P := fun w' => resolvesTo w' c.user q = resolvesTo w c.user q) ?_
          rw [wp_mkcol, hres]
          exact ⟨fun t _ ht => (hins t ht).2 q hq, fun _ => rfl⟩
      | some r =>
        have hres : resolvePath w c.user p.raw = (folder, some r) := by
          rw [resolvePath_of_folderAt hfolder, ← hr, entryAt, hfolder, Option.bind_some]
        have hsame : leaves (dav env c p .mkcol) w = w := by
          refine wp.leaves (P := fun w' => w' = w) ?_
          rw [wp_mkcol, hres]
        refine ⟨?_, fun _ => hsame, fun q _ => by rw [hsame]⟩
        rw [wp_mkcol, hres]
        exact fun hlt => absurd hlt (by decide)

end Law

/-! ## Runs -/

namespace Sample

/-- A folder of Alice's. -/
def oneFolder : World := run (step env) start [sent alice 0 id1 (.createFolder none "A")]

def second : Call := ⟨alice, 1, id2, tmp, 0⟩

/-- In the folder, two levels below it, and the folder itself. -/
def inFolder : DavPath := ⟨["A"], "x", by decide⟩

def belowMissing : DavPath := ⟨["A", "B"], "x", by decide⟩

def folderItself : DavPath := ⟨[], "A", by decide⟩

theorem newId_second : NewId oneFolder second where
  rows := by decide
  file := by decide

end Sample

open Sample

end Pcos
