import Pcos.Backend.Forest
import Pcos.Backend.Propfind
import Pcos.Backend.Trash

/-!
# Backend/Browsing — listings, breadcrumbs and paths lead to the same entries (`service.rs`)

    root ──list_folder──▸ folder ──list_folder──▸ … entry          down, by id
    Root ◂──parent_id── folder ◂──parent_id── … entry              up, build_breadcrumb
    resolve_path "folder/…/entry"                                  down, by name

A client that starts at the root and opens what it is shown sees an entry exactly if it is live and
everything above it is a live folder of the user.  WebDAV finds it under the names of its breadcrumb
under the same condition (`resolvePath_iff`), and in a run whose steps keep parents live folders of
the user nothing is out of reach: every entry is shown, or is in the trash (`shown_of_run`).
-/

namespace Pcos.Browsing

open Foundations Listing Propfind

/-! ## The handlers -/

structure FileListResponse where
  entries : List FileEntry
  path : List BreadcrumbItem
  total : ℕ
  deriving DecidableEq

variable (coll : Collation) (scan : Scan)

def listRoot (w : World) (user : Uuid) : FileListResponse where
  entries := listed coll scan w user none
  path := [⟨none, "Root"⟩]
  total := (listed coll scan w user none).length

/-- List entries inside a folder, within `fuel` turns of the breadcrumb loop. -/
def listFolder (w : World) (user folder : Uuid) (fuel : ℕ) : Except Failure FileListResponse :=
  match w.owned user folder with
  | none => .error (.error (.notFound "Item not found"))
  | some _ =>
    match buildBreadcrumb w user (some folder) fuel with
    | none => .error .hang
    | some path =>
      .ok ⟨listed coll scan w user (some folder), path, (listed coll scan w user (some folder)).length⟩

/-- `ORDER BY trashed_at DESC`, which puts NULL first. -/
def trashedLater (a b : FileEntry) : Bool :=
  match a.trashedAt, b.trashedAt with
  | none, _ => true
  | some _, none => false
  | some x, some y => y ≤ x

def listTrash (w : World) (user : Uuid) : List FileEntry :=
  (scan.rows (w.entries.rows.filter fun r => r.userId = user && r.isTrashed)).insertionSort
    (trashedLater · ·)

/-- What a client gets to see that starts at the root and opens folders it is shown. -/
inductive Opens (w : World) (user : Uuid) : FileListResponse → Prop
  | root : Opens w user (listRoot coll scan w user)
  | folder {shown shown' f fuel} (h : Opens w user shown) (hf : f ∈ shown.entries)
      (hfolder : f.entryType = .folder)
      (hopen : listFolder coll scan w user f.id fuel = .ok shown') : Opens w user shown'

/-- The live folders from `parent` up to the root. -/
inductive Placed (w : World) (user : Uuid) : Option Uuid → List FileEntry → Prop
  | root : Placed w user none []
  | folder {f fs} (h : Placed w user f.parentId fs) (hf : f ∈ w.entries.rows)
      (huser : f.userId = user) (hfolder : f.entryType = .folder) (hlive : f.isTrashed = false) :
      Placed w user (some f.id) (f :: fs)

variable {coll scan} {w : World} {user x : Uuid} {parent : Option Uuid} {r : FileEntry}
  {fs : List FileEntry}

theorem mem_listed : r ∈ listed coll scan w user parent ↔
    r ∈ w.entries.rows ∧ r.userId = user ∧ r.parentId = parent ∧ r.isTrashed = false := by
  rw [listed, (List.perm_insertionSort _ _).mem_iff, (scan.perm _).mem_iff]
  simp [liveChildren, and_assoc]

theorem mem_listTrash : r ∈ listTrash scan w user ↔
    r ∈ w.entries.rows ∧ r.userId = user ∧ r.isTrashed = true := by
  rw [listTrash, (List.perm_insertionSort _ _).mem_iff, (scan.perm _).mem_iff]
  simp

/-! ## Up and down the same folders -/

/-- Everything above an entry in place is a live folder of the user. -/
theorem Placed.liveFolder {a : Uuid} (h : Placed w user (some x) fs)
    (ha : Anc w.entries.parent a x) : LiveFolder w user a := by
  generalize hp : some x = parent at h
  induction h generalizing x with
  | root => cases hp
  | @folder f fs h hf huser hfolder hlive ih =>
    obtain rfl := Option.some.inj hp
    rcases anc_iff.mp ha with rfl | ⟨y, hy, ha⟩
    · exact ⟨f, hf, rfl, huser, hfolder, hlive⟩
    · rw [FileTable.parent_of_mem hf] at hy
      exact ih ha hy.symm

/-- The breadcrumb loop climbs to the root. -/
theorem Placed.breadcrumbLoop (h : Placed w user parent fs) (acc : List BreadcrumbItem) :
    breadcrumbLoop w user (fs.length + 1) parent acc
      = some (acc ++ fs.map fun f => ⟨some f.id, f.name⟩) := by
  induction h generalizing acc with
  | root => simp [Pcos.breadcrumbLoop]
  | @folder f fs h hf huser hfolder hlive ih =>
    have hown : w.owned user f.id = some f := World.owned_eq_some.mpr ⟨hf, rfl, huser⟩
    rw [List.length_cons, Pcos.breadcrumbLoop]
    simp only [hown]
    rw [ih]
    simp

theorem Placed.buildBreadcrumb (h : Placed w user r.parentId fs) (hr : r ∈ w.entries.rows)
    (huser : r.userId = user) : buildBreadcrumb w user (some r.id) (fs.length + 2)
      = some (⟨none, "Root"⟩ :: (r :: fs).reverse.map fun f => ⟨some f.id, f.name⟩) := by
  have hown : w.owned user r.id = some r := World.owned_eq_some.mpr ⟨hr, rfl, huser⟩
  rw [Pcos.buildBreadcrumb, Pcos.breadcrumbLoop]
  simp only [hown]
  rw [h.breadcrumbLoop]
  simp

/-- …and where it does, and all it passes are live folders, they are the folders in place. -/
theorem placed_of_breadcrumbLoop {fuel : ℕ} {acc items : List BreadcrumbItem}
    (h : breadcrumbLoop w user fuel parent acc = some items)
    (hlive : ∀ p ∈ parent, ∀ a, Anc w.entries.parent a p → LiveFolder w user a) :
    ∃ fs, Placed w user parent fs ∧ items = acc ++ fs.map fun f => ⟨some f.id, f.name⟩ := by
  induction fuel generalizing parent acc with
  | zero => cases h
  | succ fuel ih =>
    cases parent with
    | none => exact ⟨[], .root, by simpa [Pcos.breadcrumbLoop] using h.symm⟩
    | some p =>
      obtain ⟨f, hf, rfl, huser, hfolder, hflive⟩ := hlive p rfl p (.refl p)
      have hown : w.owned user f.id = some f := World.owned_eq_some.mpr ⟨hf, rfl, huser⟩
      rw [Pcos.breadcrumbLoop] at h
      simp only [hown] at h
      obtain ⟨fs, hplaced, rfl⟩ := ih h fun q hq a ha =>
        hlive f.id rfl a (ha.trans (.of_parent (by rw [FileTable.parent_of_mem hf]; exact hq)))
      exact ⟨f :: fs, .folder hplaced hf huser hfolder hflive, by simp⟩

/-- A folder is entered by its name. -/
theorem enterFolder_of_mem (hf : r ∈ w.entries.rows) (hfolder : r.entryType = .folder)
    (hlive : r.isTrashed = false) : enterFolder w r.userId r.parentId r.name = some (some r.id) := by
  rw [enterFolder_eq, liveChild_iff.mpr ⟨hf, rfl, rfl, hlive, rfl⟩, Option.filter_some,
    if_pos (decide_eq_true hfolder), Option.map_some]

/-- Walking down the names of the folders in place leads to the last of them. -/
theorem Placed.walk (h : Placed w user parent fs) :
    walk (enterFolder w user) none (fs.reverse.map FileEntry.name) = some parent := by
  induction h with
  | root => rfl
  | @folder f fs h hf huser hfolder hlive ih =>
    subst huser
    rw [List.reverse_cons, List.map_append, List.map_singleton, walk_concat, ih]
    exact enterFolder_of_mem hf hfolder hlive

/-- …and a walk passes folders that are in place. -/
theorem placed_of_walk {names : List String} (h : walk (enterFolder w user) none names = some parent) :
    ∃ fs, Placed w user parent fs ∧ fs.reverse.map FileEntry.name = names := by
  induction names using List.reverseRecOn generalizing parent with
  | nil => exact ⟨[], Option.some.inj h ▸ .root, rfl⟩
  | append_singleton names name ih =>
    rw [walk_concat] at h
    obtain ⟨q, hq, henter⟩ := Option.bind_eq_some_iff.mp h
    obtain ⟨f, hf, rfl⟩ := Option.map_eq_some_iff.mp henter
    obtain ⟨hmem, huser, rfl, hfolder, hlive, rfl⟩ := liveFolder_eq_some hf
    obtain ⟨fs, hplaced, rfl⟩ := ih hq
    exact ⟨f :: fs, .folder hplaced hmem huser hfolder hlive, by simp⟩

/-- What a path of names resolves to. -/
theorem resolveSegments_snd_eq_some {names : List String} :
    (resolveSegments w user none names).2 = some r ↔ r ∈ w.entries.rows ∧ r.userId = user ∧
      r.isTrashed = false ∧
        ∃ fs, Placed w user r.parentId fs ∧ fs.reverse.map FileEntry.name ++ [r.name] = names := by
  constructor
  · intro h
    rcases List.eq_nil_or_concat names with rfl | ⟨ns, name, rfl⟩
    · cases h
    rw [List.concat_eq_append] at h ⊢
    cases hwalk : walk (enterFolder w user) none ns with
    | none =>
      rw [(resolveSegments_concat ns).2 hwalk] at h
      cases h
    | some folder =>
      rw [(resolveSegments_concat ns).1 folder hwalk] at h
      obtain ⟨hmem, huser, rfl, hlive, rfl⟩ := liveChild_eq_some h
      obtain ⟨fs, hplaced, rfl⟩ := placed_of_walk hwalk
      exact ⟨hmem, huser, hlive, fs, hplaced, rfl⟩
  · rintro ⟨hmem, rfl, hlive, fs, hplaced, rfl⟩
    rw [(resolveSegments_concat _).1 r.parentId hplaced.walk]
    exact liveChild_iff.mpr ⟨hmem, rfl, rfl, hlive, rfl⟩

/-- **A path resolves to an entry exactly if it spells the entry's breadcrumb**: the entry is live
and the user's, everything above it is a live folder of the user, and climbing from it to the root
gives the names of the path. -/
theorem resolvePath_iff (w : World) (user : Uuid) (rawPath : String) (r : FileEntry) :
    (resolvePath w user rawPath).2 = some r ↔
      (r ∈ w.entries.rows ∧ r.userId = user ∧ r.isTrashed = false)
        ∧ (∀ p ∈ r.parentId, ∀ a, Anc w.entries.parent a p → LiveFolder w user a)
        ∧ ∃ fuel path, buildBreadcrumb w user (some r.id) fuel = some path
          ∧ path.map BreadcrumbItem.name = "Root" :: segments rawPath := by
  rw [resolvePath, resolveSegments_snd_eq_some]
  constructor
  · rintro ⟨hmem, huser, hlive, fs, hplaced, hnames⟩
    refine ⟨⟨hmem, huser, hlive⟩, fun p hp a ha => ?_, _, _, hplaced.buildBreadcrumb hmem huser, ?_⟩
    · rw [Option.mem_def.mp hp] at hplaced
      exact hplaced.liveFolder ha
    · simp [← hnames, Function.comp_def]
  · rintro ⟨⟨hmem, huser, hlive⟩, habove, fuel, path, hpath, hnames⟩
    have hown : w.owned user r.id = some r := World.owned_eq_some.mpr ⟨hmem, rfl, huser⟩
    obtain ⟨items, hitems, rfl⟩ := Option.map_eq_some_iff.mp hpath
    cases fuel with
    | zero => cases hitems
    | succ fuel =>
      rw [Pcos.breadcrumbLoop] at hitems
      simp only [hown] at hitems
      obtain ⟨fs, hplaced, rfl⟩ := placed_of_breadcrumbLoop hitems habove
      refine ⟨hmem, huser, hlive, fs, hplaced, ?_⟩
      simpa [Function.comp_def] using hnames

/-! ## What a client is shown -/

variable (coll scan) in
theorem Placed.opens (h : Placed w user parent fs) :
    ∃ shown, Opens coll scan w user shown ∧ shown.entries = listed coll scan w user parent := by
  induction h with
  | root => exact ⟨_, .root, rfl⟩
  | @folder f fs h hf huser hfolder hlive ih =>
    obtain ⟨shown, hopens, hentries⟩ := ih
    have hmem : f ∈ shown.entries := by
      rw [hentries]
      exact mem_listed.mpr ⟨hf, huser, rfl, hlive⟩
    have hown : w.owned user f.id = some f := World.owned_eq_some.mpr ⟨hf, rfl, huser⟩
    have hopen : listFolder coll scan w user f.id (fs.length + 2)
        = .ok ⟨listed coll scan w user (some f.id),
          ⟨none, "Root"⟩ :: (f :: fs).reverse.map fun g => ⟨some g.id, g.name⟩,
          (listed coll scan w user (some f.id)).length⟩ := by
      simp only [listFolder, hown, h.buildBreadcrumb hf huser]
    exact ⟨_, .folder hopens hmem hfolder hopen, rfl⟩

theorem placed_of_opens {shown : FileListResponse} (h : Opens coll scan w user shown) :
    ∃ parent fs, Placed w user parent fs ∧ shown.entries = listed coll scan w user parent := by
  induction h with
  | root => exact ⟨none, [], .root, rfl⟩
  | @folder shown shown' f fuel h hf hfolder hopen ih =>
    obtain ⟨parent, fs, hplaced, hentries⟩ := ih
    rw [hentries] at hf
    obtain ⟨hmem, huser, rfl, hlive⟩ := mem_listed.mp hf
    refine ⟨some f.id, f :: fs, .folder hplaced hmem huser hfolder hlive, ?_⟩
    rw [listFolder] at hopen
    split at hopen
    · cases hopen
    · split at hopen
      · cases hopen
      · cases hopen
        rfl

/-- **A client is shown an entry exactly if it is live and everything above it is in place.** -/
theorem shown_iff : (∃ shown, Opens coll scan w user shown ∧ r ∈ shown.entries) ↔
    r ∈ w.entries.rows ∧ r.userId = user ∧ r.isTrashed = false ∧ ∃ fs, Placed w user r.parentId fs := by
  constructor
  · rintro ⟨shown, hopens, hr⟩
    obtain ⟨parent, fs, hplaced, hentries⟩ := placed_of_opens hopens
    rw [hentries] at hr
    obtain ⟨hmem, huser, rfl, hlive⟩ := mem_listed.mp hr
    exact ⟨hmem, huser, hlive, fs, hplaced⟩
  · rintro ⟨hmem, huser, hlive, fs, hplaced⟩
    obtain ⟨shown, hopens, hentries⟩ := hplaced.opens coll scan
    exact ⟨shown, hopens, by rw [hentries]; exact mem_listed.mpr ⟨hmem, huser, rfl, hlive⟩⟩

/-! ## Runs -/

/-- With live folders of the user as parents, and no cycle, everything live is in place. -/
theorem exists_placed (howned : ParentsOwned w.entries) (hlive : LiveParents w.entries) {n : ℕ}
    (hr : r ∈ w.entries.rows) (hrlive : r.isTrashed = false)
    (hend : up w.entries.parent n r.id = none) : ∃ fs, Placed w r.userId r.parentId fs := by
  induction n generalizing r with
  | zero => cases hend
  | succ n ih =>
    rw [up_succ, FileTable.parent_of_mem hr] at hend
    cases hp : r.parentId with
    | none => exact ⟨[], .root⟩
    | some p =>
      rw [hp] at hend
      obtain ⟨f, hf, rfl, huser, hfolder⟩ := howned r hr p hp
      have hflive : f.isTrashed = false :=
        isTrashed_of_trashedAt (hlive r hr hrlive f.id hp) hf rfl
      obtain ⟨fs, hplaced⟩ := ih hf hflive hend
      rw [huser] at hplaced
      exact ⟨f :: fs, .folder hplaced hf huser hfolder hflive⟩

/-- **In a run whose steps move nothing below itself, name folders of the user as parents and bury
nothing live, nothing is out of reach**: every entry of a user is shown to a client that opens
folders from the root, or is in the trash. -/
theorem shown_of_run (coll : Collation) (scan : Scan) (env : Env) (columns : List Column)
    (users : Uuid → Option ℤ) (es : List Event)
    (h : Along (fun w e => Fresh w e ∧ movesBelowItself w e = false ∧ misplacesParent w e = false
      ∧ buriesLive w e = false) (step env) (.empty columns users) es) :
    ∀ r ∈ (run (step env) (.empty columns users) es).entries.rows,
      (∃ shown, Opens coll scan (run (step env) (.empty columns users) es) r.userId shown
          ∧ r ∈ shown.entries)
        ∨ r ∈ listTrash scan (run (step env) (.empty columns users) es) r.userId := by
  obtain ⟨hac, howned, hlive⟩ := h.invariant
    (P := fun w => Acyclic w.entries.parent ∧ ParentsOwned w.entries ∧ LiveParents w.entries)
    (fun w e ⟨hac, howned, hlive⟩ ⟨hfresh, hmove, hplace, hbury⟩ =>
      have hc := (step_change env w e).rows
      ⟨Acyclic.rowChange hac hc hfresh hmove, howned.rowChange hc hplace, hlive.rowChange hc hbury⟩)
    ⟨acyclic_empty columns users, fun r hr => absurd hr List.not_mem_nil,
      fun r hr => absurd hr List.not_mem_nil⟩
  intro r hr
  cases htrash : r.isTrashed with
  | true => exact Or.inr (mem_listTrash.mpr ⟨hr, rfl, htrash⟩)
  | false =>
    obtain ⟨n, hn⟩ := Acyclic.exists_up_eq_none hac r.id
    obtain ⟨fs, hplaced⟩ := exists_placed howned hlive hr htrash hn
    exact Or.inl (shown_iff.mpr ⟨hr, rfl, htrash, fs, hplaced⟩)

open Pcos.Sample Listing.Sample

/-- A folder with a file, which is then put in the trash. -/
def trashInFolder : List Event :=
  [sent alice 0 id1 (.createFolder none "A"),
    sent alice 1 id2 (.uploadFile (some id1) "f" "text/plain" [0x61]),
    sent alice 2 id3 (.deleteItem id2)]

theorem shown_trashInFolder :
    (run (step env) start trashInFolder).entries.rows ≠ []
      ∧ ∀ r ∈ (run (step env) start trashInFolder).entries.rows,
        (∃ shown, Opens bytewise inOrder (run (step env) start trashInFolder) r.userId shown
            ∧ r ∈ shown.entries)
          ∨ r ∈ listTrash inOrder (run (step env) start trashInFolder) r.userId :=
  ⟨by decide, shown_of_run bytewise inOrder env migratedColumns users trashInFolder (by decide)⟩

end Pcos.Browsing
