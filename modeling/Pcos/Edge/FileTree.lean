import Pcos.Edge.Durability
import Pcos.Foundations.Ancestry
import Pcos.Foundations.Runs

/-!
# Edge/FileTree — folders, moves and the trash of the edge worker (`index.ts`)

No route looks at the parent it stores: the schema asks that the row exists, and deletes what is
below a deleted row.  Trashing touches one row.  So a parent may be a file, or someone else's, or the
folder itself; and emptying a trash deletes what is below it, in the trash or not.

Requests that name a live folder of the user's own, move nothing below itself and trash a folder's
children with it keep the tree in order.
-/

namespace Pcos.Edge.Files

open Foundations Accounts

/-! ## The table -/

/-- D1 and R2, with the ids of the rows whose `entry_type` is `folder`. -/
structure Tree where
  store : Store
  folders : List String

abbrev TreeHandler := EStateM Refusal Tree

namespace Tree

variable (t : Tree)

abbrev files : List FileEntry := t.store.files

def withFiles (files : List FileEntry) : Tree := { t with store := { t.store with files := files } }

/-- `parent_id` of a row, looked up by its id. -/
def parent (id : String) : Option String :=
  (t.files.find? fun f => f.id = id).bind FileEntry.parentId

/-- All parents are among these. -/
theorem parent_mem (id x : String) (h : t.parent id = some x) :
    x ∈ t.files.filterMap FileEntry.parentId := by
  obtain ⟨f, hf, hx⟩ := Option.bind_eq_some_iff.mp h
  exact List.mem_filterMap.mpr ⟨f, List.mem_of_find?_eq_some hf, hx⟩

instance (a x : String) : Decidable (Anc t.parent a x) := Anc.decidable t.parent_mem a x

/-- `UPDATE file_entries SET … WHERE id = ?3 AND user_id = ?4` -/
def updateOwned (user fileId : String) (assign : FileEntry → FileEntry) : Tree :=
  t.withFiles (t.files.map fun f => if f.id = fileId ∧ f.userId = user then assign f else f)

/-- The row is deleted with the user's trash: a trashed row of the user is the row or above it. -/
def emptied (user id : String) : Bool :=
  t.files.any fun f => f.userId = user && f.isTrashed && decide (Anc t.parent f.id id)

/-- `DELETE FROM file_entries WHERE user_id = ?1 AND is_trashed = 1`, and with it what is below, by
`ON DELETE CASCADE`. -/
def deleteTrashed (user : String) : Tree where
  store := { t.store with files := t.files.filter fun f => !t.emptied user f.id }
  folders := t.folders.filter fun id => !t.emptied user id

end Tree

/-! ## Requests -/

/-- `body` of a resumable upload, with a size that is a natural number. -/
structure ResumableBody where
  name : Option String
  sizeBytes : Option ℕ
  sha256Hash : Option String
  storageNodeId : Option String
  parentId : Option String
  mimeType : Option String

inductive TreeRequest
  | createFolder (name parentId : Option String)
  | upload (form : UploadForm)
  | uploadShare (r : ShareRequest) (form : UploadForm)
  | initResumable (body : ResumableBody)
  | rename (fileId : String) (name : Option String)
  | trash (fileId : String)
  | bulkDelete (ids : List String)
  | move (fileId : String) (targetFolderId : Option String)
  | restore (itemId : String)
  | emptyTrash
  | createShare (c : ShareCall) (body : CreateShareBody)
  | revokeShare (shareId : String)

/-- A handler that leaves `entry_type` alone. -/
def onStore {α : Type} (x : Handler α) : TreeHandler α := fun t =>
  match x t.store with
  | .ok a s => .ok a { t with store := s }
  | .error e s => .error e { t with store := s }

section Handlers

variable (c : Call) (user : String)

/-- The row of a new folder. -/
def newFolder (parentId : Option String) (name : String) : FileEntry where
  id := c.fileId
  userId := user
  parentId := truthy parentId
  name := trim isSpace name
  mimeType := ""
  sizeBytes := 0
  sha256Hash := ""
  storagePath := ""
  storageNodeId := none
  isTrashed := false
  dataBlob := none
  createdAt := c.now
  updatedAt := c.now

/-- The name, unless it is blank. -/
def folderName (name : Option String) : Option String :=
  (truthy name).filter fun name => trim isSpace name ≠ ""

/-- `POST /api/v1/folders` -/
def createFolder (name parentId : Option String) : TreeHandler FileEntry := do
  let name ← okOr (folderName name) ⟨400, "Folder name is required"⟩
  let row := newFolder c user parentId name
  onStore (insertFile row)
  modify fun t => { t with folders := t.folders ++ [row.id] }
  pure row

/-- The row of a resumable upload. -/
def resumableRow (body : ResumableBody) (name : String) (size : ℕ) : FileEntry :=
  { newFile c user (truthy body.parentId) name (body.mimeType.getD "") size
      (body.sha256Hash.getD "") "resumable_transfer" none with
    id := "xfer_" ++ c.fileId, storageNodeId := truthy body.storageNodeId }

/-- `POST /api/v1/transfers/resumable/init` -/
def initResumable (d : Deployment) (body : ResumableBody) : Handler FileEntry := do
  let name ← okOr (truthy body.name) ⟨400, "name and size_bytes are required"⟩
  let size ← okOr body.sizeBytes ⟨400, "name and size_bytes are required"⟩
  EStateM.adaptExcept (fun e => if e.status = 500 then thrown else e) (checkQuota d user size)
  insertFile (resumableRow c user body name size)
  pure (resumableRow c user body name size)

/-- `PUT /api/v1/files/:id` -/
def renameFile (fileId : String) (name : Option String) : TreeHandler Unit := do
  let name ← okOr (truthy name) ⟨400, "Name is required"⟩
  modify fun t => t.updateOwned user fileId fun f =>
    { f with name := trim isSpace name, updatedAt := c.now }

/-- `UPDATE file_entries SET is_trashed = 1 … WHERE id = ?2 AND user_id = ?3` -/
def trashFile (fileId : String) : TreeHandler Unit :=
  modify fun t => t.updateOwned user fileId fun f => { f with isTrashed := true, updatedAt := c.now }

/-- `POST /api/v1/files/bulk-delete` -/
def bulkDelete : List String → TreeHandler Unit
  | [] => pure ()
  | id :: ids => do
    trashFile c user id
    bulkDelete ids

/-- `PUT /api/v1/files/:id/move`; the parent has to exist if there is a row to change. -/
def moveFile (fileId : String) (targetFolderId : Option String) : TreeHandler Unit := do
  let t ← get
  ensure (!(t.files.any fun f => f.id = fileId && f.userId = user) ||
    (truthy targetFolderId).all fun x => t.files.any fun f => f.id = x) thrown
  modify fun t => t.updateOwned user fileId fun f =>
    { f with parentId := truthy targetFolderId, updatedAt := c.now }

/-- `POST /api/v1/trash/:id/restore` -/
def restoreFile (itemId : String) : TreeHandler Unit :=
  modify fun t => t.updateOwned user itemId fun f => { f with isTrashed := false, updatedAt := c.now }

/-- `POST /api/v1/trash/empty` -/
def emptyTrash : TreeHandler Unit := modify fun t => t.deleteTrashed user

/-- `DELETE /api/v1/shares/:id` -/
def revokeShare (shareId : String) : Handler Unit :=
  modify fun s =>
    { s with shares := s.shares.filter fun r => !(r.id = shareId && r.userId = user) }

end Handlers

/-- A request, with the user it is authenticated as; a share's upload is no one's. -/
structure TreeEvent where
  user : String
  call : Call
  request : TreeRequest

section Step

variable (d : Deployment) (p : Platform)

def serve (e : TreeEvent) : TreeHandler Unit :=
  match e.request with
  | .createFolder name parentId => discard (createFolder e.call e.user name parentId)
  | .upload form => discard (onStore (uploadFile d p.sha256 e.call e.user form))
  | .uploadShare r form => discard (onStore (uploadShare p e.call r form))
  | .initResumable body => discard (onStore (initResumable e.call e.user d body))
  | .rename fileId name => renameFile e.call e.user fileId name
  | .trash fileId => trashFile e.call e.user fileId
  | .bulkDelete ids => bulkDelete e.call e.user ids
  | .move fileId target => moveFile e.call e.user fileId target
  | .restore itemId => restoreFile e.call e.user itemId
  | .emptyTrash => emptyTrash e.user
  | .createShare c body => discard (onStore (createShare p c e.user body))
  | .revokeShare shareId => onStore (revokeShare e.user shareId)

/-- The tables after a request, answered or refused. -/
def treeStep (t : Tree) (e : TreeEvent) : Tree := leaves (serve d p e) t

/-- The tables before the first request. -/
def Tree.empty (users : List (String × QuotaRow)) (nodes : List StorageNode) : Tree :=
  ⟨⟨users, [], nodes, [], .empty⟩, []⟩

end Step

/-! ## A tree in order -/

namespace Tree

variable (t : Tree)

/-- The user has a folder with this id. -/
def isFolder (user x : String) : Bool :=
  t.folders.contains x && t.files.any fun g => g.id = x && g.userId = user

/-- …that is not in the trash. -/
def isLiveFolder (user x : String) : Bool :=
  t.folders.contains x && t.files.any fun g => g.id = x && g.userId = user && !g.isTrashed

theorem isFolder_iff {t : Tree} {user x : String} : t.isFolder user x = true ↔
    x ∈ t.folders ∧ ∃ g ∈ t.files, g.id = x ∧ g.userId = user := by
  simp [isFolder]

theorem isLiveFolder_iff {t : Tree} {user x : String} : t.isLiveFolder user x = true ↔
    x ∈ t.folders ∧ ∃ g ∈ t.files, g.id = x ∧ g.userId = user ∧ g.isTrashed = false := by
  simp [isLiveFolder, and_assoc]

end Tree

/-- Parents are folders of the same user, without a cycle, and a user who empties the trash loses
only rows that are the user's and in it. -/
structure InOrder (d : Deployment) (p : Platform) (t : Tree) : Prop where
  parents : ∀ f ∈ t.files, ∀ x ∈ f.parentId, t.isFolder f.userId x = true
  acyclic : Acyclic t.parent
  emptying : ∀ user c, ∀ f ∈ t.files, f ∉ (treeStep d p t ⟨user, c, .emptyTrash⟩).files →
    f.userId = user ∧ f.isTrashed = true

/-- What is below a trashed row is trashed. -/
structure Tidy (t : Tree) : Prop where
  unique : (t.files.map FileEntry.id).Nodup
  parents : ∀ f ∈ t.files, ∀ x ∈ f.parentId, t.isFolder f.userId x = true
  acyclic : Acyclic t.parent
  trash : ∀ f ∈ t.files, ∀ g ∈ t.files, f.parentId = some g.id → g.isTrashed = true →
    f.isTrashed = true

section Rows

variable {t : Tree} {f g : FileEntry} {x y : String}

theorem eq_of_id (hu : (t.files.map FileEntry.id).Nodup) (hf : f ∈ t.files) (hg : g ∈ t.files)
    (h : f.id = g.id) : f = g := List.inj_on_of_nodup_map hu hf hg h

theorem find_of_mem (hu : (t.files.map FileEntry.id).Nodup) (hf : f ∈ t.files) :
    t.files.find? (fun g => g.id = f.id) = some f := by
  obtain ⟨g, hg⟩ : ∃ g, t.files.find? (fun g => g.id = f.id) = some g :=
    Option.isSome_iff_exists.mp (List.find?_isSome.mpr ⟨f, hf, decide_eq_true rfl⟩)
  have hid : g.id = f.id := by simpa using List.find?_some hg
  rw [hg, eq_of_id hu (List.mem_of_find?_eq_some hg) hf hid]

theorem parent_of_mem (hu : (t.files.map FileEntry.id).Nodup) (hf : f ∈ t.files) :
    t.parent f.id = f.parentId := by
  rw [Tree.parent, find_of_mem hu hf, Option.bind_some]

theorem parent_eq_some (h : t.parent x = some y) : ∃ f ∈ t.files, f.id = x ∧ f.parentId = some y := by
  obtain ⟨f, hf, hy⟩ := Option.bind_eq_some_iff.mp h
  exact ⟨f, List.mem_of_find?_eq_some hf, by simpa using List.find?_some hf, hy⟩

section Map

variable {assign : FileEntry → FileEntry} (hid : ∀ f, (assign f).id = f.id)

include hid

theorem unique_map (hu : (t.files.map FileEntry.id).Nodup) :
    ((t.withFiles (t.files.map assign)).files.map FileEntry.id).Nodup := by
  have hids : (t.files.map assign).map FileEntry.id = t.files.map FileEntry.id := by
    rw [List.map_map]
    exact List.map_congr_left fun f _ => hid f
  exact hids ▸ hu

theorem isFolder_map (huser : ∀ f, (assign f).userId = f.userId) {user : String}
    (h : t.isFolder user x = true) : (t.withFiles (t.files.map assign)).isFolder user x = true := by
  obtain ⟨hmem, g, hg, hgid, hguser⟩ := Tree.isFolder_iff.mp h
  exact Tree.isFolder_iff.mpr ⟨hmem, assign g, List.mem_map_of_mem hg, (hid g).trans hgid,
    (huser g).trans hguser⟩

theorem parent_map : (t.withFiles (t.files.map assign)).parent x =
    (t.files.find? fun f => f.id = x).bind fun f => (assign f).parentId := by
  change ((t.files.map assign).find? fun f => f.id = x).bind FileEntry.parentId = _
  rw [List.find?_map]
  simp only [Function.comp_def, hid, Option.bind_map]

end Map

end Rows

namespace Tidy

variable {t t' : Tree} {f g : FileEntry} {user x : String}

/-- **What is below a trashed row is of the same user, and trashed.** -/
theorem below (h : Tidy t) (hf : f ∈ t.files) (htrashed : f.isTrashed = true)
    (hanc : Anc t.parent f.id x) : ∀ g ∈ t.files, g.id = x → g.userId = f.userId ∧ g.isTrashed = true := by
  refine hanc.rec_down (P := fun x => ∀ g ∈ t.files, g.id = x → g.userId = f.userId ∧ g.isTrashed = true)
    (fun g hg hid => ?_) (fun y q hq ih g hg hid => ?_)
  · rw [eq_of_id h.unique hg hf hid]
    exact ⟨rfl, htrashed⟩
  · rw [← hid, parent_of_mem h.unique hg] at hq
    obtain ⟨-, r, hr, rfl, huser⟩ := Tree.isFolder_iff.mp (h.parents g hg q hq)
    obtain ⟨hruser, hrtrashed⟩ := ih r hr rfl
    exact ⟨huser.symm.trans hruser, h.trash g hg r hr hq hrtrashed⟩

theorem inOrder {d : Deployment} {p : Platform} (h : Tidy t) : InOrder d p t where
  parents := h.parents
  acyclic := h.acyclic
  emptying user c g hg hgone := by
    change g ∉ t.files.filter (fun f => !t.emptied user f.id) at hgone
    rw [List.mem_filter, not_and, Bool.not_eq_true', Bool.not_eq_false] at hgone
    obtain ⟨f, hf, hall⟩ := List.any_eq_true.mp (hgone hg)
    simp only [Bool.and_eq_true, decide_eq_true_eq] at hall
    obtain ⟨⟨rfl, htrashed⟩, hanc⟩ := hall
    exact h.below hf htrashed hanc g hg rfl

/-- Only the rows and the folders matter. -/
theorem congr (h : Tidy t) (hfiles : t'.files = t.files) (hfolders : t.folders ⊆ t'.folders) :
    Tidy t' where
  unique := by rw [hfiles]; exact h.unique
  parents := by
    rw [hfiles]
    intro f hf x hx
    obtain ⟨hmem, hrow⟩ := Tree.isFolder_iff.mp (h.parents f hf x hx)
    rw [Tree.isFolder_iff, hfiles]
    exact ⟨hfolders hmem, hrow⟩
  acyclic := by
    have hparent : t'.parent = t.parent := by
      funext x
      rw [Tree.parent, hfiles, Tree.parent]
    rw [hparent]
    exact h.acyclic
  trash := by rw [hfiles]; exact h.trash

/-! ## Statements -/

/-- **A new row under a live folder of its user's**, or under none. -/
theorem insert {row : FileEntry} (h : Tidy t) (haccepts : t.store.accepts row = true)
    (hlive : row.isTrashed = false)
    (hparent : ∀ x ∈ row.parentId, t.isLiveFolder row.userId x = true)
    (hfiles : t'.files = t.files ++ [row]) (hfolders : t.folders ⊆ t'.folders) : Tidy t' := by
  have hfresh : ∀ f ∈ t.files, f.id ≠ row.id := fun f hf => by
    simpa using List.all_eq_true.mp (accepts_fresh haccepts) f hf
  have hunique : (t'.files.map FileEntry.id).Nodup := by
    rw [hfiles, List.map_append]
    refine List.nodup_append.mpr ⟨h.unique, List.nodup_singleton _, fun id hid x hx => ?_⟩
    obtain ⟨f, hf, rfl⟩ := List.mem_map.mp hid
    rw [List.map_singleton, List.mem_singleton] at hx
    exact hx ▸ hfresh f hf
  have hof : ∀ user x, t.isFolder user x = true → t'.isFolder user x = true := fun user x hx => by
    obtain ⟨hmem, g, hg, hid, huser⟩ := Tree.isFolder_iff.mp hx
    exact Tree.isFolder_iff.mpr
      ⟨hfolders hmem, g, by rw [hfiles]; exact List.mem_append_left _ hg, hid, huser⟩
  refine ⟨hunique, fun f hf x hx => ?_, ?_, fun f hf g hg hfg htrashed => ?_⟩
  · rw [hfiles, List.mem_append, List.mem_singleton] at hf
    rcases hf with hf | rfl
    · exact hof _ x (h.parents f hf x hx)
    · obtain ⟨hmem, g, hg, hid, huser, -⟩ := Tree.isLiveFolder_iff.mp (hparent x hx)
      exact hof _ x (Tree.isFolder_iff.mpr ⟨hmem, g, hg, hid, huser⟩)
  · have hparent' : t'.parent = Function.update t.parent row.id row.parentId := by
      funext x
      by_cases hx : x = row.id
      · rw [hx, Function.update_self]
        exact parent_of_mem hunique (by rw [hfiles]; simp)
      · rw [Function.update_of_ne hx, Tree.parent, hfiles, List.find?_append, Tree.parent]
        have hnone : [row].find? (fun f => f.id = x) = none := by simp [Ne.symm hx]
        rw [hnone, Option.or_none]
    rw [hparent']
    refine h.acyclic.insert (fun x hx => ?_) (fun hself => ?_)
    · obtain ⟨f, hf, -, hp⟩ := parent_eq_some hx
      obtain ⟨-, g, hg, hid, -⟩ := Tree.isFolder_iff.mp (h.parents f hf _ hp)
      exact hfresh g hg hid
    · obtain ⟨-, g, hg, hid, -⟩ := Tree.isLiveFolder_iff.mp (hparent row.id hself)
      exact hfresh g hg hid
  · rw [hfiles, List.mem_append, List.mem_singleton] at hf hg
    rcases hg with hg | rfl
    · rcases hf with hf | rfl
      · exact h.trash f hf g hg hfg htrashed
      · -- the parent of the new row is live
        obtain ⟨-, g', hg', hid, -, hlive'⟩ := Tree.isLiveFolder_iff.mp (hparent g.id hfg)
        rw [eq_of_id h.unique hg' hg hid, htrashed] at hlive'
        cases hlive'
    · rw [hlive] at htrashed
      cases htrashed

/-- Rewriting rows in place, without closing a trashed row over a live one. -/
theorem rewrite {assign : FileEntry → FileEntry} (h : Tidy t) (hid : ∀ f, (assign f).id = f.id)
    (huser : ∀ f, (assign f).userId = f.userId) (hparent : ∀ f, (assign f).parentId = f.parentId)
    (htrash : ∀ f ∈ t.files, ∀ g ∈ t.files, f.parentId = some g.id → (assign g).isTrashed = true →
      (assign f).isTrashed = true) : Tidy (t.withFiles (t.files.map assign)) where
  unique := unique_map hid h.unique
  parents f' hf' x hx := by
    obtain ⟨f, hf, rfl⟩ := List.mem_map.mp hf'
    rw [hparent] at hx
    rw [huser]
    exact isFolder_map hid huser (h.parents f hf x hx)
  acyclic := by
    have hp : (t.withFiles (t.files.map assign)).parent = t.parent := by
      funext x
      rw [parent_map hid, Tree.parent]
      exact congrArg _ (funext hparent)
    rw [hp]
    exact h.acyclic
  trash f' hf' g' hg' hfg htrashed := by
    obtain ⟨f, hf, rfl⟩ := List.mem_map.mp hf'
    obtain ⟨g, hg, rfl⟩ := List.mem_map.mp hg'
    rw [hparent, hid] at hfg
    exact htrash f hf g hg hfg htrashed

/-- **Emptying a trash** takes with a row what is below it. -/
theorem deleteTrashed (h : Tidy t) (user : String) : Tidy (t.deleteTrashed user) where
  unique := h.unique.sublist (List.filter_sublist.map _)
  parents f hf x hx := by
    obtain ⟨hf, hkept⟩ := List.mem_filter.mp hf
    rw [Bool.not_eq_true'] at hkept
    obtain ⟨hmem, g, hg, rfl, huser⟩ := Tree.isFolder_iff.mp (h.parents f hf x hx)
    -- were the parent deleted, the row would be as well
    have hgkept : t.emptied user g.id = false := by
      by_contra hgone
      rw [Bool.not_eq_false] at hgone
      obtain ⟨r, hr, hall⟩ := List.any_eq_true.mp hgone
      simp only [Bool.and_eq_true, decide_eq_true_eq] at hall
      have hbelow : t.emptied user f.id = true := by
        refine List.any_eq_true.mpr ⟨r, hr, ?_⟩
        simp only [Bool.and_eq_true, decide_eq_true_eq]
        exact ⟨hall.1, hall.2.trans (.of_parent (by rw [parent_of_mem h.unique hf]; exact hx))⟩
      rw [hkept] at hbelow
      cases hbelow
    exact Tree.isFolder_iff.mpr ⟨List.mem_filter.mpr ⟨hmem, by rw [hgkept]; rfl⟩, g,
      List.mem_filter.mpr ⟨hg, by rw [hgkept]; rfl⟩, rfl, huser⟩
  acyclic := by
    refine h.acyclic.mono fun x y hxy => ?_
    obtain ⟨f, hf, rfl, hp⟩ := parent_eq_some hxy
    rw [parent_of_mem h.unique (List.mem_filter.mp hf).1]
    exact hp
  trash f hf g hg := h.trash f (List.mem_filter.mp hf).1 g (List.mem_filter.mp hg).1

/-- **A move to a folder of the same user that is not below the row**, and not into the trash unless
the row is in it. -/
theorem move (h : Tidy t) (hf : f ∈ t.files) {target : Option String} (now : ℤ)
    (htarget : ∀ x ∈ target, t.isFolder f.userId x = true ∧ ¬ Anc t.parent f.id x)
    (htrash : ∀ g ∈ t.files, target = some g.id → g.isTrashed = true → f.isTrashed = true) :
    Tidy (t.updateOwned f.userId f.id fun r => { r with parentId := target, updatedAt := now }) := by
  set assign : FileEntry → FileEntry := fun r =>
    if r.id = f.id ∧ r.userId = f.userId then { r with parentId := target, updatedAt := now } else r
    with hassign
  change Tidy (t.withFiles (t.files.map assign))
  have hid : ∀ r, (assign r).id = r.id := fun r => by rw [hassign]; dsimp only; split <;> rfl
  have huser : ∀ r, (assign r).userId = r.userId := fun r => by rw [hassign]; dsimp only; split <;> rfl
  have htrashed : ∀ r, (assign r).isTrashed = r.isTrashed := fun r => by
    rw [hassign]; dsimp only; split <;> rfl
  have hmoved : (assign f).parentId = target := by rw [hassign]; dsimp only; rw [if_pos ⟨rfl, rfl⟩]
  have hother : ∀ r ∈ t.files, r ≠ f → (assign r).parentId = r.parentId := fun r hr hne => by
    rw [hassign]; dsimp only
    rw [if_neg fun hrf => hne (eq_of_id h.unique hr hf hrf.1)]
  have hunique := unique_map hid h.unique
  refine ⟨hunique, fun r' hr' x hx => ?_, ?_, fun r' hr' g' hg' hrg hgtrashed => ?_⟩
  · obtain ⟨r, hr, rfl⟩ := List.mem_map.mp hr'
    rw [huser]
    by_cases hrf : r = f
    · rw [hrf, hmoved] at hx
      rw [hrf]
      exact isFolder_map hid huser (htarget x hx).1
    · rw [hother r hr hrf] at hx
      exact isFolder_map hid huser (h.parents r hr x hx)
  · have hparent : (t.withFiles (t.files.map assign)).parent =
        Function.update t.parent f.id target := by
      funext x
      by_cases hx : x = f.id
      · rw [hx, Function.update_self, ← hid f, parent_of_mem hunique (List.mem_map_of_mem hf), hmoved]
      · rw [Function.update_of_ne hx, parent_map hid, Tree.parent]
        cases hfind : t.files.find? fun r => r.id = x with
        | none => rfl
        | some r =>
          have hrid : r.id = x := by simpa using List.find?_some hfind
          exact hother r (List.mem_of_find?_eq_some hfind) fun hrf => hx (hrid ▸ hrf ▸ rfl)
    rw [hparent]
    cases target with
    | none => exact h.acyclic.detach f.id
    | some x => exact h.acyclic.reparent (htarget x rfl).2
  · obtain ⟨r, hr, rfl⟩ := List.mem_map.mp hr'
    obtain ⟨g, hg, rfl⟩ := List.mem_map.mp hg'
    rw [htrashed] at hgtrashed ⊢
    rw [hid] at hrg
    by_cases hrf : r = f
    · rw [hrf, hmoved] at hrg
      rw [hrf]
      exact htrash g hg hrg hgtrashed
    · rw [hother r hr hrf] at hrg
      exact h.trash r hr g hg hrg hgtrashed

end Tidy

/-! ## Requests that keep it -/

/-- A row as it is trashed. -/
def trashed (now : ℤ) (f : FileEntry) : FileEntry := { f with isTrashed := true, updatedAt := now }

/-- The trashing of these of the user's rows. -/
def Tree.trashAll (t : Tree) (now : ℤ) (user : String) (ids : List String) : Tree :=
  t.withFiles (t.files.map fun f => if f.id ∈ ids ∧ f.userId = user then trashed now f else f)

/-- Each child of one of the user's rows among these is trashed or among them. -/
def TakesChildren (t : Tree) (user : String) (ids : List String) : Prop :=
  ∀ f ∈ t.files, f.userId = user → f.id ∈ ids → ∀ g ∈ t.files, g.parentId = some f.id →
    g.isTrashed = true ∨ g.id ∈ ids

section Requests

variable (d : Deployment) (p : Platform)

/-- A row that is added goes into a live folder of its user's, or into none; so does one that is
moved, and not below itself (a trashed one may go to a trashed folder); a folder is trashed after its
children or with them; and a row is restored where its parent is not in the trash. -/
def Careful (t : Tree) (user : String) (c : Call) : TreeRequest → Prop
  | .createFolder name parentId => ∀ n ∈ folderName name,
      t.store.accepts (newFolder c user parentId n) = true →
      ∀ x ∈ truthy parentId, t.isLiveFolder user x = true
  | .upload form => ∀ file ∈ form.file, CanUpload d p.sha256 c user form t.store file →
      ∀ x ∈ truthy form.parentId, t.isLiveFolder user x = true
  | .uploadShare r form => ∀ share ∈ t.store.share r.token, ∀ file ∈ form.file,
      CanShareUpload p c r form t.store share file →
      t.isLiveFolder share.userId share.fileId = true
  | .initResumable body => ∀ name ∈ truthy body.name, ∀ size ∈ body.sizeBytes,
      d.quotaColumn = true →
      (t.store.quota user).any (fun quota => quota < t.store.usedBytes user + size) = false →
      t.store.accepts (resumableRow c user body name size) = true →
      ∀ x ∈ truthy body.parentId, t.isLiveFolder user x = true
  | .trash fileId => TakesChildren t user [fileId]
  | .bulkDelete ids => TakesChildren t user ids
  | .move fileId target => ∀ f ∈ t.files, f.id = fileId → f.userId = user →
      ∀ x ∈ truthy target, (t.files.any fun g => g.id = x) = true →
      (t.isLiveFolder user x = true ∨ f.isTrashed = true ∧ t.isFolder user x = true) ∧
        ¬ Anc t.parent fileId x
  | .restore itemId => ∀ f ∈ t.files, f.id = itemId → f.userId = user →
      ∀ g ∈ t.files, f.parentId = some g.id → g.isTrashed = false
  | .rename _ _ | .emptyTrash | .createShare _ _ | .revokeShare _ => True

end Requests

section Wp

variable {d : Deployment} {p : Platform} {t : Tree} {user : String} {c : Call}

@[simp] theorem wp_onStore {α : Type} {x : Handler α} {Q : α → Tree → Prop}
    {E : Refusal → Tree → Prop} : wp (onStore x) Q E t ↔
      wp x (fun a s => Q a { t with store := s }) (fun e s => E e { t with store := s }) t.store := by
  unfold wp onStore
  cases x t.store <;> rfl

/-- A refused upload leaves no row. -/
theorem uploadFile_refused {sha256 : Bytes → String} {form : UploadForm} :
    wp (uploadFile d sha256 c user form) (fun _ _ => True) (fun _ s => s.files = t.files) t.store := by
  have hput : ∀ bytes, (afterPut d c user bytes t.store).files = t.files := fun bytes => by
    rw [afterPut]
    split <;> rfl
  simp only [uploadFile, checkQuota, wp_bind, wp_okOr, wp_ensure, wp_get, wp_modify, wp_insertFile,
    wp_pure, imp_true_iff, and_true, true_and]
  exact fun file _ _ _ _ => hput file.bytes

theorem uploadShare_refused {r : ShareRequest} {form : UploadForm} :
    wp (uploadShare p c r form) (fun _ _ => True) (fun _ s => s.files = t.files) t.store := by
  simp only [uploadShare, wp_bind, wp_okOr, wp_ensure, wp_get, wp_insertFile, wp_pure, imp_true_iff,
    and_true]

theorem createShare_files {sc : ShareCall} {body : CreateShareBody} :
    wp (createShare p sc user body) (fun _ s => s.files = t.files) (fun _ s => s.files = t.files)
      t.store := by
  simp only [createShare, wp_bind, wp_get, wp_okOr, wp_ensure, wp_set, wp_pure, imp_true_iff, and_true]

@[simp] theorem wp_trashFile {fileId : String} {Q : Unit → Tree → Prop} {E : Refusal → Tree → Prop} :
    wp (trashFile c user fileId) Q E t ↔ Q () (t.trashAll c.now user [fileId]) := by
  rw [trashFile, wp_modify, Tree.updateOwned, Tree.trashAll]
  simp only [List.mem_singleton, trashed]

/-- One row after the other, all of them are trashed. -/
@[simp] theorem wp_bulkDelete {ids : List String} {Q : Unit → Tree → Prop}
    {E : Refusal → Tree → Prop} :
    wp (bulkDelete c user ids) Q E t ↔ Q () (t.trashAll c.now user ids) := by
  induction ids generalizing t with
  | nil => simp [bulkDelete, Tree.trashAll, Tree.withFiles]
  | cons id ids ih =>
    rw [bulkDelete, wp_bind, wp_trashFile, ih]
    have htwice : (t.trashAll c.now user [id]).trashAll c.now user ids =
        t.trashAll c.now user (id :: ids) := by
      simp only [Tree.trashAll, Tree.withFiles]
      congr 2
      change (t.files.map _).map _ = _
      rw [List.map_map]
      refine List.map_congr_left fun f _ => ?_
      simp only [Function.comp_apply, List.mem_singleton, List.mem_cons]
      by_cases hid : f.id = id <;> by_cases huser : f.userId = user <;> simp [hid, huser, trashed]
    rw [htwice]

end Wp

/-! ## Steps -/

section Steps

variable {d : Deployment} {p : Platform} {t : Tree} {user : String} {c : Call}

theorem Tidy.trashAll (h : Tidy t) {ids : List String} (hok : TakesChildren t user ids) (now : ℤ) :
    Tidy (t.trashAll now user ids) := by
  refine h.rewrite (fun f => ?_) (fun f => ?_) (fun f => ?_) (fun f hf g hg hfg htrashed => ?_)
  · split <;> rfl
  · split <;> rfl
  · split <;> rfl
  · split
    · rfl
    · rename_i hnot
      split at htrashed
      · -- the parent is trashed by this request, and so the child is or was
        rename_i hmem
        rcases hok g hg hmem.2 hmem.1 f hf hfg with hf' | hf'
        · exact hf'
        · obtain ⟨-, g', hg', hid, huser⟩ := Tree.isFolder_iff.mp (h.parents f hf g.id hfg)
          rw [eq_of_id h.unique hg' hg hid] at huser
          exact absurd ⟨hf', huser.symm.trans hmem.2⟩ hnot
      · exact h.trash f hf g hg hfg htrashed

/-- **A careful request keeps the tree tidy.** -/
theorem Tidy.step (h : Tidy t) {request : TreeRequest} (hok : Careful d p t user c request) :
    Tidy (treeStep d p t ⟨user, c, request⟩) := by
  have hsame : ∀ s : Store, s.files = t.files → Tidy { t with store := s } := fun s hs =>
    h.congr hs (List.Subset.refl _)
  suffices hwp : wp (serve d p ⟨user, c, request⟩) (fun _ => Tidy) (fun _ => Tidy) t from hwp.leaves
  cases request with
  | createFolder name parentId =>
    simp only [serve, createFolder, wp_discard, wp_bind, wp_okOr, wp_onStore, wp_insertFile, wp_modify,
      wp_pure]
    refine ⟨fun n hn => ⟨fun haccepts => ?_, fun _ => hsame _ rfl⟩, fun _ => h⟩
    exact h.insert haccepts rfl (fun x hx => hok n hn haccepts x hx) rfl
      (List.subset_append_left _ _)
  | upload form =>
    rw [serve, wp_discard, wp_onStore]
    refine wp_of (wp_uploadFile.mpr fun file hcan => ?_)
      (wp_mono uploadFile_refused (fun _ _ _ => trivial) fun _ s hs => hsame s hs)
    have hput : (afterPut d c user file.bytes t.store).files = t.files := by
      rw [afterPut]
      split <;> rfl
    exact h.insert hcan.accepts rfl (hok file hcan.sent hcan)
      (congrArg (· ++ [uploadRow d p.sha256 c user form file]) hput) (List.Subset.refl _)
  | uploadShare r form =>
    rw [serve, wp_discard, wp_onStore]
    refine wp_of (wp_uploadShare.mpr fun share file hcan => ?_)
      (wp_mono uploadShare_refused (fun _ _ _ => trivial) fun _ s hs => hsame s hs)
    refine h.insert hcan.accepts rfl (fun x hx => ?_) rfl (List.Subset.refl _)
    obtain rfl : share.fileId = x := Option.some.inj hx
    exact hok share hcan.found file hcan.sent hcan
  | initResumable body =>
    simp only [serve, initResumable, checkQuota, wp_discard, wp_onStore, wp_bind, wp_okOr,
      wp_adaptExcept, wp_ensure, wp_get, wp_insertFile, wp_pure, Bool.not_eq_true']
    refine ⟨fun name hname => ⟨fun size hsize => ⟨fun hcolumn => ⟨fun hroom => ⟨fun haccepts => ?_,
      fun _ => h⟩, fun _ => h⟩, fun _ => h⟩, fun _ => h⟩, fun _ => h⟩
    exact h.insert haccepts rfl (hok name hname size hsize hcolumn hroom haccepts) rfl
      (List.Subset.refl _)
  | rename fileId name =>
    simp only [serve, renameFile, wp_bind, wp_okOr, wp_modify]
    refine ⟨fun n _ => h.rewrite (fun f => ?_) (fun f => ?_) (fun f => ?_) fun f hf g hg hfg => ?_,
      fun _ => h⟩
    · split <;> rfl
    · split <;> rfl
    · split <;> rfl
    · intro htrashed
      have hlook : ∀ r : FileEntry, (if r.id = fileId ∧ r.userId = user then
          { r with name := trim isSpace n, updatedAt := c.now } else r).isTrashed = r.isTrashed :=
        fun r => by split <;> rfl
      rw [hlook] at htrashed ⊢
      exact h.trash f hf g hg hfg htrashed
  | trash fileId => exact wp_trashFile.mpr (h.trashAll hok c.now)
  | bulkDelete ids => exact wp_bulkDelete.mpr (h.trashAll hok c.now)
  | move fileId target =>
    simp only [serve, moveFile, wp_bind, wp_get, wp_ensure, wp_modify, Bool.or_eq_true]
    refine ⟨fun hexists => ?_, fun _ => h⟩
    by_cases howned : ∃ f ∈ t.files, f.id = fileId ∧ f.userId = user
    · obtain ⟨f, hf, rfl, rfl⟩ := howned
      have hany : (!t.files.any fun g => g.id = f.id && g.userId = f.userId) = false := by
        rw [Bool.not_eq_false', List.any_eq_true]
        exact ⟨f, hf, by simp⟩
      rw [hany] at hexists
      have hall := hexists.resolve_left Bool.false_ne_true
      have hx : ∀ x ∈ truthy target, (t.files.any fun g => g.id = x) = true := fun x hx => by
        rw [hx] at hall
        exact hall
      refine h.move hf c.now (fun x hxt => ?_) (fun g hg hgt hgtrashed => ?_)
      · obtain ⟨hlive | ⟨-, hfolder⟩, hbelow⟩ := hok f hf rfl rfl x hxt (hx x hxt)
        · obtain ⟨hmem, r, hr, hid, huser, -⟩ := Tree.isLiveFolder_iff.mp hlive
          exact ⟨Tree.isFolder_iff.mpr ⟨hmem, r, hr, hid, huser⟩, hbelow⟩
        · exact ⟨hfolder, hbelow⟩
      · obtain ⟨hlive | ⟨hf', -⟩, -⟩ := hok f hf rfl rfl g.id hgt (hx g.id hgt)
        · obtain ⟨-, r, hr, hid, -, hrlive⟩ := Tree.isLiveFolder_iff.mp hlive
          rw [eq_of_id h.unique hr hg hid, hgtrashed] at hrlive
          cases hrlive
        · exact hf'
    · -- no row of the user's has the id
      have hid : (t.files.map fun f => if f.id = fileId ∧ f.userId = user then
          { f with parentId := truthy target, updatedAt := c.now } else f) = t.files := by
        refine (List.map_congr_left fun f hf => ?_).trans (List.map_id _)
        exact if_neg fun hf' => howned ⟨f, hf, hf'⟩
      exact h.congr hid (List.Subset.refl _)
  | restore itemId =>
    refine h.rewrite (fun f => ?_) (fun f => ?_) (fun f => ?_) fun f hf g hg hfg htrashed => ?_
    · split <;> rfl
    · split <;> rfl
    · split <;> rfl
    · have hgtrashed : g.isTrashed = true := by
        split at htrashed
        · cases htrashed
        · exact htrashed
      split
      · rename_i hrow
        rw [hok f hf hrow.1 hrow.2 g hg hfg] at hgtrashed
        cases hgtrashed
      · exact h.trash f hf g hg hfg hgtrashed
  | emptyTrash => exact h.deleteTrashed user
  | createShare sc body =>
    rw [serve, wp_discard, wp_onStore]
    exact wp_mono createShare_files (fun _ s hs => hsame s hs) (fun _ s hs => hsame s hs)
  | revokeShare shareId =>
    exact hsame _ rfl

theorem tidy_empty (users : List (String × QuotaRow)) (nodes : List StorageNode) :
    Tidy (Tree.empty users nodes) where
  unique := List.nodup_nil
  parents f hf := absurd hf List.not_mem_nil
  acyclic x n h := by cases h
  trash f hf := absurd hf List.not_mem_nil

end Steps

/-! ## Runs -/

/-- **The tree is in order in every state of a run of careful requests.** -/
theorem inOrder_of_run (d : Deployment) (p : Platform) (users : List (String × QuotaRow))
    (nodes : List StorageNode) (es : List TreeEvent)
    (h : Along (fun t e => Careful d p t e.user e.call e.request) (treeStep d p)
      (.empty users nodes) es) :
    InOrder d p (run (treeStep d p) (.empty users nodes) es) :=
  (h.invariant (P := Tidy) (fun _ _ ht hok => ht.step hok) (tidy_empty users nodes)).inOrder

section Decide

variable {d : Deployment} {p : Platform} {t : Tree} {user : String} {c : Call}

deriving instance DecidableEq for UploadedFile

instance {sha256 : Bytes → String} {form : UploadForm} {s : Store} {file : UploadedFile} :
    Decidable (CanUpload d sha256 c user form s file) :=
  decidable_of_iff (form.file = some file ∧ d.quotaColumn = true ∧
      (s.quota user).any (fun quota => quota < s.usedBytes user + file.bytes.length) = false ∧
      s.accepts (uploadRow d sha256 c user form file) = true)
    ⟨fun h => ⟨h.1, h.2.1, h.2.2.1, h.2.2.2⟩, fun h => ⟨h.sent, h.column, h.room, h.accepts⟩⟩

instance {r : ShareRequest} {form : UploadForm} {s : Store} {share : Share} {file : UploadedFile} :
    Decidable (CanShareUpload p c r form s share file) :=
  decidable_of_iff (s.share r.token = some share ∧ share.isUploadRequest = true ∧
      share.expired p c.now = false ∧ share.opens p (r.uploadPassword form) = true ∧
      form.file = some file ∧ s.accepts (shareRow p.sha256 c share file) = true)
    ⟨fun h => ⟨h.1, h.2.1, h.2.2.1, h.2.2.2.1, h.2.2.2.2.1, h.2.2.2.2.2⟩,
      fun h => ⟨h.found, h.isRequest, h.unexpired, h.opens, h.sent, h.accepts⟩⟩

instance {ids : List String} : Decidable (TakesChildren t user ids) :=
  inferInstanceAs (Decidable (∀ f ∈ t.files, f.userId = user → f.id ∈ ids →
    ∀ g ∈ t.files, g.parentId = some f.id → g.isTrashed = true ∨ g.id ∈ ids))

instance (request : TreeRequest) : Decidable (Careful d p t user c request) := by
  cases request <;> (unfold Careful; infer_instance)

end Decide

namespace Sample

def deployment : Deployment := ⟨false, true, true⟩

def users : List (String × QuotaRow) := [("alice", ⟨none, 1000⟩), ("bob", ⟨none, 1000⟩)]

def start : Tree := .empty users []

def sent (user : String) (now : ℤ) (id : String) (request : TreeRequest) : TreeEvent :=
  ⟨user, ⟨now, id, 0⟩, request⟩

def hello : UploadForm := ⟨some ⟨"hello.txt", "text/plain", [0x68, 0x69]⟩, some "A", none, none⟩

/-- A folder with a file and a folder in it, which is moved out and put in the trash alone. -/
def tidying : List TreeEvent :=
  [sent "alice" 0 "A" (.createFolder (some "A") none),
    sent "alice" 1 "B" (.createFolder (some "B") (some "A")), sent "alice" 2 "f" (.upload hello),
    sent "alice" 3 "" (.move "B" none), sent "alice" 4 "" (.trash "B"), sent "alice" 5 "" .emptyTrash]

/-- A folder that is moved into itself. -/
def intoItself : List TreeEvent :=
  [sent "alice" 0 "A" (.createFolder (some "A") none), sent "alice" 1 "" (.move "A" (some "A"))]

/-- A folder in someone else's. -/
def intoBobs : List TreeEvent :=
  [sent "bob" 0 "B" (.createFolder (some "B") none),
    sent "alice" 1 "A" (.createFolder (some "A") (some "B"))]

/-- A folder that is put in the trash without the one in it. -/
def leftBehind : List TreeEvent :=
  [sent "alice" 0 "A" (.createFolder (some "A") none),
    sent "alice" 1 "B" (.createFolder (some "B") (some "A")), sent "alice" 2 "" (.trash "A")]

end Sample

open Noon Sample

theorem inOrder_tidying :
    (run (treeStep deployment platform) start tidying).files.map FileEntry.id = ["A", "f"] ∧
      InOrder deployment platform (run (treeStep deployment platform) start tidying) :=
  ⟨by decide, inOrder_of_run deployment platform Sample.users [] tidying (by decide)⟩

/-- **Two requests close a cycle, or put a folder in another user's; three lose a folder that was
never trashed.** -/
theorem not_inOrder :
    ¬ InOrder deployment platform (run (treeStep deployment platform) start intoItself) ∧
      ¬ InOrder deployment platform (run (treeStep deployment platform) start intoBobs) ∧
      ¬ InOrder deployment platform (run (treeStep deployment platform) start leftBehind) := by
  refine ⟨fun h => h.acyclic "A" 0 (by decide), fun h => ?_, fun h => ?_⟩
  · have hfolder := h.parents (newFolder ⟨1, "A", 0⟩ "alice" (some "B") "A") (by decide) "B"
      (by decide)
    exact absurd hfolder (by decide)
  · have hgone := h.emptying "alice" ⟨3, "", 0⟩ (newFolder ⟨1, "B", 0⟩ "alice" (some "A") "B")
      (by decide) (by decide)
    exact absurd hgone.2 (by decide)

end Pcos.Edge.Files
