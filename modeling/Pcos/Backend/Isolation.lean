import Pcos.Backend.StoragePaths

/-!
# Backend/Isolation — users and each other's entries

The recursive queries check the user at their first row only; that they stay among the rows of one
user rests on the parents.  Where a request names a parent by its id, `create_folder`, `upload_file`
and `complete_chunked_upload` check that it belongs to the user and not, as `move_item` does, that it
is a folder; `init_transfer` checks nothing.  In runs where the parents named are folders of the user,
every parent is a folder of the row's own user, and deleting and restoring stay within the user's own
rows and files.
-/

namespace Pcos

open Foundations

/-- The user has this folder. -/
def OwnFolder (t : FileTable) (user folder : Uuid) : Prop :=
  ∃ f ∈ t.rows, f.id = folder ∧ f.userId = user ∧ f.entryType = .folder

/-- **Every parent is a folder of the same user.** -/
def ParentsOwned (t : FileTable) : Prop :=
  ∀ r ∈ t.rows, ∀ x ∈ r.parentId, OwnFolder t r.userId x

/-- The request puts a new entry under something that is not a folder of the user: a file of the
user, or, for a transfer, anything else. -/
def misplacesParent (w : World) (e : Event) : Bool :=
  e.request.parent.any fun x =>
    if e.request.isInit then
      decide (transferColumns ⊆ w.columns)
        && !(w.owned e.call.user x).any fun r => r.entryType = .folder
    else (w.owned e.call.user x).any fun r => r.entryType = .file

/-- A `PUT` writes through a transfer in progress, to the file that they all share. -/
def writesPlaceholder (w : World) (e : Event) : Bool :=
  (putTarget w e).any fun r => r.storagePath = some resumableTransfer

section Step

variable {env : Env} {w w' : World} {e : Event} {r : FileEntry} {t : FileTable} {user x : Uuid}

theorem LiveFolder.ownFolder (h : LiveFolder w user x) : OwnFolder w.entries user x := by
  obtain ⟨f, hf, h1, h2, h3, -⟩ := h
  exact ⟨f, hf, h1, h2, h3⟩

theorem ownFolder_of_owned {f : FileEntry} (h : w.owned user x = some f)
    (hf : f.entryType = .folder) : OwnFolder w.entries user x := by
  obtain ⟨h1, h2, h3⟩ := World.owned_eq_some.mp h
  exact ⟨f, h1, h2, h3, hf⟩

/-- **A new row whose parent is not misplaced has a folder of the user as its parent.** -/
theorem Creates.ownFolder (h : Creates env w e r) (hok : misplacesParent w e = false)
    (hx : x ∈ r.parentId) : OwnFolder w.entries e.call.user x := by
  rcases h.parent with ⟨hp, hnamed⟩ | hlive
  · rw [misplacesParent, ← hp, hx, Option.any_some] at hok
    rcases hnamed with ⟨hinit, hown⟩ | ⟨hinit, hcol⟩
    · -- what belongs to the user and is not a file is a folder
      obtain ⟨f, hf⟩ := Option.isSome_iff_exists.mp (hown x hx)
      rw [hinit, hf] at hok
      refine ownFolder_of_owned hf ?_
      cases htype : f.entryType with
      | file => simp [htype] at hok
      | folder => rfl
    · rw [hinit, if_pos rfl, decide_eq_true hcol, Bool.true_and, Bool.not_eq_false',
        Option.any_eq_true] at hok
      obtain ⟨f, hf, hfolder⟩ := hok
      exact ownFolder_of_owned hf (of_decide_eq_true hfolder)
  · exact (hlive x hx).ownFolder

/-! ## Steps keep the parents -/

/-- An update that keeps ids, users and types and gives rows folders of their user as parents. -/
theorem ParentsOwned.update {p : FileEntry → Bool} {f : FileEntry → FileEntry}
    (h : ParentsOwned w.entries) (ht : w.entries.update p f = some t) (hid : ∀ r, (f r).id = r.id)
    (huser : ∀ r, (f r).userId = r.userId) (htype : ∀ r, (f r).entryType = r.entryType)
    (hpar : ∀ r ∈ w.entries.rows, p r = true → ∀ x ∈ (f r).parentId, OwnFolder w.entries r.userId x) :
    ParentsOwned t := by
  have hmono : ∀ u x, OwnFolder w.entries u x → OwnFolder t u x := by
    rintro u x ⟨g, hg, hgx, hgu, hgt⟩
    refine ⟨if p g then f g else g, (FileTable.mem_update ht).mpr ⟨g, hg, rfl⟩, ?_⟩
    by_cases hp : p g
    · rw [if_pos hp, hid, huser, htype]
      exact ⟨hgx, hgu, hgt⟩
    · rw [if_neg hp]
      exact ⟨hgx, hgu, hgt⟩
  refine FileTable.forall_update ht (fun r hr x hx => hmono _ _ (h r hr x hx)) fun r hr hp x hx => ?_
  rw [huser]
  exact hmono _ _ (hpar r hr hp x hx)

theorem ParentsOwned.rowChange (h : ParentsOwned w.entries) (hc : RowChange env w e t)
    (hok : misplacesParent w e = false) : ParentsOwned t := by
  cases hc with
  | same => exact h
  | insert hr ht =>
    have hmono : ∀ u x, OwnFolder w.entries u x → OwnFolder t u x := by
      rintro u x ⟨g, hg, hgx⟩
      exact ⟨g, (FileTable.mem_insert ht).mpr (Or.inl hg), hgx⟩
    refine FileTable.forall_insert ht (fun r hr x hx => hmono _ _ (h r hr x hx)) fun x hx => ?_
    rw [hr.spec.2.1]
    exact hmono _ _ (hr.ownFolder hok hx)
  | rewrite hf ht =>
    refine h.update ht hf.id hf.userId hf.entryType fun r hr _ x hx => h r hr x ?_
    rwa [← hf.parentId r]
  | move hreq hown htarget hne ht =>
    refine h.update ht (fun _ => rfl) (fun _ => rfl) (fun _ => rfl) fun r hr hp x hx => ?_
    obtain ⟨entry, hentry⟩ := Option.isSome_iff_exists.mp hown
    obtain ⟨g, hg, hfolder⟩ := htarget x hx
    rw [eq_of_owned hentry hr (of_decide_eq_true hp)]
    exact ownFolder_of_owned hg hfolder
  | trash hp time ht =>
    exact h.update ht (fun _ => rfl) (fun _ => rfl) (fun _ => rfl) fun r hr _ => h r hr
  | restore hreq hown hids ht =>
    exact h.update ht (fun _ => rfl) (fun _ => rfl) (fun _ => rfl) fun r hr _ => h r hr
  | @delete p q hp =>
    intro r hr x hx
    have hold := (FileTable.mem_delete.mp hr).1
    obtain ⟨g, hg, hgx, hgu, hgt⟩ := h r hold x hx
    obtain ⟨g', hg', hgx'⟩ := List.mem_map.mp ((w.entries.delete p).valid.fk r hr x hx)
    have hgg : g' = g :=
      FileTable.eq_of_id (FileTable.mem_delete.mp hg').1 hg (hgx'.trans hgx.symm)
    exact ⟨g, hgg ▸ hg', hgx, hgu, hgt⟩

/-- **The rows above a row belong to its user.** -/
theorem ParentsOwned.userId_of_anc (h : ParentsOwned t) {a : FileEntry} (ha : a ∈ t.rows)
    (hr : r ∈ t.rows) (hanc : Anc t.parent a.id r.id) : r.userId = a.userId := by
  refine hanc.rec_down (P := fun y => ∀ r ∈ t.rows, r.id = y → r.userId = a.userId)
    (fun r' hr' hid => by rw [FileTable.eq_of_id hr' ha hid]) (fun y z hz ih r' hr' hid => ?_) r hr rfl
  obtain ⟨g, hg, hgz, hgu, -⟩ := h r' hr' z (by rw [← FileTable.parent_of_mem hr', hid, hz]; rfl)
  rw [← hgu]
  exact ih g hg hgz

/-- The query of a user finds rows of that user only. -/
theorem ParentsOwned.userId_of_descendants (h : ParentsOwned t) {item : Uuid} {ids : List Uuid}
    (hids : t.descendants user item = some ids) (hr : r ∈ t.rows) (hmem : r.id ∈ ids) :
    r.userId = user := by
  obtain ⟨hanc, a, ha, rfl, rfl⟩ := (FileTable.mem_descendants hids).mp hmem
  exact h.userId_of_anc ha hr hanc

/-- Nothing is written to the placeholder. -/
theorem blobs_placeholder (h : w.blobs resumableTransfer = none)
    (hc : Change env w e w') (hok : writesPlaceholder w e = false) :
    w'.blobs resumableTransfer = none := by
  have htarget : ∀ {r mime data}, Overwrites env w e r mime data → resumableTransfer ≠ r.target := by
    intro r mime data hr heq
    rw [writesPlaceholder, hr.putTarget, Option.any_some, decide_eq_false_iff_not] at hok
    rw [FileEntry.target] at heq
    cases hp : r.storagePath with
    | none =>
      rw [hp] at heq
      exact filePath_ne_resumableTransfer heq.symm
    | some path =>
      rw [hp, Option.getD_some] at heq
      exact hok (by rw [hp, heq])
  cases hc with
  | store d hr ht => exact (if_neg filePath_ne_resumableTransfer.symm).trans h
  | strand d hr hno => exact (if_neg filePath_ne_resumableTransfer.symm).trans h
  | abandon ha hread => exact (if_neg tmpAsmPath_ne_resumableTransfer.symm).trans h
  | overwrite hr ht => exact (if_neg (htarget hr)).trans h
  | overwriteOnly hr ht => exact (if_neg (htarget hr)).trans h
  | delete hp v hv =>
    change (if _ then none else w.blobs resumableTransfer) = none
    rw [h, ite_self]
  | finalize d => exact (if_neg filePath_ne_resumableTransfer.symm).trans h
  | mismatch d => exact (if_neg filePath_ne_resumableTransfer.symm).trans h
  | _ => exact h

/-! ## What the trash requests of a user leave alone -/

/-- Deleting, restoring and deleting for good. -/
def Request.isTrashing : Request → Bool
  | .deleteItem _ => true
  | .restoreFromTrash _ => true
  | .permanentDelete _ => true
  | _ => false

/-- The file lies in the user's directory or is that of an entry of the user. -/
def BlobOf (w : World) (user : Uuid) (path : String) : Prop :=
  InDirOf user path ∨ ∃ r ∈ w.entries.rows, r.userId = user ∧ r.storagePath = some path

/-- An update of one user's rows leaves the others' alone. -/
theorem mem_update_of_userId_ne {p : FileEntry → Bool} {f : FileEntry → FileEntry}
    (ht : w.entries.update p f = some t) (huser : ∀ r, (f r).userId = r.userId)
    (hp : ∀ r ∈ w.entries.rows, p r = true → r.userId = user) (hr : r.userId ≠ user) :
    r ∈ t.rows ↔ r ∈ w.entries.rows := by
  rw [FileTable.mem_update ht]
  constructor
  · rintro ⟨r', hr', rfl⟩
    by_cases hp' : p r'
    · rw [if_pos hp', huser] at hr
      exact absurd (hp r' hr' hp') hr
    · rwa [if_neg hp']
  · exact fun hmem => ⟨r, hmem, if_neg fun hp' => hr (hp r hmem hp')⟩

/-- …and so does a deletion below one user's row. -/
theorem ParentsOwned.mem_delete_of_userId_ne (h : ParentsOwned w.entries) {p : FileEntry → Bool}
    (hp : ∀ r ∈ w.entries.rows, p r = true → r.userId = user) (hr : r.userId ≠ user) :
    r ∈ (w.entries.delete p).rows ↔ r ∈ w.entries.rows := by
  rw [FileTable.mem_delete]
  refine ⟨fun hmem => hmem.1, fun hmem => ⟨hmem, fun a ha hanc => ?_⟩⟩
  by_contra hpa
  exact hr ((h.userId_of_anc ha hmem hanc).trans (hp a ha (Bool.eq_true_of_not_eq_false hpa)))

/-- **The trash requests of a user change no row of another.** -/
theorem ParentsOwned.rows_of_isTrashing (h : ParentsOwned w.entries)
    (hreq : e.request.isTrashing = true) (hc : Change env w e w') (hr : r.userId ≠ e.call.user) :
    r ∈ w'.entries.rows ↔ r ∈ w.entries.rows := by
  have hids : ∀ {item ids}, w.entries.descendants e.call.user item = some ids →
      ∀ r ∈ w.entries.rows, decide (r.id ∈ ids) = true → r.userId = e.call.user :=
    fun hids r hr hp => h.userId_of_descendants hids hr (of_decide_eq_true hp)
  cases hc with
  | insert hr' => cases hr' <;> simp [*, Request.isTrashing] at hreq
  | store d hr' => cases hr' <;> simp [*, Request.isTrashing] at hreq
  | overwrite hr' => cases hr' <;> simp [*, Request.isTrashing] at hreq
  | relabel d hreq' =>
    cases hq : e.request <;> simp [hq, Request.isTrashing, Request.relabels] at hreq hreq'
  | move hreq' => rw [hreq'] at hreq; cases hreq
  | trash hp time ht =>
    cases hp with
    | item hreq' hown hd => exact mem_update_of_userId_ne ht (fun _ => rfl) (hids hd) hr
    | path hreq' => rw [hreq'] at hreq; cases hreq
    | object hreq' => rw [hreq'] at hreq; cases hreq
  | restore hreq' hown hd ht => exact mem_update_of_userId_ne ht (fun _ => rfl) (hids hd) hr
  | delete hp v hv =>
    cases hp with
    | item hreq' hentry htrash hd => exact h.mem_delete_of_userId_ne (hids hd) hr
    | trash hreq' => rw [hreq'] at hreq; cases hreq
    | purge hreq' => rw [hreq'] at hreq; cases hreq
  | flatten hreq' => rw [hreq'] at hreq; cases hreq
  | finalize d hreq' => rw [hreq'] at hreq; cases hreq
  | version hreq' => rw [hreq'] at hreq; cases hreq
  | _ => exact Iff.rfl

/-- **…and no file of another.** -/
theorem ParentsOwned.blobs_of_isTrashing (h : ParentsOwned w.entries) (hs : Shaped w)
    (hplace : w.blobs resumableTransfer = none) (hreq : e.request.isTrashing = true)
    (hc : Change env w e w') {path : String} (hu : user ≠ e.call.user) (hpath : BlobOf w user path) :
    w'.blobs path = w.blobs path := by
  have hno : e.request.writesContent = false := by
    cases hq : e.request <;> simp [hq, Request.isTrashing, Request.writesContent] at hreq ⊢
  rcases hc.blobs hno with hsame | ⟨p, q, hdel, hdrop⟩
  · rw [hsame]
  rw [hdrop]
  cases hdel with
  | trash hreq' => rw [hreq'] at hreq; cases hreq
  | purge hreq' => rw [hreq'] at hreq; cases hreq
  | @item item ids entry hreq' hentry htrash hd =>
    by_cases hph : path = resumableTransfer
    · subst hph
      change (if _ then none else w.blobs resumableTransfer) = _
      rw [hplace, ite_self]
    refine if_neg fun hmem => hu ?_
    -- the file would be that of a row of the caller, and lie in the caller's directory
    obtain ⟨r, hr, hrp⟩ := List.mem_filterMap.mp hmem
    obtain ⟨hr, hin⟩ := List.mem_filter.mp hr
    have huser := h.userId_of_descendants hd hr (of_decide_eq_true hin)
    have hdir := ((hs.paths r hr path hrp).resolve_right fun hp => hph hp.1).inDirOf
    rw [huser] at hdir
    rcases hpath with hdir' | ⟨r', hr', rfl, hrp'⟩
    · exact hdir'.user_eq hdir
    · exact ((hs.paths r' hr' path hrp').resolve_right fun hp => hph hp.1).inDirOf.user_eq hdir

end Step

/-! ## Runs -/

/-- Every parent is a folder of the row's user, and the trash requests of a user change no row and
no file of another. -/
structure TenantsIsolated (env : Env) (w : World) : Prop where
  parents : ParentsOwned w.entries
  rows : ∀ e, e.request.isTrashing = true → ∀ r, r.userId ≠ e.call.user →
    (r ∈ (step env w e).entries.rows ↔ r ∈ w.entries.rows)
  blobs : ∀ e, e.request.isTrashing = true → ∀ user ≠ e.call.user, ∀ path, BlobOf w user path →
    (step env w e).blobs path = w.blobs path

/-- **Users are isolated in every state of a run whose new entries go under folders of their user**,
and which writes nothing through a transfer in progress. -/
theorem tenantsIsolated_of_run (env : Env) (columns : List Column) (users : Uuid → Option ℤ)
    (es : List Event)
    (h : Along (fun w e => misplacesParent w e = false ∧ writesPlaceholder w e = false) (step env)
      (.empty columns users) es) :
    TenantsIsolated env (run (step env) (.empty columns users) es) := by
  have hinv := h.invariant
    (P := fun w => ParentsOwned w.entries ∧ w.blobs resumableTransfer = none)
    (fun w e hw hok => ⟨hw.1.rowChange (step_change env w e).rows hok.1,
      blobs_placeholder hw.2 (step_change env w e) hok.2⟩)
    ⟨fun r hr => absurd hr List.not_mem_nil, rfl⟩
  have hs := shaped_run env columns users es
  exact ⟨hinv.1, fun e hreq r hr => hinv.1.rows_of_isTrashing hreq (step_change env _ e) hr,
    fun e hreq user hu path hpath =>
      hinv.1.blobs_of_isTrashing hs hinv.2 hreq (step_change env _ e) hu hpath⟩

open Sample

/-- Two users with a file in a folder each; one of them deletes the folder for good. -/
def deleteOwnFolder : List Event :=
  [sent alice 0 id1 (.createFolder none "A"),
    sent alice 1 id2 (.uploadFile (some id1) "f" "text/plain" [0x61]),
    sent bob 2 id3 (.uploadFile none "f" "text/plain" [0x62]),
    sent alice 3 tmp (.deleteItem id1)]

theorem tenantsIsolated_deleteOwnFolder :
    (run (step env) start deleteOwnFolder).entries.rows.map FileEntry.isTrashed
        = [true, true, false]
      ∧ TenantsIsolated env (run (step env) start deleteOwnFolder) :=
  ⟨by decide, tenantsIsolated_of_run env migratedColumns users deleteOwnFolder (by decide)⟩

/-- A file, and a folder created under it. -/
def folderInFile : List Event :=
  [sent alice 0 id1 (.uploadFile none "f" "text/plain" [0x61]),
    sent alice 1 id2 (.createFolder (some id1) "x")]

/-- **The parent of the folder is a file.** -/
theorem not_tenantsIsolated_folderInFile :
    Along Fresh (step env) start folderInFile
      ∧ ¬ TenantsIsolated env (run (step env) start folderInFile) := by
  refine ⟨by decide, fun h => ?_⟩
  have hfolder : newFolder ⟨alice, 1, id2, tmp, 0⟩ (some id1) "x"
      ∈ (run (step env) start folderInFile).entries.rows := by decide
  obtain ⟨f, hf, hid, -, htype⟩ := h.parents _ hfolder id1 rfl
  have hfile : ∀ f ∈ (run (step env) start folderInFile).entries.rows, f.id = id1 →
      f.entryType = .file := by decide
  rw [hfile f hf hid] at htype
  cases htype

end Pcos
