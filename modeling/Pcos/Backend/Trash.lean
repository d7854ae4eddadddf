import Pcos.Backend.Isolation

/-!
# Backend/Trash — what trash collection takes with it

Emptying the trash, deleting for good and the 30-day purge delete trashed rows, and the database
deletes everything below them.  Nothing live is lost as long as nothing live lies below something
trashed.  `delete_item` trashes whole subtrees and keeps it so; `webdav_delete` and `delete_object`
trash single rows, and creating, moving and restoring do not ask whether the parent is in the trash.
-/

namespace Pcos

open Foundations

/-- The entry of that id, if there is one, is in the trash. -/
def trashedAt (t : FileTable) (x : Uuid) : Bool := (t.find? x).any FileEntry.isTrashed

/-- **The parent of a live entry is live.** -/
def LiveParents (t : FileTable) : Prop :=
  ∀ r ∈ t.rows, r.isTrashed = false → ∀ x ∈ r.parentId, trashedAt t x = false

/-- Trashing these rows leaves a live row below one of them. -/
def leavesLive (t : FileTable) (p : FileEntry → Bool) : Bool :=
  t.rows.any fun r => !r.isTrashed && !p r && r.parentId.any fun x => (t.find? x).any p

/-- **The request puts something live below something trashed**: it creates it there, moves it there,
restores it there, or trashes what is above it alone. -/
def buriesLive (w : World) (e : Event) : Bool :=
  e.request.parent.any (trashedAt w.entries) ||
  match e.request with
  | .moveItem item target =>
    (w.owned e.call.user item).any (fun r => !r.isTrashed) && target.any (trashedAt w.entries)
  | .restoreFromTrash item =>
    (w.owned e.call.user item).any fun r => r.parentId.any (trashedAt w.entries)
  | .webdavDelete path =>
    (resolvePath w e.call.user path).2.any fun target =>
      leavesLive w.entries fun r => r.id = target.id && r.userId = e.call.user
  | .deleteObject key => leavesLive w.entries (objectRows e.call.user key)
  | _ => false

section Step

variable {env : Env} {w : World} {e : Event} {r : FileEntry} {t t' : FileTable} {x : Uuid}

theorem trashedAt_of_mem (hr : r ∈ t.rows) : trashedAt t r.id = r.isTrashed := by
  rw [trashedAt, FileTable.find?_eq_some.mpr ⟨hr, rfl⟩, Option.any_some]

/-- A row that is not in the trash stays so when all rows of its id do. -/
theorem trashedAt_eq_false (h : ∀ r ∈ t.rows, r.id = x → r.isTrashed = false) :
    trashedAt t x = false := by
  cases hf : t.find? x with
  | none => rw [trashedAt, hf]; rfl
  | some r =>
    obtain ⟨hr, hid⟩ := FileTable.find?_eq_some.mp hf
    rw [trashedAt, hf, Option.any_some]
    exact h r hr hid

theorem isTrashed_of_trashedAt (h : trashedAt t x = false) (hr : r ∈ t.rows) (hid : r.id = x) :
    r.isTrashed = false := by
  rw [← hid, trashedAt_of_mem hr] at h
  exact h

/-- **Everything below something trashed is trashed.** -/
theorem LiveParents.isTrashed_of_anc (h : LiveParents t) {a : FileEntry} (ha : a ∈ t.rows)
    (htrash : a.isTrashed = true) (hr : r ∈ t.rows) (hanc : Anc t.parent a.id r.id) :
    r.isTrashed = true := by
  refine hanc.rec_down (P := fun y => ∀ r ∈ t.rows, r.id = y → r.isTrashed = true)
    (fun r' hr' hid => by rw [FileTable.eq_of_id hr' ha hid]; exact htrash)
    (fun y z hz ih r' hr' hid => ?_) r hr rfl
  by_contra hlive
  have hz' : r'.parentId = some z := by rw [← FileTable.parent_of_mem hr', hid, hz]
  obtain ⟨g, hg, hgz⟩ := FileTable.parent_mem hz
  have := isTrashed_of_trashedAt (h r' hr' (Bool.eq_false_of_not_eq_true hlive) z hz') hg hgz
  rw [ih g hg hgz] at this
  cases this

/-! ## Steps keep live parents live -/

/-- The parent of a new row is live. -/
theorem Creates.parent_live (h : Creates env w e r) (hok : buriesLive w e = false)
    (hx : x ∈ r.parentId) : trashedAt w.entries x = false := by
  rcases h.parent with ⟨hp, -⟩ | hlive
  · rw [buriesLive, Bool.or_eq_false_iff, ← hp, hx, Option.any_some] at hok
    exact hok.1
  · obtain ⟨f, hf, hid, -, -, hlive⟩ := hlive x hx
    exact hid ▸ (trashedAt_of_mem hf).trans hlive

theorem LiveParents.live (h : LiveParents t) {s : FileEntry} (hr : r ∈ t.rows) (hs : s ∈ t.rows)
    (hlive : r.isTrashed = false) (hpar : r.parentId = some s.id) : s.isTrashed = false :=
  isTrashed_of_trashedAt (h r hr hlive s.id hpar) hs rfl

/-- What an update has to do to keep live parents live, row by row. -/
theorem liveParents_update {p : FileEntry → Bool} {f : FileEntry → FileEntry}
    (ht : t.update p f = some t') (hid : ∀ r, (f r).id = r.id)
    (h : ∀ r ∈ t.rows, ∀ s ∈ t.rows, (if p r then f r else r).isTrashed = false →
      (if p r then f r else r).parentId = some s.id → (if p s then f s else s).isTrashed = false) :
    LiveParents t' := by
  intro r' hr' hlive x hx
  obtain ⟨r, hr, rfl⟩ := (FileTable.mem_update ht).mp hr'
  refine trashedAt_eq_false fun s' hs' hsx => ?_
  obtain ⟨s, hs, rfl⟩ := (FileTable.mem_update ht).mp hs'
  have hsid : (if p s then f s else s).id = s.id := by
    by_cases hp : p s
    · rw [if_pos hp, hid]
    · rw [if_neg hp]
  refine h r hr s hs hlive ?_
  rw [← hsid, hsx]
  exact hx

theorem LiveParents.rewrite {p : FileEntry → Bool} {f : FileEntry → FileEntry} (h : LiveParents t)
    (hf : KeepsPlace f) (ht : t.update p f = some t') : LiveParents t' := by
  have hkeep : ∀ r, (if p r then f r else r).isTrashed = r.isTrashed
      ∧ (if p r then f r else r).parentId = r.parentId := by
    intro r
    by_cases hp : p r
    · rw [if_pos hp]
      exact ⟨hf.isTrashed r, hf.parentId r⟩
    · rw [if_neg hp]
      exact ⟨rfl, rfl⟩
  refine liveParents_update ht hf.id fun r hr s hs => ?_
  rw [(hkeep r).1, (hkeep r).2, (hkeep s).1]
  exact h.live hr hs

theorem LiveParents.move (h : LiveParents w.entries) {item : Uuid} {target : Option Uuid}
    (hreq : e.request = .moveItem item target) (hown : (w.owned e.call.user item).isSome)
    (ht : w.entries.update (fun r => r.id = item)
      (fun r => { r with parentId := target, updatedAt := e.call.now }) = some t)
    (hok : buriesLive w e = false) : LiveParents t := by
  refine liveParents_update ht (fun _ => rfl) fun r hr s hs => ?_
  have hkeep : ∀ r : FileEntry, (if decide (r.id = item) then
      { r with parentId := target, updatedAt := e.call.now } else r).isTrashed = r.isTrashed := by
    intro r
    by_cases hp : r.id = item <;> simp [hp]
  rw [hkeep r, hkeep s]
  intro hlive hpar
  by_cases hp : r.id = item
  · rw [if_pos (decide_eq_true hp)] at hpar
    obtain ⟨entry, hentry⟩ := Option.isSome_iff_exists.mp hown
    obtain ⟨hmem, hid, -⟩ := World.owned_eq_some.mp hentry
    obtain rfl := FileTable.eq_of_id hr hmem (hp.trans hid.symm)
    -- the target is not in the trash, since the item is not
    have hpar : target = some s.id := hpar
    simp only [buriesLive, hreq, Request.parent, Option.any_none, Bool.false_or, hentry, hlive,
      hpar, Option.any_some, Bool.not_false, Bool.true_and] at hok
    exact isTrashed_of_trashedAt hok hs rfl
  · rw [if_neg (by simpa using hp)] at hpar
    exact h.live hr hs hlive hpar

/-- Trashing rows keeps live parents live, if no live row is left below one of them. -/
theorem LiveParents.trash {p : FileEntry → Bool} (h : LiveParents t) (time : FileEntry → Option ℤ)
    (now : ℤ)
    (ht : t.update p (fun r => { r with isTrashed := true, trashedAt := time r, updatedAt := now })
      = some t')
    (hok : ∀ r ∈ t.rows, r.isTrashed = false → p r = false → ∀ s ∈ t.rows,
      r.parentId = some s.id → p s = false) : LiveParents t' := by
  refine liveParents_update ht (fun _ => rfl) fun r hr s hs hlive hpar => ?_
  by_cases hp : p r
  · rw [if_pos hp] at hlive
    cases hlive
  · rw [if_neg hp] at hlive hpar
    rw [if_neg (Bool.not_eq_true _ ▸ hok r hr hlive (Bool.eq_false_of_not_eq_true hp) s hs hpar)]
    exact h.live hr hs hlive hpar

theorem not_leavesLive {p : FileEntry → Bool} (h : leavesLive t p = false) :
    ∀ r ∈ t.rows, r.isTrashed = false → p r = false → ∀ s ∈ t.rows,
      r.parentId = some s.id → p s = false := by
  intro r hr hlive hp s hs hpar
  have := List.any_eq_false.mp h r hr
  rw [hlive, hp, hpar, Option.any_some, FileTable.find?_eq_some.mpr ⟨hs, rfl⟩, Option.any_some] at this
  simpa using this

/-- The query goes down from row to row. -/
theorem mem_descendants_of_parent {user item : Uuid} {ids : List Uuid}
    (hids : t.descendants user item = some ids) {s : FileEntry} (hr : r ∈ t.rows)
    (hpar : r.parentId = some s.id) (hs : s.id ∈ ids) : r.id ∈ ids := by
  rw [FileTable.mem_descendants hids] at hs ⊢
  refine ⟨hs.1.trans (.of_parent ?_), hs.2⟩
  rw [FileTable.parent_of_mem hr, hpar]

theorem LiveParents.trashes (h : LiveParents w.entries) {p : FileEntry → Bool} (hp : Trashes w e p)
    (time : FileEntry → Option ℤ)
    (ht : w.entries.update p
      (fun r => { r with isTrashed := true, trashedAt := time r, updatedAt := e.call.now }) = some t)
    (hok : buriesLive w e = false) : LiveParents t := by
  refine h.trash time e.call.now ht ?_
  cases hp with
  | item hreq hown hids =>
    intro r hr _ hp s _ hpar
    have := mem_descendants_of_parent hids hr hpar
    grind
  | path hreq htarget =>
    refine not_leavesLive ?_
    simpa only [buriesLive, hreq, Request.parent, Option.any_none, Bool.false_or, htarget,
      Option.any_some] using hok
  | object hreq =>
    refine not_leavesLive ?_
    simpa only [buriesLive, hreq, Request.parent, Option.any_none, Bool.false_or] using hok

/-- Restoring an item whose parent is not in the trash keeps live parents live. -/
theorem LiveParents.restore (h : LiveParents w.entries) {item : Uuid} {ids : List Uuid}
    (hreq : e.request = .restoreFromTrash item) (hown : (w.owned e.call.user item).isSome)
    (hids : w.entries.descendants e.call.user item = some ids)
    (ht : w.entries.update (fun r => r.id ∈ ids)
      (fun r => { r with isTrashed := false, trashedAt := none, updatedAt := e.call.now }) = some t)
    (hok : buriesLive w e = false) : LiveParents t := by
  refine liveParents_update ht (fun _ => rfl) fun r hr s hs hlive hpar => ?_
  by_cases hps : s.id ∈ ids
  · rw [if_pos (decide_eq_true hps)]
  rw [if_neg (by simpa using hps)]
  by_cases hpr : r.id ∈ ids
  · rw [if_pos (decide_eq_true hpr)] at hpar
    have hpar : r.parentId = some s.id := hpar
    obtain ⟨hanc, hitem⟩ := (FileTable.mem_descendants hids).mp hpr
    rcases anc_iff.mp hanc with rfl | ⟨y, hy, hy'⟩
    · -- the item itself: its parent is not in the trash
      obtain ⟨entry, hentry⟩ := Option.isSome_iff_exists.mp hown
      obtain ⟨hmem, hid, -⟩ := World.owned_eq_some.mp hentry
      obtain rfl := FileTable.eq_of_id hr hmem hid.symm
      simp only [buriesLive, hreq, Request.parent, Option.any_none, Bool.false_or, hentry, hpar,
        Option.any_some] at hok
      exact isTrashed_of_trashedAt hok hs rfl
    · -- a row below it: its parent is restored with it
      rw [FileTable.parent_of_mem hr, hpar, Option.some.injEq] at hy
      exact absurd ((FileTable.mem_descendants hids).mpr ⟨hy ▸ hy', hitem⟩) hps
  · rw [if_neg (by simpa using hpr)] at hlive hpar
    exact h.live hr hs hlive hpar

/-- **A step that buries nothing live keeps live parents live.** -/
theorem LiveParents.rowChange (h : LiveParents w.entries) (hc : RowChange env w e t)
    (hok : buriesLive w e = false) : LiveParents t := by
  cases hc with
  | same => exact h
  | insert hr ht =>
    have hkeep : ∀ x, trashedAt w.entries x = false → trashedAt t x = false := fun x hx =>
      trashedAt_eq_false fun s hs hsx => by
        rcases (FileTable.mem_insert ht).mp hs with hs | rfl
        · exact isTrashed_of_trashedAt hx hs hsx
        · exact hr.spec.2.2
    exact FileTable.forall_insert ht (fun r hr hlive x hx => hkeep x (h r hr hlive x hx))
      fun _ x hx => hkeep x (hr.parent_live hok hx)
  | rewrite hf ht => exact h.rewrite hf ht
  | move hreq hown htarget hne ht => exact h.move hreq hown ht hok
  | trash hp time ht => exact h.trashes hp time ht hok
  | restore hreq hown hids ht => exact h.restore hreq hown hids ht hok
  | delete hp =>
    intro r hr hlive x hx
    refine trashedAt_eq_false fun s hs hsx => ?_
    exact isTrashed_of_trashedAt (h r (FileTable.mem_delete.mp hr).1 hlive x hx)
      (FileTable.mem_delete.mp hs).1 hsx

/-! ## What is removed -/

/-- The rows that are deleted, and all below them, are trashed. -/
theorem LiveParents.isTrashed_of_deletes (h : LiveParents w.entries) {p q : FileEntry → Bool}
    (hp : Deletes w e p q) {a : FileEntry} (ha : a ∈ w.entries.rows) (hpa : p a = true) :
    a.isTrashed = true := by
  cases hp with
  | item hreq hentry htrash hids =>
    obtain ⟨hmem, rfl, -⟩ := World.owned_eq_some.mp hentry
    obtain ⟨hanc, -⟩ := (FileTable.mem_descendants hids).mp (of_decide_eq_true hpa)
    exact h.isTrashed_of_anc hmem htrash ha hanc
  | trash hreq =>
    rw [Bool.and_eq_true] at hpa
    exact hpa.2
  | purge hreq =>
    rw [Bool.and_eq_true] at hpa
    exact hpa.1

/-- **A row that a step removes was trashed.** -/
theorem LiveParents.isTrashed_of_removed (h : LiveParents w.entries) (hc : RowChange env w e t)
    (hr : r ∈ w.entries.rows) (hgone : ∀ r' ∈ t.rows, r'.id ≠ r.id) : r.isTrashed = true := by
  have hupdate : ∀ {p f}, w.entries.update p f = some t → (∀ r, (f r).id = r.id) →
      r.isTrashed = true := by
    intro p f ht hid
    refine absurd ?_ (hgone _ ((FileTable.mem_update ht).mpr ⟨r, hr, rfl⟩))
    by_cases hp : p r
    · rw [if_pos hp, hid]
    · rw [if_neg hp]
  cases hc with
  | same => exact absurd rfl (hgone r hr)
  | insert hr' ht => exact absurd rfl (hgone r ((FileTable.mem_insert ht).mpr (Or.inl hr)))
  | rewrite hf ht => exact hupdate ht hf.id
  | move hreq hown htarget hne ht => exact hupdate ht fun _ => rfl
  | trash hp time ht => exact hupdate ht fun _ => rfl
  | restore hreq hown hids ht => exact hupdate ht fun _ => rfl
  | delete hp =>
    by_contra hlive
    refine hgone r (FileTable.mem_delete.mpr ⟨hr, fun a ha hanc => ?_⟩) rfl
    by_contra hpa
    have htrash := h.isTrashed_of_deletes hp ha (Bool.eq_true_of_not_eq_false hpa)
    exact hlive (h.isTrashed_of_anc ha htrash hr hanc)

end Step

/-! ## Runs -/

/-- No live entry has a trashed one above it, and every entry that a request or the purge removes is
trashed at that moment. -/
structure TrashSafe (env : Env) (w : World) : Prop where
  ancestors : ∀ r ∈ w.entries.rows, r.isTrashed = false → ∀ a ∈ w.entries.rows,
    Anc w.entries.parent a.id r.id → a.isTrashed = false
  removed : ∀ e, ∀ r ∈ w.entries.rows,
    (∀ r' ∈ (step env w e).entries.rows, r'.id ≠ r.id) → r.isTrashed = true

/-- **Trash collection destroys nothing live in a run that buries nothing live.** -/
theorem trashSafe_of_run (env : Env) (columns : List Column) (users : Uuid → Option ℤ)
    (es : List Event)
    (h : Along (fun w e => buriesLive w e = false) (step env) (.empty columns users) es) :
    TrashSafe env (run (step env) (.empty columns users) es) := by
  have hinv := h.invariant (P := fun w => LiveParents w.entries)
    (fun w e hw hok => hw.rowChange (step_change env w e).rows hok)
    (fun r hr => absurd hr List.not_mem_nil)
  refine ⟨fun r hr hlive a ha hanc => ?_, fun e r hr => ?_⟩
  · by_contra htrash
    have := hinv.isTrashed_of_anc ha (Bool.eq_true_of_not_eq_false htrash) hr hanc
    rw [hlive] at this
    cases this
  · exact hinv.isTrashed_of_removed (step_change env _ e).rows hr

open Sample

/-- A folder with a file, trashed as a whole. -/
def trashFolder : List Event :=
  [sent alice 0 id1 (.createFolder none "A"),
    sent alice 1 id2 (.uploadFile (some id1) "f" "text/plain" [0x61]),
    sent alice 2 id3 (.deleteItem id1)]

theorem trashSafe_trashFolder :
    (run (step env) start trashFolder).entries.rows.map FileEntry.isTrashed = [true, true]
      ∧ TrashSafe env (run (step env) start trashFolder) :=
  ⟨by decide, trashSafe_of_run env migratedColumns users trashFolder (by decide)⟩

/-- The folder trashed over WebDAV: the file in it stays live. -/
def trashFolderOverWebDav : List Event :=
  [sent alice 0 id1 (.createFolder none "A"),
    sent alice 1 id2 (.uploadFile (some id1) "f" "text/plain" [0x61]),
    sent alice 2 id3 (.webdavDelete "A")]

/-- **Emptying the trash now removes the live file** along with the folder. -/
theorem not_trashSafe_trashFolderOverWebDav :
    Along Fresh (step env) start trashFolderOverWebDav
      ∧ ¬ TrashSafe env (run (step env) start trashFolderOverWebDav) := by
  refine ⟨by decide, fun h => ?_⟩
  let f := newFile ⟨alice, 1, id2, tmp, 0⟩ (some id1) "f" (some "text/plain") 1
    (some (knownSha256 [0x61])) (filePath alice id2)
  have hf : f ∈ (run (step env) start trashFolderOverWebDav).entries.rows := by decide
  have hgone : ∀ r' ∈ (step env (run (step env) start trashFolderOverWebDav)
      (sent alice 3 id3 .emptyTrash)).entries.rows, r'.id ≠ f.id := by decide
  exact absurd (h.removed _ f hf hgone) (by decide)

end Pcos
