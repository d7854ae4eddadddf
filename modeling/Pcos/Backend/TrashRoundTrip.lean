import Pcos.Backend.Change

/-!
# Backend/TrashRoundTrip — into the trash and back (`delete_item`, `restore_from_trash`)

Both handlers set one flag on an entry and on all that is below it, and a key of the table has the flag
in it.  So an entry cannot be trashed while something of its name is in the trash beside it; and what
had been trashed on its own before comes back with the folder.
-/

namespace Pcos

open Foundations

/-! ## Setting the flag -/

/-- Two entries of one user, parent and name. -/
def Twins (r s : FileEntry) : Prop :=
  r.userId = s.userId ∧ r.parentId = s.parentId ∧ r.name = s.name

instance (r s : FileEntry) : Decidable (Twins r s) := inferInstanceAs (Decidable (_ ∧ _ ∧ _))

theorem Twins.symm {r s : FileEntry} (h : Twins r s) : Twins s r :=
  ⟨h.1.symm, h.2.1.symm, h.2.2.symm⟩

theorem key_eq_iff {r s : FileEntry} : r.key = s.key ↔ Twins r s ∧ r.isTrashed = s.isTrashed := by
  simp only [FileEntry.key, Prod.mk.injEq, Twins, and_assoc]

/-- The rows of a table with one key are one row. -/
theorem FileTable.eq_of_key {t : FileTable} {r s : FileEntry} (hr : r ∈ t.rows) (hs : s ∈ t.rows)
    (h : r.key = s.key) : r = s :=
  List.inj_on_of_nodup_map t.valid.uq hr hs h

/-- The entry, timestamps aside. -/
def FileEntry.untimed (r : FileEntry) : FileEntry := { r with trashedAt := none, updatedAt := 0 }

/-- A rewriting that puts rows in the trash, or takes them out of it. -/
structure SetsFlag (flag : Bool) (f : FileEntry → FileEntry) : Prop where
  flagged : ∀ r, (f r).isTrashed = flag
  keeps : ∀ r, { (f r).untimed with isTrashed := r.isTrashed } = r.untimed

section SetsFlag

variable {t t' : FileTable} {flag : Bool} {f : FileEntry → FileEntry} {p : FileEntry → Bool}

theorem SetsFlag.id (hf : SetsFlag flag f) (r : FileEntry) : (f r).id = r.id := by
  have h := congrArg FileEntry.id (hf.keeps r)
  exact h

theorem SetsFlag.parentId (hf : SetsFlag flag f) (r : FileEntry) : (f r).parentId = r.parentId := by
  have h := congrArg FileEntry.parentId (hf.keeps r)
  exact h

theorem SetsFlag.fits (hf : SetsFlag flag f) {r : FileEntry} (hr : r.Fits) : (f r).Fits := by
  have hname := congrArg FileEntry.name (hf.keeps r)
  have hmime := congrArg FileEntry.mimeType (hf.keeps r)
  have hhash := congrArg FileEntry.sha256Hash (hf.keeps r)
  dsimp only [FileEntry.untimed] at hname hmime hhash
  rw [FileEntry.Fits, hname, hmime, hhash]
  exact hr

theorem SetsFlag.twins_iff (hf : SetsFlag flag f) {r s : FileEntry} :
    Twins (f r) s ↔ Twins r s := by
  have huser := congrArg FileEntry.userId (hf.keeps r)
  have hparent := congrArg FileEntry.parentId (hf.keeps r)
  have hname := congrArg FileEntry.name (hf.keeps r)
  dsimp only [FileEntry.untimed] at huser hparent hname
  rw [Twins, Twins, huser, hparent, hname]

/-- The rewriting of the rows that satisfy `p`. -/
def rewriteWhere (p : FileEntry → Bool) (f : FileEntry → FileEntry) (r : FileEntry) : FileEntry :=
  if p r then f r else r

theorem SetsFlag.id_where (hf : SetsFlag flag f) (r : FileEntry) :
    (rewriteWhere p f r).id = r.id := by
  unfold rewriteWhere
  split
  · exact hf.id r
  · rfl

theorem SetsFlag.parentId_where (hf : SetsFlag flag f) (r : FileEntry) :
    (rewriteWhere p f r).parentId = r.parentId := by
  unfold rewriteWhere
  split
  · exact hf.parentId r
  · rfl

theorem SetsFlag.twins_where (hf : SetsFlag flag f) {r s : FileEntry} :
    Twins (rewriteWhere p f r) (rewriteWhere p f s) ↔ Twins r s := by
  have hleft : ∀ r s, Twins (rewriteWhere p f r) s ↔ Twins r s := fun r s => by
    unfold rewriteWhere
    split
    · exact hf.twins_iff
    · exact Iff.rfl
  exact (hleft r _).trans ⟨fun h => ((hleft s r).mp h.symm).symm, fun h => ((hleft s r).mpr h.symm).symm⟩

theorem SetsFlag.isTrashed_where (hf : SetsFlag flag f) (r : FileEntry) :
    (rewriteWhere p f r).isTrashed = if p r then flag else r.isTrashed := by
  unfold rewriteWhere
  split
  · exact hf.flagged r
  · rfl

/-- No row that is not flagged yet has a twin that is. -/
def NoTwin (t : FileTable) (flag : Bool) (p : FileEntry → Bool) : Prop :=
  ∀ r ∈ t.rows, p r = true → r.isTrashed ≠ flag → ∀ s ∈ t.rows, s.isTrashed = flag → ¬ Twins r s

theorem SetsFlag.eq_of_key (hf : SetsFlag flag f) (h : NoTwin t flag p) {r s : FileEntry}
    (hr : r ∈ t.rows) (hs : s ∈ t.rows)
    (hkey : (rewriteWhere p f r).key = (rewriteWhere p f s).key) : r = s := by
  obtain ⟨htwins, hflags⟩ := key_eq_iff.mp hkey
  rw [hf.twins_where] at htwins
  rw [hf.isTrashed_where, hf.isTrashed_where] at hflags
  -- of two twins that differ before and not afterwards, one was flagged and the other is now
  have hone : ∀ r ∈ t.rows, ∀ s ∈ t.rows, Twins r s → r.isTrashed ≠ flag → s.isTrashed = flag →
      (if p r then flag else r.isTrashed) = (if p s then flag else s.isTrashed) → r = s := by
    intro r hr s hs htwins hne heq hflags
    rw [heq, ite_self] at hflags
    split at hflags
    · rename_i hp
      exact absurd htwins (h r hr hp hne s hs heq)
    · exact absurd hflags hne
  by_cases hsame : r.isTrashed = s.isTrashed
  · exact FileTable.eq_of_key hr hs (key_eq_iff.mpr ⟨htwins, hsame⟩)
  · by_cases hflag : s.isTrashed = flag
    · exact hone r hr s hs htwins (fun h => hsame (h.trans hflag.symm)) hflag hflags
    · have hr' : r.isTrashed = flag := by
        revert hsame hflag
        cases r.isTrashed <;> cases s.isTrashed <;> cases flag <;> simp
      exact (hone s hs r hr htwins.symm hflag hr' hflags.symm).symm

/-- **Rows can be flagged exactly if none has a twin that is flagged already.** -/
theorem SetsFlag.update_isSome_iff (hf : SetsFlag flag f) :
    (t.update p f).isSome ↔ NoTwin t flag p := by
  constructor
  · intro h r hr hp hne s hs hflag htwins
    obtain ⟨t', ht⟩ := Option.isSome_iff_exists.mp h
    have hmem : ∀ r ∈ t.rows, rewriteWhere p f r ∈ t'.rows := fun r hr =>
      (FileTable.mem_update ht).mpr ⟨r, hr, rfl⟩
    -- afterwards both have one key, and they are two rows
    have hkey : (rewriteWhere p f r).key = (rewriteWhere p f s).key := by
      rw [key_eq_iff, hf.twins_where, hf.isTrashed_where, hf.isTrashed_where, if_pos hp, hflag,
        ite_self]
      exact ⟨htwins, rfl⟩
    have hid := congrArg FileEntry.id (FileTable.eq_of_key (hmem r hr) (hmem s hs) hkey)
    rw [hf.id_where, hf.id_where] at hid
    exact hne (FileTable.eq_of_id hr hs hid ▸ hflag)
  · intro h
    have hids : (t.rows.map (rewriteWhere p f)).map FileEntry.id = t.rows.map FileEntry.id := by
      rw [List.map_map]
      exact List.map_congr_left fun r _ => hf.id_where r
    have hvalid : Valid (t.rows.map (rewriteWhere p f)) := by
      refine ⟨hids ▸ t.valid.pk, fun r' hr' y hy => ?_, ?_, fun r' hr' => ?_⟩
      · obtain ⟨r, hr, rfl⟩ := List.mem_map.mp hr'
        rw [hf.parentId_where] at hy
        rw [hids]
        exact t.valid.fk r hr y hy
      · rw [List.map_map]
        exact List.Nodup.map_on (fun r hr s hs hkey => hf.eq_of_key h hr hs hkey)
          (List.Nodup.of_map _ t.valid.pk)
      · obtain ⟨r, hr, rfl⟩ := List.mem_map.mp hr'
        unfold rewriteWhere
        split
        · exact hf.fits (t.valid.fits r hr)
        · exact t.valid.fits r hr
    have hcommit : t.update p f = some ⟨_, hvalid⟩ := FileTable.commit_of_valid hvalid
    rw [hcommit]
    rfl

end SetsFlag

/-! ## The query -/

/-- The entry lies below itself, so that the query for it does not end. -/
def BelowItself (t : FileTable) (x : Uuid) : Prop := ∃ y, t.parent x = some y ∧ Anc t.parent x y

section Query

variable {t : FileTable} {r : FileEntry} {user x : Uuid} {ids : List Uuid}

theorem belowItself_iff : BelowItself t x ↔ ∃ n, up t.parent (n + 1) x = some x := by
  constructor
  · rintro ⟨y, hy, n, hn⟩
    exact ⟨n, Option.bind_eq_some_iff.mpr ⟨y, hy, hn⟩⟩
  · rintro ⟨n, hn⟩
    obtain ⟨y, hy, hn⟩ := Option.bind_eq_some_iff.mp hn
    exact ⟨y, hy, n, hn⟩

/-- **The query for an entry ends exactly if the entry is not below itself.** -/
theorem FileTable.descendants_isSome_iff (hr : r ∈ t.rows) (huser : r.userId = user) :
    (t.descendants user r.id).isSome ↔ ¬ BelowItself t r.id := by
  constructor
  · intro h hcycle
    obtain ⟨ids, hids⟩ := Option.isSome_iff_exists.mp h
    obtain ⟨m, -, hempty, -⟩ := FileTable.descendantsLoop_spec (n := 0) hids
    obtain ⟨n, hn⟩ := belowItself_iff.mp hcycle
    -- round the cycle as often as the query has levels, it is still there
    have hlevel : r.id ∈ t.level user r.id (m * (n + 1)) :=
      FileTable.mem_level.mpr ⟨up_mul hn m, r, hr, rfl, huser⟩
    rw [FileTable.level_nil_of_le (Nat.le_mul_of_pos_right m (Nat.succ_pos n)) hempty] at hlevel
    cases hlevel
  · intro h
    refine FileTable.descendantsLoop_isSome (n := 0) (List.eq_nil_iff_forall_not_mem.mpr fun x hx => ?_)
    rw [Nat.zero_add] at hx
    have hup := (FileTable.mem_level.mp hx).1
    rw [← List.length_map (f := FileEntry.id)] at hup
    exact h (belowItself_iff.mpr
      (t.parentClosed.on_cycle (FileTable.mem_ids_of_mem_level hx) hup))

theorem FileTable.mem_ids (hr : r ∈ t.rows) (huser : r.userId = user)
    (hids : t.descendants user r.id = some ids) : x ∈ ids ↔ Anc t.parent r.id x := by
  rw [FileTable.mem_descendants hids]
  exact and_iff_left ⟨r, hr, rfl, huser⟩

end Query

/-! ## Into the trash -/

/-- What `delete_item` does to a row… -/
def trashedRow (now : ℤ) (r : FileEntry) : FileEntry :=
  { r with isTrashed := true, trashedAt := some now, updatedAt := now }

/-- …and `restore_from_trash`. -/
def restoredRow (now : ℤ) (r : FileEntry) : FileEntry :=
  { r with isTrashed := false, trashedAt := none, updatedAt := now }

theorem setsFlag_trashedRow (now : ℤ) : SetsFlag true (trashedRow now) := ⟨fun _ => rfl, fun _ => rfl⟩

theorem setsFlag_restoredRow (now : ℤ) : SetsFlag false (restoredRow now) :=
  ⟨fun _ => rfl, fun _ => rfl⟩

/-- The entry can be put in the trash, and everything below it is in the trash afterwards. -/
def GoesToTrash (w : World) (c : Call) (item : Uuid) : Prop :=
  wp (deleteItem c item)
    (fun _ w' => ∀ r ∈ w.entries.rows, Anc w.entries.parent item r.id →
      ∃ r' ∈ w'.entries.rows, r'.id = r.id ∧ r'.isTrashed = true)
    (fun _ _ => False) w

/-- The entry is not below itself, and neither it nor a live entry below it has a twin in the trash. -/
def Trashable (t : FileTable) (item : Uuid) : Prop :=
  ¬ BelowItself t item ∧ ∀ r ∈ t.rows, Anc t.parent item r.id → r.isTrashed = false →
    ∀ s ∈ t.rows, s.isTrashed = true → ¬ Twins r s

section Delete

variable {w : World} {c : Call} {item : Uuid} {r : FileEntry} {ids : List Uuid}

/-- There is a value, and it satisfies `Q`. -/
theorem exists_some_iff {α : Type} {o : Option α} {Q : α → Prop} :
    ((∀ a, o = some a → Q a) ∧ (o = none → False)) ↔ ∃ a, o = some a ∧ Q a := by
  cases o with
  | none => simp
  | some a => simp

theorem wp_deleteItem (hr : w.owned c.user item = some r) {Q : Unit → World → Prop} :
    wp (deleteItem c item) Q (fun _ _ => False) w ↔
      ∃ ids, w.entries.descendants c.user item = some ids ∧
        ∃ t, w.entries.update (fun r => r.id ∈ ids) (trashedRow c.now) = some t ∧
          Q () { w with entries := t } := by
  simp only [deleteItem, wp_bind, wp_verifyOwnership, wp_selectDescendants, wp_updateEntries,
    exists_some_iff]
  rw [hr]
  simp only [Option.some.injEq, exists_eq_left']
  exact Iff.rfl

theorem goesToTrash_of_trashable (hr : w.owned c.user item = some r)
    (h : Trashable w.entries item) : GoesToTrash w c item := by
  obtain ⟨hmem, rfl, huser⟩ := World.owned_eq_some.mp hr
  obtain ⟨hend, hnotwin⟩ := h
  obtain ⟨ids, hids⟩ :=
    Option.isSome_iff_exists.mp ((FileTable.descendants_isSome_iff hmem huser).mpr hend)
  have hin : ∀ {x}, x ∈ ids ↔ Anc w.entries.parent r.id x := FileTable.mem_ids hmem huser hids
  obtain ⟨t, ht⟩ := Option.isSome_iff_exists.mp ((setsFlag_trashedRow c.now).update_isSome_iff.mpr
    fun s hs hp hne => hnotwin s hs (hin.mp (of_decide_eq_true hp)) (Bool.eq_false_of_not_eq_true hne))
  rw [GoesToTrash, wp_deleteItem hr]
  refine ⟨ids, hids, t, ht, fun s hs hanc => ?_⟩
  exact ⟨trashedRow c.now s, (FileTable.mem_update ht).mpr
    ⟨s, hs, if_pos (decide_eq_true (hin.mpr hanc))⟩, rfl, rfl⟩

theorem trashable_of_goesToTrash (hr : w.owned c.user item = some r) (h : GoesToTrash w c item) :
    Trashable w.entries item := by
  rw [GoesToTrash, wp_deleteItem hr] at h
  obtain ⟨ids, hids, t, ht, -⟩ := h
  obtain ⟨hmem, rfl, huser⟩ := World.owned_eq_some.mp hr
  refine ⟨(FileTable.descendants_isSome_iff hmem huser).mp (by rw [hids]; rfl),
    fun s hs hanc hlive => ?_⟩
  have hnotwin := (setsFlag_trashedRow c.now).update_isSome_iff.mp (by rw [ht]; rfl)
  exact hnotwin s hs (decide_eq_true ((FileTable.mem_ids hmem huser hids).mpr hanc)) (by simp [hlive])

/-- **An entry can be put in the trash with what is below it exactly if it is not below itself and
nothing of it has a twin in the trash.** -/
theorem goesToTrash_iff (hr : w.owned c.user item = some r) :
    GoesToTrash w c item ↔ Trashable w.entries item :=
  ⟨trashable_of_goesToTrash hr, goesToTrash_of_trashable hr⟩

end Delete

open Sample

/-- A folder with a file in it. -/
def filledFolder : World := run (step env) start
  [sent alice 0 id1 (.createFolder none "A"),
    sent alice 1 id2 (.uploadFile (some id1) "f" "text/plain" [0x61])]

def later : Call := ⟨alice, 2, id3, tmp, 0⟩

theorem trashable_filledFolder : Trashable filledFolder.entries id1 := by
  have hroot : filledFolder.entries.parent id1 = none := by decide
  have hlive : ∀ s ∈ filledFolder.entries.rows, s.isTrashed = false := by decide
  refine ⟨fun ⟨y, hy, _⟩ => ?_, fun _ _ _ _ s hs htrash => ?_⟩
  · rw [hroot] at hy
    cases hy
  · rw [hlive s hs] at htrash
    cases htrash

theorem goesToTrash_filledFolder : GoesToTrash filledFolder later id1 :=
  (goesToTrash_iff (r := newFolder ⟨alice, 0, id1, tmp, 0⟩ none "A") (by decide)).mpr
    trashable_filledFolder

/-- A folder is created again after it was trashed. -/
def createdAgain : World := run (step env) start
  [sent alice 0 id1 (.createFolder none "A"), sent alice 1 id1 (.deleteItem id1),
    sent alice 2 id2 (.createFolder none "A")]

/-- **It cannot be trashed again.** -/
theorem not_goesToTrash_createdAgain :
    (createdAgain.owned alice id2).map FileEntry.isTrashed = some false
      ∧ ¬ GoesToTrash createdAgain later id2 := by
  refine ⟨by decide, fun h => ?_⟩
  have htrashable := trashable_of_goesToTrash (r := newFolder ⟨alice, 2, id2, tmp, 0⟩ none "A")
    (by decide) h
  exact htrashable.2 (newFolder ⟨alice, 2, id2, tmp, 0⟩ none "A") (by decide) (Anc.refl _) rfl
    (trashedRow 1 (newFolder ⟨alice, 0, id1, tmp, 0⟩ none "A")) (by decide) rfl ⟨rfl, rfl, rfl⟩

/-! ## …and back -/

/-- Trash an entry and restore it later. -/
def trashAndRestore (c : Call) (later : ℤ) (item : Uuid) : Handler FileEntryResponse := do
  deleteItem c item
  restoreFromTrash { c with now := later } item

/-- It works, and the live and the trashed entries are then those of before, timestamps aside. -/
def ComesBack (w : World) (c : Call) (later : ℤ) (item : Uuid) : Prop :=
  wp (trashAndRestore c later item)
    (fun _ w' => ∀ x, x ∈ w'.entries.rows.map FileEntry.untimed ↔
      x ∈ w.entries.rows.map FileEntry.untimed)
    (fun _ _ => False) w

/-- The entries are those of before, timestamps aside, but that the item and all below it are live. -/
def Revived (w : World) (item : Uuid) (w' : World) : Prop :=
  ∀ x, x ∈ w'.entries.rows.map FileEntry.untimed ↔ ∃ s ∈ w.entries.rows,
    (Anc w.entries.parent item s.id → x = { s.untimed with isTrashed := false }) ∧
      (¬ Anc w.entries.parent item s.id → x = s.untimed)

/-- The entry is not below itself, nothing of it has been trashed on its own, and it has no twin in
the trash. -/
def Restorable (t : FileTable) (r : FileEntry) : Prop :=
  ¬ BelowItself t r.id ∧ (∀ s ∈ t.rows, Anc t.parent r.id s.id → s.isTrashed = false) ∧
    ∀ s ∈ t.rows, s.isTrashed = true → ¬ Twins r s

section Restore

variable {w : World} {c : Call} {later : ℤ} {item : Uuid} {r : FileEntry} {t t' : FileTable}
  {ids : List Uuid}

theorem wp_restoreFromTrash (hr : w.owned c.user item = some r) (htrash : r.isTrashed = true)
    {Q : FileEntryResponse → World → Prop} :
    wp (restoreFromTrash c item) Q (fun _ _ => False) w ↔
      ∃ ids, w.entries.descendants c.user item = some ids ∧
        ∃ t, w.entries.update (fun r => r.id ∈ ids) (restoredRow c.now) = some t ∧
          Q (restoredRow c.now r).toResponse { w with entries := t } := by
  simp only [restoreFromTrash, wp_bind, wp_verifyOwnership, wp_ensure, wp_selectDescendants,
    wp_updateEntries, wp_pure, exists_some_iff]
  rw [hr]
  simp only [Option.some.injEq, exists_eq_left', htrash, true_imp_iff, reduceCtorEq, false_imp_iff,
    and_true]
  exact Iff.rfl

/-- Trashing what is below an entry moves nothing, so the query finds the same again. -/
theorem parent_trashed {p : FileEntry → Bool} {now : ℤ}
    (ht : t.update p (trashedRow now) = some t') : t'.parent = t.parent :=
  FileTable.parent_update ht (fun _ => rfl) fun _ => rfl

/-- A row with the parent of something below an entry is below it as well. -/
theorem anc_of_twins {s s' : FileEntry} (hr : r ∈ t.rows) (hs : s ∈ t.rows) (hs' : s' ∈ t.rows)
    (hanc : Anc t.parent r.id s.id) (htwins : Twins s s') : s = r ∨ Anc t.parent r.id s'.id := by
  rcases anc_iff.mp hanc with heq | ⟨y, hy, hanc⟩
  · exact Or.inl (FileTable.eq_of_id hs hr heq.symm)
  · have hparent : t.parent s'.id = some y := by
      rw [FileTable.parent_of_mem hs', ← htwins.2.1, ← FileTable.parent_of_mem hs, hy]
    exact Or.inr (anc_iff.mpr (Or.inr ⟨y, hparent, hanc⟩))

section Rows

variable (hr : r ∈ t.rows) (hids : ∀ x, x ∈ ids ↔ Anc t.parent r.id x) (hlive : r.isTrashed = false)

include hr hids in
/-- Nothing keeps an entry from the trash but a twin of its own, if nothing below it is trashed. -/
theorem noTwin_trash
    (hbelow : ∀ s ∈ t.rows, Anc t.parent r.id s.id → s.isTrashed = false)
    (hnotwin : ∀ s ∈ t.rows, s.isTrashed = true → ¬ Twins r s) :
    NoTwin t true fun r => decide (r.id ∈ ids) := by
  intro s hs hp _ s' hs' htrash htwins
  rcases anc_of_twins hr hs hs' ((hids s.id).mp (of_decide_eq_true hp)) htwins with rfl | hanc
  · exact hnotwin s' hs' htrash htwins
  · rw [hbelow s' hs' hanc] at htrash
    cases htrash

include hr hids hlive in
/-- **What has just been trashed has no live twin.** -/
theorem noTwin_restore {now : ℤ} (ht : t.update (fun r => r.id ∈ ids) (trashedRow now) = some t') :
    NoTwin t' false fun r => decide (r.id ∈ ids) := by
  have hflag := setsFlag_trashedRow now
  intro s' hs' hp _ u' hu' hulive htwins
  obtain ⟨s, hs, rfl⟩ := (FileTable.mem_update ht).mp hs'
  obtain ⟨u, hu, rfl⟩ := (FileTable.mem_update ht).mp hu'
  have hsin : s.id ∈ ids := by
    rw [← hflag.id_where (p := fun r => decide (r.id ∈ ids)) s]
    exact of_decide_eq_true hp
  have huout : ¬ u.id ∈ ids := fun hin => by
    rw [if_pos (decide_eq_true hin)] at hulive
    cases hulive
  rw [if_neg (by simpa using huout)] at hulive
  have htwins' : Twins s u := (hflag.twins_where (p := fun r => decide (r.id ∈ ids))).mp htwins
  rcases anc_of_twins hr hs hu ((hids s.id).mp hsin) htwins' with rfl | hanc
  · have hkey := key_eq_iff.mpr ⟨htwins', hlive.trans hulive.symm⟩
    exact huout (FileTable.eq_of_key hs hu hkey ▸ hsin)
  · exact huout ((hids u.id).mpr hanc)

/-- Trashed and restored, the rows are those there were, and live. -/
theorem untimed_rows {now : ℤ} {t₁ t₂ : FileTable}
    (ht₁ : t.update (fun r => r.id ∈ ids) (trashedRow now) = some t₁)
    (ht₂ : t₁.update (fun r => r.id ∈ ids) (restoredRow later) = some t₂) :
    t₂.rows.map FileEntry.untimed = t.rows.map fun s =>
      if s.id ∈ ids then { s.untimed with isTrashed := false } else s.untimed := by
  rw [FileTable.rows_of_update ht₂, FileTable.rows_of_update ht₁, List.map_map, List.map_map]
  refine List.map_congr_left fun s hs => ?_
  dsimp only [Function.comp_apply]
  by_cases hin : s.id ∈ ids
  · have hin' : (trashedRow now s).id ∈ ids := hin
    rw [if_pos (decide_eq_true hin), if_pos (decide_eq_true hin'), if_pos hin]
    rfl
  · have hout : (if decide (s.id ∈ ids) = true then trashedRow now s else s) = s :=
      if_neg (by simpa using hin)
    rw [hout, if_neg (by simpa using hin), if_neg hin]

include hr hlive in
/-- **What has just been trashed can be restored**, and is live then with all that is below it. -/
theorem restore_after (later : ℤ) {user : Uuid} (huser : r.userId = user) {now : ℤ}
    (hdesc : t.descendants user r.id = some ids)
    (ht : t.update (fun r => r.id ∈ ids) (trashedRow now) = some t') :
    ∃ ids', t'.descendants user r.id = some ids' ∧
      ∃ t₂, t'.update (fun r => r.id ∈ ids') (restoredRow later) = some t₂ ∧
        t₂.rows.map FileEntry.untimed = t.rows.map fun s =>
          if s.id ∈ ids then { s.untimed with isTrashed := false } else s.untimed := by
  have hids : ∀ x, x ∈ ids ↔ Anc t.parent r.id x := fun x => FileTable.mem_ids hr huser hdesc
  have hr' : trashedRow now r ∈ t'.rows :=
    (FileTable.mem_update ht).mpr ⟨r, hr, if_pos (decide_eq_true ((hids r.id).mpr (.refl _)))⟩
  have hend : ¬ BelowItself t' r.id := by
    have h := (FileTable.descendants_isSome_iff hr huser).mp (by rw [hdesc]; rfl)
    rwa [BelowItself, parent_trashed ht]
  obtain ⟨ids', hids'⟩ := Option.isSome_iff_exists.mp ((FileTable.descendants_isSome_iff hr' huser).mpr hend)
  have hsame : (fun s : FileEntry => decide (s.id ∈ ids')) = fun s => decide (s.id ∈ ids) := by
    funext s
    refine decide_eq_decide.mpr ?_
    rw [FileTable.mem_ids hr' huser hids', hids, parent_trashed ht]
    exact Iff.rfl
  obtain ⟨t₂, ht₂⟩ := Option.isSome_iff_exists.mp
    ((setsFlag_restoredRow later).update_isSome_iff.mpr (noTwin_restore hr hids hlive ht))
  exact ⟨ids', hids', t₂, by rw [hsame]; exact ht₂, untimed_rows ht ht₂⟩

end Rows

/-- After an entry was trashed it is there, in the trash. -/
theorem owned_trashed (hr : w.owned c.user item = some r)
    (hids : w.entries.descendants c.user item = some ids) {now : ℤ}
    (ht : w.entries.update (fun r => r.id ∈ ids) (trashedRow now) = some t) :
    World.owned { w with entries := t } c.user item = some (trashedRow now r) := by
  obtain ⟨hmem, rfl, huser⟩ := World.owned_eq_some.mp hr
  exact World.owned_eq_some.mpr ⟨(FileTable.mem_update ht).mpr
    ⟨r, hmem, if_pos (decide_eq_true ((FileTable.mem_ids hmem huser hids).mpr (.refl _)))⟩, rfl, huser⟩

/-- **Whenever a live entry can be trashed it can be restored right away, and the entries are then those
of before, but that all below it is live.** -/
theorem revived_of_trashed (hr : w.owned c.user item = some r) (hlive : r.isTrashed = false)
    (h : GoesToTrash w c item) :
    wp (trashAndRestore c later item) (fun _ => Revived w item) (fun _ _ => False) w := by
  rw [GoesToTrash, wp_deleteItem hr] at h
  obtain ⟨ids, hids, t, ht, -⟩ := h
  have howned := owned_trashed hr hids ht
  simp only [trashAndRestore, wp_bind]
  rw [wp_deleteItem hr]
  refine ⟨ids, hids, t, ht, (wp_restoreFromTrash (c := { c with now := later }) howned rfl).mpr ?_⟩
  obtain ⟨hmem, rfl, huser⟩ := World.owned_eq_some.mp hr
  obtain ⟨ids', hids', t', ht', hrows⟩ := restore_after hmem hlive later huser hids ht
  refine ⟨ids', hids', t', ht', fun x => ?_⟩
  dsimp only
  rw [hrows, List.mem_map]
  refine exists_congr fun s => and_congr_right fun _ => ?_
  have hin : s.id ∈ ids ↔ Anc w.entries.parent r.id s.id := FileTable.mem_ids hmem huser hids
  by_cases hanc : Anc w.entries.parent r.id s.id
  · rw [if_pos (hin.mpr hanc)]
    exact ⟨fun h => ⟨fun _ => h.symm, fun hno => absurd hanc hno⟩, fun h => (h.1 hanc).symm⟩
  · rw [if_neg fun h => hanc (hin.mp h)]
    exact ⟨fun h => ⟨fun hyes => absurd hyes hanc, fun _ => h.symm⟩, fun h => (h.2 hanc).symm⟩

/-- **An entry comes back as it was exactly if it is not below itself, nothing of it had been trashed
on its own, and it has no twin in the trash.** -/
theorem comesBack_iff (hr : w.owned c.user item = some r) :
    ComesBack w c later item ↔ Restorable w.entries r := by
  simp only [ComesBack, trashAndRestore, wp_bind]
  rw [wp_deleteItem hr]
  constructor
  · rintro ⟨ids, hids, t, ht, hrest⟩
    rw [wp_restoreFromTrash (c := { c with now := later }) (owned_trashed hr hids ht) rfl] at hrest
    obtain ⟨ids', hids', t', ht', hsame⟩ := hrest
    obtain ⟨hmem, rfl, huser⟩ := World.owned_eq_some.mp hr
    have hr' := (World.owned_eq_some.mp (owned_trashed hr hids ht)).1
    have hlive : ∀ s ∈ w.entries.rows, Anc w.entries.parent r.id s.id → s.isTrashed = false := by
      intro s hs hanc
      have hin := decide_eq_true ((FileTable.mem_ids hmem huser hids).mpr hanc)
      have hin' := decide_eq_true ((FileTable.mem_ids hr' huser hids').mpr
        (show Anc t.parent r.id s.id from parent_trashed ht ▸ hanc))
      have hs' : restoredRow later (trashedRow c.now s) ∈ t'.rows :=
        (FileTable.mem_update ht').mpr
          ⟨trashedRow c.now s, (FileTable.mem_update ht).mpr ⟨s, hs, if_pos hin⟩, if_pos hin'⟩
      obtain ⟨s₀, hs₀, heq⟩ := List.mem_map.mp ((hsame _).mp (List.mem_map_of_mem hs'))
      have hid : s₀.id = s.id := by
        have h := congrArg FileEntry.id heq
        exact h
      obtain rfl := FileTable.eq_of_id hs₀ hs hid
      exact congrArg FileEntry.isTrashed heq
    refine ⟨(FileTable.descendants_isSome_iff hmem huser).mp (by rw [hids]; rfl), hlive,
      fun s hs htrash => ?_⟩
    have hnotwin := (setsFlag_trashedRow c.now).update_isSome_iff.mp (by rw [ht]; rfl)
    exact hnotwin r hmem (decide_eq_true ((FileTable.mem_ids hmem huser hids).mpr (.refl _)))
      (by simp [hlive r hmem (.refl _)]) s hs htrash
  · rintro ⟨hend, hbelow, hnotwin⟩
    obtain ⟨hmem, rfl, huser⟩ := World.owned_eq_some.mp hr
    obtain ⟨ids, hids⟩ :=
      Option.isSome_iff_exists.mp ((FileTable.descendants_isSome_iff hmem huser).mpr hend)
    have hin : ∀ x, x ∈ ids ↔ Anc w.entries.parent r.id x := fun x => FileTable.mem_ids hmem huser hids
    obtain ⟨t, ht⟩ := Option.isSome_iff_exists.mp
      ((setsFlag_trashedRow c.now).update_isSome_iff.mpr (noTwin_trash hmem hin hbelow hnotwin))
    obtain ⟨ids', hids', t', ht', hrows⟩ :=
      restore_after hmem (hbelow r hmem (.refl _)) later huser hids ht
    refine ⟨ids, hids, t, ht, (wp_restoreFromTrash (c := { c with now := later })
      (owned_trashed hr hids ht) rfl).mpr ⟨ids', hids', t', ht', fun x => ?_⟩⟩
    -- all below was live, so making it live changes nothing
    have hsame : (w.entries.rows.map fun s =>
        if s.id ∈ ids then { s.untimed with isTrashed := false } else s.untimed)
          = w.entries.rows.map FileEntry.untimed := by
      refine List.map_congr_left fun s hs => ?_
      split
      · rename_i hmem'
        unfold FileEntry.untimed
        rw [← hbelow s hs ((hin s.id).mp hmem')]
      · rfl
    dsimp only
    rw [hrows, hsame]

end Restore

/-- The file in the folder was trashed on its own. -/
def emptied : World := step env filledFolder (sent alice 2 id3 (.deleteItem id2))

theorem revived_emptied :
    wp (trashAndRestore later 3 id1) (fun _ => Revived emptied id1) (fun _ _ => False) emptied := by
  have hroot : emptied.entries.parent id1 = none := by decide
  have hnotwin : ∀ s ∈ emptied.entries.rows, s.isTrashed = false →
      ∀ s' ∈ emptied.entries.rows, s'.isTrashed = true → ¬ Twins s s' := by decide
  have hr : emptied.owned alice id1 = some (newFolder ⟨alice, 0, id1, tmp, 0⟩ none "A") := by decide
  refine revived_of_trashed (c := later) hr rfl (goesToTrash_of_trashable (c := later) hr
    ⟨fun ⟨y, hy, _⟩ => ?_, fun s hs _ => hnotwin s hs⟩)
  rw [hroot] at hy
  cases hy

/-- **It is live again after the folder went to the trash and came back.** -/
theorem not_comesBack_emptied :
    (emptied.owned alice id1).map FileEntry.isTrashed = some false
      ∧ ¬ ComesBack emptied later 3 id1 := by
  refine ⟨by decide, fun h => ?_⟩
  have hrestorable := (comesBack_iff (r := newFolder ⟨alice, 0, id1, tmp, 0⟩ none "A")
    (by decide)).mp h
  have hlive := hrestorable.2.1 (trashedRow 2 (newFile ⟨alice, 1, id2, tmp, 0⟩ (some id1) "f"
    (some "text/plain") 1 (some (knownSha256 [0x61])) (filePath alice id2))) (by decide)
    (.of_parent (by decide))
  cases hlive

end Pcos
