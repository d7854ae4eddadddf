import Pcos.Backend.Change

/-!
# Backend/StoragePaths — no two entries share a file

`storage_path` is a string column that six requests write.  Each of them writes a path made of the
row's own user and id, with one exception: a transfer in progress holds a placeholder, the same for
all.  But `init_transfer` inserts its row with a column `is_favorite` that no migration creates, so
on the migrated schema its `INSERT` is refused and there are no transfers; nor does anything insert a
version that an entry could be pointed at.  Hence distinct entries have distinct files.
-/

namespace Pcos

open Foundations

/-- The path is one that the row's user and id determine. -/
def OwnPath (r : FileEntry) (path : String) : Prop :=
  path = filePath r.userId r.id ∨ path = flatPath r.userId r.id

/-- **Every path is the row's own**, or the placeholder of a transfer where there can be one. -/
structure Shaped (w : World) : Prop where
  versions : w.versions = []
  paths : ∀ r ∈ w.entries.rows, ∀ path ∈ r.storagePath,
    OwnPath r path ∨ path = resumableTransfer ∧ .isFavorite ∈ w.columns

theorem OwnPath.id_eq {r r' : FileEntry} {path : String} (h : OwnPath r path)
    (h' : OwnPath r' path) : r.id = r'.id := by
  rcases h with rfl | rfl <;> rcases h' with h' | h'
  · exact (filePath_inj h').2
  · exact absurd h' filePath_ne_flatPath
  · exact absurd h'.symm filePath_ne_flatPath
  · exact (flatPath_inj h').2

theorem OwnPath.ne_resumableTransfer {r : FileEntry} {path : String} (h : OwnPath r path) :
    path ≠ resumableTransfer := by
  rcases h with rfl | rfl
  · exact filePath_ne_resumableTransfer
  · exact flatPath_ne_resumableTransfer

theorem not_ownPath_tmpAsmPath {r : FileEntry} {user file tmp : Uuid} :
    ¬ OwnPath r (tmpAsmPath user file tmp) := by
  rintro (heq | heq)
  · exact filePath_ne_tmpAsmPath heq.symm
  · exact flatPath_ne_tmpAsmPath heq.symm

theorem OwnPath.inDirOf {r : FileEntry} {path : String} (h : OwnPath r path) :
    InDirOf r.userId path := by
  rcases h with rfl | rfl
  · exact inDirOf_filePath _ _
  · exact inDirOf_flatPath _ _

section Step

variable {env : Env} {w w' : World} {e : Event} {r r' : FileEntry}

theorem shaped_empty (columns : List Column) (users : Uuid → Option ℤ) :
    Shaped (.empty columns users) :=
  ⟨rfl, fun _ h => absurd h List.not_mem_nil⟩

/-- The file that a `PUT` writes is the entry's own, too. -/
theorem Shaped.target (h : Shaped w) (hr : r ∈ w.entries.rows) :
    OwnPath r r.target ∨ r.target = resumableTransfer ∧ .isFavorite ∈ w.columns := by
  unfold FileEntry.target
  cases hp : r.storagePath with
  | none => exact Or.inl (Or.inl rfl)
  | some path => exact h.paths r hr path hp

/-- The path that a row has of its own is no other row's. -/
theorem OwnPath.eq {path : String} (h : OwnPath r path) (h' : OwnPath r' path)
    (hr : r ∈ w.entries.rows) (hr' : r' ∈ w.entries.rows) : r = r' :=
  FileTable.eq_of_id hr hr' (h.id_eq h')

/-- The row of an id that the user owns. -/
theorem eq_of_owned {item : Uuid} {entry : FileEntry} (hentry : w.owned e.call.user item = some entry)
    (hr : r ∈ w.entries.rows) (hid : r.id = item) : r.userId = e.call.user := by
  obtain ⟨h1, h2, h3⟩ := World.owned_eq_some.mp hentry
  rw [FileTable.eq_of_id hr h1 (hid.trans h2.symm)]
  exact h3

/-- **Every step keeps the shape of the paths.** -/
theorem Shaped.change (h : Shaped w) (hc : Change env w e w') : Shaped w' := by
  refine ⟨hc.versions h.versions, ?_⟩
  rw [hc.columns]
  have hkeep : ∀ {p : FileEntry → Bool} {f : FileEntry → FileEntry} {t : FileTable},
      w.entries.update p f = some t → (∀ r, (f r).id = r.id) → (∀ r, (f r).userId = r.userId) →
      (∀ r, (f r).storagePath = r.storagePath) → ∀ r ∈ t.rows, ∀ path ∈ r.storagePath,
        OwnPath r path ∨ path = resumableTransfer ∧ .isFavorite ∈ w.columns := by
    intro p f t ht hid huser hpath
    refine FileTable.forall_update ht h.paths fun r hr _ path hp => ?_
    unfold OwnPath
    rw [hid, huser]
    exact h.paths r hr path (by rwa [← hpath r])
  cases hc with
  | same => exact h.paths
  | chunks d => exact h.paths
  | insert hr ht =>
    refine FileTable.forall_insert ht h.paths ?_
    intro path hp
    cases hr with
    | transfer hreq hquota hsize hcol =>
      exact Or.inr ⟨(Option.some.inj hp).symm, hcol (by decide)⟩
    | _ => cases hp
  | store d hr ht =>
    refine FileTable.forall_insert ht h.paths ?_
    intro path hp
    obtain ⟨hid, huser, -⟩ := (show Creates env w e _ from .inr ⟨_, _, hr⟩).spec
    rw [hr.spec.1] at hp
    exact Or.inl (Or.inl (by rw [hid, huser]; exact (Option.some.inj hp).symm))
  | strand d hr hno => exact h.paths
  | abandon ha hread => exact h.paths
  | @overwrite r mime data t hr ht =>
    refine FileTable.forall_update ht h.paths fun r' hr' hp path hpath => ?_
    rw [Bool.and_eq_true, decide_eq_true_eq] at hp
    obtain rfl : path = r.target := (Option.some.inj hpath).symm
    obtain rfl := FileTable.eq_of_id hr' hr.spec.1 hp.1
    have htarget := h.target hr'
    exact htarget
  | overwriteOnly hr ht => exact h.paths
  | relabel d hreq hf ht =>
    refine hkeep ht ?_ ?_ ?_ <;> intro r <;> obtain ⟨name, time, hr⟩ := hf r <;> rw [hr]
  | move hreq hown htarget hne ht => exact hkeep ht (fun _ => rfl) (fun _ => rfl) fun _ => rfl
  | trash hp time ht => exact hkeep ht (fun _ => rfl) (fun _ => rfl) fun _ => rfl
  | restore hreq hown hids ht => exact hkeep ht (fun _ => rfl) (fun _ => rfl) fun _ => rfl
  | delete hp v hv => exact fun r hr => h.paths r (FileTable.mem_delete.mp hr).1
  | flatten hreq hfile hentry hchunks ht =>
    refine FileTable.forall_update ht h.paths fun r hr hp path hpath => ?_
    have hid := of_decide_eq_true hp
    obtain rfl := Option.some.inj hpath
    exact Or.inl (Or.inr (by rw [hid, eq_of_owned hentry hr hid]))
  | finalize d hreq hfile hentry hchunks hread ht =>
    refine FileTable.forall_update ht h.paths fun r hr hp path hpath => ?_
    have hid := of_decide_eq_true hp
    obtain rfl := Option.some.inj hpath
    exact Or.inl (Or.inl (by rw [hid, eq_of_owned hentry hr hid]))
  | mismatch d hreq hfile hentry hchunks hread hhash => exact h.paths
  | version hreq hown hv hvf ht => exact absurd hv (by rw [h.versions]; exact List.not_mem_nil)

/-- **Distinct entries have distinct files**, transfers in progress apart. -/
theorem Shaped.target_ne (h : Shaped w) (hcol : .isFavorite ∉ w.columns) (hr : r ∈ w.entries.rows)
    (hr' : r' ∈ w.entries.rows) (hne : r.id ≠ r'.id) : r.target ≠ r'.target := by
  intro heq
  have hown := (h.target hr).resolve_right fun hp => hcol hp.2
  have hown' := (h.target hr').resolve_right fun hp => hcol hp.2
  exact hne (OwnPath.id_eq hown (heq ▸ hown'))

/-- The entry that a `PUT` writes through. -/
def putTarget (w : World) (e : Event) : Option FileEntry :=
  match e.request with
  | .webdavPut path _ _ => (resolvePath w e.call.user path).2
  | .putObject key _ _ => limitOne e.call.scan (liveFiles w e.call.user (entryName key))
  | _ => none

theorem isPut_of_relabels (h : e.request.relabels = true) : e.request.isPut = false := by
  cases hreq : e.request <;> simp [hreq, Request.relabels, Request.isPut] at h ⊢

theorem Overwrites.putTarget {mime : Option String} {data : Bytes}
    (h : Overwrites env w e r mime data) : putTarget w e = some r := by
  cases h with
  | put hreq hr => rw [Pcos.putTarget, hreq]; exact hr
  | object hreq hr => rw [Pcos.putTarget, hreq]; exact hr

/-- What a `PUT` does to the files: it writes that of its entry, or a new one. -/
theorem blobs_of_isPut (hput : e.request.isPut = true) (hc : Change env w e w') {path : String}
    (htarget : ∀ r, putTarget w e = some r → path ≠ r.target)
    (hnew : path ≠ filePath e.call.user e.call.newId) : w'.blobs path = w.blobs path := by
  cases hc with
  | store d hr ht => exact if_neg hnew
  | strand d hr hno => exact if_neg hnew
  | abandon ha hread => cases ha <;> simp [*, Request.isPut] at hput
  | overwrite hr ht => exact if_neg (htarget _ hr.putTarget)
  | overwriteOnly hr ht => exact if_neg (htarget _ hr.putTarget)
  | delete hp v hv => cases hp <;> simp [*, Request.isPut] at hput
  | finalize d hreq => rw [hreq] at hput; cases hput
  | mismatch d hreq => rw [hreq] at hput; cases hput
  | _ => rfl

theorem mem_of_putTarget (h : putTarget w e = some r) : r ∈ w.entries.rows := by
  unfold putTarget at h
  split at h
  · exact (resolvePath_target h).1
  · exact (mem_liveFiles.mp (mem_of_limitOne h)).1
  · cases h

/-- …and to the table: the other rows stay. -/
theorem mem_of_isPut (hput : e.request.isPut = true) (hc : Change env w e w')
    (hr : r ∈ w.entries.rows) (hne : putTarget w e ≠ some r) : r ∈ w'.entries.rows := by
  cases hc with
  | insert hr' ht => exact (FileTable.mem_insert ht).mpr (Or.inl hr)
  | store d hr' ht => exact (FileTable.mem_insert ht).mpr (Or.inl hr)
  | @overwrite r0 mime data t hr0 ht =>
    refine (FileTable.mem_update ht).mpr ⟨r, hr, if_neg fun hp => hne ?_⟩
    rw [Bool.and_eq_true, decide_eq_true_eq] at hp
    rw [hr0.putTarget, FileTable.eq_of_id hr hr0.spec.1 hp.1]
  | relabel d hreq => rw [isPut_of_relabels hreq] at hput; cases hput
  | move hreq => rw [hreq] at hput; cases hput
  | trash hp => cases hp <;> simp [*, Request.isPut] at hput
  | restore hreq => rw [hreq] at hput; cases hput
  | delete hp => cases hp <;> simp [*, Request.isPut] at hput
  | flatten hreq => rw [hreq] at hput; cases hput
  | finalize d hreq => rw [hreq] at hput; cases hput
  | version hreq => rw [hreq] at hput; cases hput
  | _ => exact hr

/-- **A `PUT` leaves the content of every other entry alone.** -/
theorem Shaped.contentOf_of_isPut (h : Shaped w) (hcol : .isFavorite ∉ w.columns)
    (hput : e.request.isPut = true) (hfresh : Fresh w e) (hc : Change env w e w')
    (hr : r ∈ w.entries.rows) (hne : putTarget w e ≠ some r) : contentOf w' r = contentOf w r := by
  have hblob : ∀ path ∈ r.storagePath, w'.blobs path = w.blobs path := by
    intro path hpath
    obtain rfl : r.target = path := by rw [FileEntry.target, hpath]; rfl
    refine blobs_of_isPut hput hc (fun r0 hr0 => ?_) fun hnew => ?_
    · refine h.target_ne hcol hr (mem_of_putTarget hr0) fun hid => hne ?_
      rw [hr0, FileTable.eq_of_id (mem_of_putTarget hr0) hr hid.symm]
    · have hown := (h.target hr).resolve_right fun hp => hcol hp.2
      rcases hown with hown | hown
      · exact hfresh.1 r hr (filePath_inj (hown.symm.trans hnew)).2
      · exact filePath_ne_flatPath (hnew.symm.trans hown)
  unfold contentOf
  cases r.entryType with
  | folder => rfl
  | file =>
    cases hp : r.storagePath with
    | none => rfl
    | some path => exact hblob path hp

end Step

/-! ## Runs -/

theorem shaped_run (env : Env) (columns : List Column) (users : Uuid → Option ℤ) (es : List Event) :
    Shaped (run (step env) (.empty columns users) es) :=
  run_invariant (fun w e hw => hw.change (step_change env w e)) (shaped_empty columns users) es

theorem columns_run (env : Env) (w : World) (es : List Event) :
    (run (step env) w es).columns = w.columns :=
  run_invariant (P := fun w' => w'.columns = w.columns)
    (fun w e hw => (step_change env w e).columns.trans hw) rfl es

/-- No file is shared: the gateways write distinct files for distinct entries, and writing through
one entry changes neither another entry, nor what is read through it or through a version. -/
structure NoSharedFiles (env : Env) (w : World) : Prop where
  targets : ∀ r ∈ w.entries.rows, ∀ r' ∈ w.entries.rows, r.id ≠ r'.id → r.target ≠ r'.target
  entries : ∀ e, e.request.isPut = true → Fresh w e → ∀ r ∈ w.entries.rows,
    putTarget w e ≠ some r → r ∈ (step env w e).entries.rows
      ∧ contentOf (step env w e) r = contentOf w r
  versions : ∀ e, e.request.isPut = true → Fresh w e → ∀ v ∈ w.versions,
    (step env w e).blobs v.storagePath = w.blobs v.storagePath

/-- **On the migrated schema no file is ever shared.** -/
theorem noSharedFiles_run (env : Env) (users : Uuid → Option ℤ) (es : List Event) :
    NoSharedFiles env (run (step env) (.empty migratedColumns users) es) := by
  have h := shaped_run env migratedColumns users es
  have hcol : .isFavorite ∉ (run (step env) (.empty migratedColumns users) es).columns := by
    rw [columns_run]
    exact (by decide : Column.isFavorite ∉ migratedColumns)
  refine ⟨fun r hr r' hr' hne => h.target_ne hcol hr hr' hne, fun e hput hfresh r hr hne => ?_,
    fun e _ _ v hv => ?_⟩
  · exact ⟨mem_of_isPut hput (step_change env _ e) hr hne,
      h.contentOf_of_isPut hcol hput hfresh (step_change env _ e) hr hne⟩
  · rw [h.versions] at hv
    cases hv

open Sample in
/-- Two users with a file of one name and content; one of them writes it. -/
example :
    let w := run (step env) start [sent alice 0 id1 (.uploadFile none "f" "text/plain" [0x61]),
      sent bob 1 id2 (.uploadFile none "f" "text/plain" [0x61]),
      sent bob 2 id3 (.webdavPut "/f" none [0x62])]
    (w.entries.rows.map fun r => contentOf w r) = [some [0x61], some [0x62]] := by
  decide

open Sample in
/-- It is the schema that keeps transfers out: with the column there, two of them share a path. -/
example :
    let w := run (step env) (.empty (.isFavorite :: migratedColumns) users)
      [sent alice 0 id1 (.initTransfer ⟨"f", 1, none, none, none⟩),
        sent bob 1 id2 (.initTransfer ⟨"f", 1, none, none, none⟩)]
    w.entries.rows.map FileEntry.target = [resumableTransfer, resumableTransfer] := by
  decide

end Pcos
