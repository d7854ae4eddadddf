import Mathlib.Data.List.Sort
import Pcos.Backend.BackupRoundTrip

/-!
# Backend/Retention — how long a backup stays (`backup/src/service.rs`)

A backup is a row and a directory.  `create_backup` fills the directory before it inserts the row;
`delete_backup` and `enforce_retention` remove the directory before they delete the row:

    create_dir_all ──▸ payloads ──▸ manifest ──▸ INSERT
    remove_dir_all ──▸ DELETE

So **a backup that is not deleted, and not among those that a retention leaves out, stays as it is**
(`verify_kept`), and a retention keeps the newest ones of all that were made, and no other
(`kept_ids`).  A backup that was not completed has a directory and no row, and as all removals go
by the rows, **nothing removes it** (`orphaned`).
-/

namespace Pcos.Backups

open Foundations Shares

/-! ## Deleting -/

/-- The backups, and when their rows were made. -/
structure Archive where
  vault : Vault
  createdAt : Uuid → ℤ

/-- The order in which a scan comes to the rows. -/
structure BackupScan where
  rows : List Backup → List Backup
  perm : ∀ l, (rows l).Perm l

/-- `ORDER BY created_at DESC` -/
def Archive.NoOlder (a : Archive) (b b' : Backup) : Prop := a.createdAt b'.id ≤ a.createdAt b.id

instance (a : Archive) : DecidableRel a.NoOlder := fun _ _ => Int.decLe _ _

instance (a : Archive) : IsTrans Backup a.NoOlder := ⟨fun _ _ _ h h' => le_trans h' h⟩

instance (a : Archive) : Std.Total a.NoOlder := ⟨fun _ _ => le_total _ _⟩

/-- `fs::remove_dir_all`, which may stop on its way: some files stay. -/
def BackupDir.remove (dir : BackupDir) (stays : String → Bool) : BackupDir where
  present path := stays path && dir.present path
  read path := if stays path then dir.read path else .error "No such file or directory (os error 2)"
  present_of_read path data h := by
    split at h
    case isTrue hstays => rw [hstays, dir.present_of_read path data h, Bool.and_self]
    case isFalse => cases h

/-- What comes of a deletion: the files that stay, and whether the row goes. -/
structure Deletion where
  stays : String → Bool
  executed : Bool

/-- Remove the directory of a backup, and delete the rows. -/
def Vault.discard (s : Vault) (backup : Backup) (d : Deletion) (gone : Backup → Bool) : Vault where
  shared := s.shared
  backups := if d.executed then s.backups.filter fun b => !gone b else s.backups
  dirs path := if path = backup.storagePath then (s.dirs path).remove d.stays else s.dirs path

/-- Delete a backup.  Whether its directory could be removed is not looked at. -/
def deleteBackup (user id : Uuid) (d : Deletion) (s : Vault) : Vault × Except AppError Unit :=
  match getBackup s user id with
  | .error e => (s, .error e)
  | .ok backup =>
    (s.discard backup d fun b => b.id = id && b.userId = user,
      if d.executed then .ok () else .error (.database .constraintViolation))

section Retention

variable (scan : BackupScan) (a : Archive) (user : Uuid)

/-- `SELECT … FROM backups WHERE user_id = $1 ORDER BY created_at DESC` -/
def newestFirst : List Backup :=
  ((scan.rows a.vault.backups).filter fun b => b.userId = user).insertionSort a.NoOlder

/-- The rows from `OFFSET $2` on. -/
def oldBackups (keepCount : ℤ) : List Backup := (newestFirst scan a user).drop keepCount.toNat

/-- The loop over them.  Whether it could delete anything is not looked at. -/
def Vault.discardAll (s : Vault) (d : Uuid → Deletion) (old : List Backup) : Vault :=
  old.foldl (fun s backup => s.discard backup (d backup.id) fun b => b.id = backup.id) s

/-- Enforce the retention policy: keep only the `keepCount` most recent backups. -/
def enforceRetention (keepCount : ℤ) (listError : Option String) (d : Uuid → Deletion) :
    Archive × Except AppError ℕ :=
  match listError with
  | some e => (a, .error (.internal e))
  | none =>
    if keepCount < 0 then
      (a, .error (.internal "error returned from database: OFFSET must not be negative"))
    else
      let old := oldBackups scan a user keepCount
      ({ a with vault := a.vault.discardAll d old }, .ok old.length)

end Retention

/-! ## The system -/

inductive BackupEvent
  | create (user : Uuid) (course : Course) (id : Uuid) (name : String) (time : ℤ)
  | delete (user id : Uuid) (d : Deletion)
  | retain (user : Uuid) (keepCount : ℤ) (listError : Option String) (d : Uuid → Deletion)
  | restore (user id : Uuid) (now : ℤ)
  /-- A request that has to do with files. -/
  | other (shared : Shared)

section System

variable (env : Env) (x : Reading) (y : Writing) (scan : BackupScan)

def Archive.step (a : Archive) : BackupEvent → Archive
  | .create user course id name time =>
    match createBackup env course user y id name a.vault with
    | (s, .ok _) => ⟨s, Function.update a.createdAt id time⟩
    | (s, .error _) => { a with vault := s }
  | .delete user id d => { a with vault := (deleteBackup user id d a.vault).1 }
  | .retain user keepCount listError d => (enforceRetention scan a user keepCount listError d).1
  | .restore user id now => { a with vault := (restoreBackup env x now user id a.vault).vault }
  | .other shared => { a with vault.shared := shared }

end System

/-- The backup is completed: nothing that `create_backup` reports has failed. -/
def Course.completes (c : Course) : Bool :=
  c.dirError.isNone && c.entriesError.isNone && (c.fails manifestName).isNone && c.inserted

section Steps

variable {env : Env} {x : Reading} {y : Writing} {scan : BackupScan} {a : Archive} {s : Vault}
  {c : Course} {user id other : Uuid} {name path : String} {time now keepCount : ℤ} {d : Deletion}
  {listError : Option String} {ds : Uuid → Deletion} {old : List Backup}

/-- **What creating does**: one directory may change, and a backup that is completed gets a row. -/
structure Creates (c : Course) (user id : Uuid) (s : Vault) (r : Vault × Except AppError Backup) :
    Prop where
  backups : r.1.backups = s.backups ++
    if c.completes then [⟨id, user, "completed", storagePathOf user id⟩] else []
  dirs : ∀ p ≠ storagePathOf user id, r.1.dirs p = s.dirs p
  answer : r.2.isOk = c.completes

theorem creates (env : Env) (c : Course) (user : Uuid) (y : Writing) (id : Uuid) (name : String)
    (s : Vault) : Creates c user id s (createBackup env c user y id name s) := by
  unfold createBackup
  cases hdir : c.dirError with
  | some e =>
    have hfails : c.completes = false := by simp [Course.completes, hdir]
    exact ⟨by simp [hfails], fun _ _ => rfl, hfails.symm⟩
  | none =>
    cases hentries : c.entriesError with
    | some e =>
      have hfails : c.completes = false := by simp [Course.completes, hentries]
      exact ⟨by simp [hfails], fun _ _ => rfl, hfails.symm⟩
    | none =>
      dsimp only
      split_ifs with hfails hinserted
      · have hfails' : c.completes = false := by
          simp [Course.completes, Option.isSome_iff_ne_none.mp hfails]
        exact ⟨by simp [hfails'], fun _ hp => if_neg hp, hfails'.symm⟩
      · have hcompletes : c.completes = true := by
          simp [Course.completes, hdir, hentries, hinserted,
            Option.not_isSome_iff_eq_none.mp hfails]
        exact ⟨by simp [hcompletes], fun _ hp => if_neg hp, hcompletes.symm⟩
      · have hfails' : c.completes = false := by simp [Course.completes, hinserted]
        exact ⟨by simp [hfails'], fun _ hp => if_neg hp, hfails'.symm⟩

theorem dirs_discardAll (h : path ∉ old.map Backup.storagePath) :
    (s.discardAll ds old).dirs path = s.dirs path := by
  induction old generalizing s with
  | nil => rfl
  | cons o old ih =>
    rw [List.map_cons, List.mem_cons, not_or] at h
    exact (ih h.2).trans (if_neg h.1)

theorem backups_discardAll : (s.discardAll ds old).backups =
    s.backups.filter fun b => !old.any fun o => (ds o.id).executed && b.id = o.id := by
  induction old generalizing s with
  | nil => simp [Vault.discardAll]
  | cons o old ih =>
    refine (@ih (s.discard o (ds o.id) fun b => b.id = o.id)).trans ?_
    rw [Vault.discard]
    cases hexecuted : (ds o.id).executed
    · simp [hexecuted]
    · rw [if_pos rfl, List.filter_filter]
      refine List.filter_congr fun b _ => ?_
      rw [List.any_cons, hexecuted, Bool.true_and, Bool.not_or, Bool.and_comm]

/-! ## Rows and directories -/

/-- A row, but for its status. -/
structure Key where
  id : Uuid
  userId : Uuid
  storagePath : String
  deriving DecidableEq

def Backup.key (b : Backup) : Key := ⟨b.id, b.userId, b.storagePath⟩

def Archive.keys (a : Archive) : List Key := a.vault.backups.map Backup.key

/-- Each row has an id of its own, and the directory of that id. -/
structure Orderly (a : Archive) : Prop where
  pk : (a.keys.map Key.id).Nodup
  placed : ∀ k ∈ a.keys, k.storagePath = storagePathOf k.userId k.id

theorem storagePathOf_inj {user' id' : Uuid} (h : storagePathOf user id = storagePathOf user' id') :
    user = user' ∧ id = id' := by
  have hlists := congrArg String.toList h
  simp only [storagePathOf, String.toList_append, List.append_assoc] at hlists
  have hlength : user.text.toList.length = user'.text.toList.length := by
    rw [String.length_toList, String.length_toList, Uuid.length_text, Uuid.length_text]
  obtain ⟨huser, hid⟩ := List.append_inj (List.append_cancel_left hlists) hlength
  exact ⟨Uuid.text_injective (String.toList_inj.mp huser),
    Uuid.text_injective (String.toList_inj.mp (List.append_cancel_left hid))⟩

variable (scan) in
/-- The backups whose directories are removed, whether or not their rows go. -/
def removed (a : Archive) : BackupEvent → List Backup
  | .delete user id _ => (getBackup a.vault user id).toOption.toList
  | .retain user keepCount listError _ =>
    if listError.isNone ∧ 0 ≤ keepCount then oldBackups scan a user keepCount else []
  | _ => []

/-- Whether the row of a backup goes that is removed. -/
def BackupEvent.executes (e : BackupEvent) (o : Key) : Bool :=
  match e with
  | .delete _ _ d => d.executed
  | .retain _ _ _ ds => (ds o.id).executed
  | _ => false

/-- The row that is made. -/
def BackupEvent.made : BackupEvent → List Key
  | .create user c id _ _ => if c.completes then [⟨id, user, storagePathOf user id⟩] else []
  | _ => []

theorem getBackup_eq_ok {b : Backup} (h : getBackup s user id = .ok b) :
    b ∈ s.backups ∧ b.id = id ∧ b.userId = user := by
  rw [getBackup] at h
  split at h
  case h_1 b' hfound =>
    cases h
    have hkey := List.find?_some hfound
    rw [Bool.and_eq_true, decide_eq_true_eq, decide_eq_true_eq] at hkey
    exact ⟨List.mem_of_find?_eq_some hfound, hkey⟩
  case h_2 => cases h

theorem mem_newestFirst {b : Backup} :
    b ∈ newestFirst scan a user ↔ b ∈ a.vault.backups ∧ b.userId = user := by
  rw [newestFirst, List.mem_insertionSort, List.mem_filter, decide_eq_true_eq,
    (scan.perm a.vault.backups).mem_iff]

/-- The ids of the user's backups, the newest first. -/
def newestIds (scan : BackupScan) (a : Archive) (user : Uuid) : List Uuid :=
  (newestFirst scan a user).map Backup.id

/-- The ids of the user's rows. -/
def Archive.idsOf (a : Archive) (user : Uuid) : List Uuid :=
  (a.keys.filter fun k => k.userId = user).map Key.id

theorem newestIds_perm : (newestIds scan a user).Perm (a.idsOf user) := by
  have hrows : (newestFirst scan a user).Perm (a.vault.backups.filter fun b => b.userId = user) :=
    (List.perm_insertionSort _ _).trans ((scan.perm _).filter _)
  have hids : a.idsOf user = (a.vault.backups.filter fun b => b.userId = user).map Backup.id := by
    rw [Archive.idsOf, Archive.keys, List.filter_map, List.map_map]
    rfl
  rw [hids]
  exact hrows.map _

theorem Orderly.newestIds_nodup (h : Orderly a) : (newestIds scan a user).Nodup :=
  newestIds_perm.nodup_iff.mpr (h.pk.sublist (List.filter_sublist.map _))

theorem mem_removed_delete {o : Backup} (h : o ∈ removed scan a (.delete user id d)) :
    getBackup a.vault user id = .ok o := by
  rw [removed] at h
  cases hget : getBackup a.vault user id with
  | error e =>
    rw [hget] at h
    cases h
  | ok b =>
    rw [hget] at h
    rw [List.mem_singleton.mp h]

theorem mem_removed_retain {o : Backup}
    (h : o ∈ removed scan a (.retain user keepCount listError ds)) :
    o ∈ oldBackups scan a user keepCount ∧ o.userId = user := by
  rw [removed] at h
  split at h
  · exact ⟨h, (mem_newestFirst.mp (List.mem_of_mem_drop h)).2⟩
  · cases h

/-- Only backups that there are are removed. -/
theorem mem_removed {e : BackupEvent} {o : Backup} (h : o ∈ removed scan a e) :
    o ∈ a.vault.backups := by
  cases e with
  | create | restore | other => cases h
  | delete user id d => exact (getBackup_eq_ok (mem_removed_delete h)).1
  | retain user keepCount listError ds =>
    exact (mem_newestFirst.mp (List.mem_of_mem_drop (mem_removed_retain h).1)).1

theorem Orderly.eq_of_id (h : Orderly a) {b b' : Backup} (hb : b ∈ a.vault.backups)
    (hb' : b' ∈ a.vault.backups) (hid : b.id = b'.id) : b.key = b'.key :=
  List.inj_on_of_nodup_map h.pk (List.mem_map_of_mem hb) (List.mem_map_of_mem hb') hid

/-- Restoring changes no row but its status, and no directory. -/
theorem restoreBackup_keys (env : Env) (x : Reading) (now : ℤ) (user id : Uuid) (s : Vault) :
    (restoreBackup env x now user id s).vault.backups.map Backup.key = s.backups.map Backup.key ∧
      (restoreBackup env x now user id s).vault.dirs = s.dirs := by
  unfold restoreBackup
  split
  · exact ⟨rfl, rfl⟩
  · dsimp only
    split
    · exact ⟨rfl, rfl⟩
    · refine ⟨?_, rfl⟩
      dsimp only
      rw [List.map_map]
      refine List.map_congr_left fun b _ => ?_
      rw [Function.comp_apply]
      split <;> rfl

theorem vault_create : (a.step env x y scan (.create user c id name time)).vault =
    (createBackup env c user y id name a.vault).1 := by
  rw [Archive.step]
  rcases createBackup env c user y id name a.vault with ⟨s, _ | _⟩ <;> rfl

/-- The rows that stay are those whose keys are not removed. -/
theorem keys_filter {rows old : List Backup} {gone : Backup → Bool} {executes : Key → Bool}
    (h : ∀ b ∈ rows, gone b = (old.map Backup.key).any fun o => executes o && b.key = o) :
    (rows.filter fun b => !gone b).map Backup.key = (rows.map Backup.key).filter fun k =>
      !(old.map Backup.key).any fun o => executes o && k = o := by
  rw [List.filter_map]
  refine congrArg (List.map Backup.key) (List.filter_congr fun b hb => ?_)
  rw [h b hb, Function.comp_apply]

/-- **What a step does to the rows.** -/
theorem keys_step (h : Orderly a) (e : BackupEvent) : (a.step env x y scan e).keys =
    (a.keys.filter fun k => !((removed scan a e).map Backup.key).any fun o =>
      e.executes o && k = o) ++ e.made := by
  cases e with
  | create user c id name time =>
    rw [Archive.keys, vault_create, (creates env c user y id name a.vault).backups, List.map_append]
    simp only [removed, BackupEvent.made, List.map_nil, List.any_nil, Bool.not_false,
      List.filter_true, Archive.keys]
    split <;> rfl
  | delete user id d =>
    simp only [BackupEvent.made, List.append_nil, removed]
    simp only [Archive.step, Archive.keys, deleteBackup]
    cases hget : getBackup a.vault user id with
    | error e => simp [Except.toOption]
    | ok b =>
      obtain ⟨hmem, rfl, rfl⟩ := getBackup_eq_ok hget
      simp only [Vault.discard, BackupEvent.executes, Except.toOption, Option.toList]
      cases hexecuted : d.executed
      · simp
      · rw [if_pos rfl]
        refine keys_filter fun b' hb' => ?_
        rw [List.map_singleton, List.any_cons, List.any_nil, Bool.or_false, Bool.true_and,
          ← Bool.decide_and, decide_eq_decide]
        exact ⟨fun hsame => h.eq_of_id hb' hmem hsame.1,
          fun hsame => ⟨congrArg Key.id hsame, congrArg Key.userId hsame⟩⟩
  | retain user keepCount listError ds =>
    have hnone : ∀ rows : List Key, (rows.filter fun k =>
        !([] : List Key).any fun o => (BackupEvent.retain user keepCount listError ds).executes o
          && k = o) ++ (BackupEvent.retain user keepCount listError ds).made = rows := by
      simp [BackupEvent.made]
    simp only [Archive.step, enforceRetention]
    cases listError with
    | some e => exact (hnone _).symm
    | none =>
      by_cases hkeep : keepCount < 0
      · dsimp only
        rw [if_pos hkeep, removed, if_neg fun hall => absurd hall.2 (not_le.mpr hkeep)]
        exact (hnone _).symm
      · dsimp only
        rw [if_neg hkeep, removed, if_pos ⟨rfl, not_lt.mp hkeep⟩]
        simp only [BackupEvent.made, List.append_nil, Archive.keys, backups_discardAll]
        refine keys_filter fun b hb => ?_
        rw [List.any_map, Bool.eq_iff_iff, List.any_eq_true, List.any_eq_true]
        refine exists_congr fun o => and_congr_right fun ho => ?_
        have hmem : o ∈ a.vault.backups := (mem_newestFirst.mp (List.mem_of_mem_drop ho)).1
        rw [Function.comp_apply, Bool.and_eq_true, Bool.and_eq_true, decide_eq_true_eq,
          decide_eq_true_eq]
        exact and_congr Iff.rfl ⟨h.eq_of_id hb hmem, congrArg Key.id⟩
  | restore user id now =>
    have hkeys := (restoreBackup_keys env x now user id a.vault).1
    simpa [Archive.step, Archive.keys, removed, BackupEvent.made] using hkeys
  | other shared => simp [Archive.step, Archive.keys, removed, BackupEvent.made]

/-- **What a step does to the directories.** -/
theorem dirs_step {e : BackupEvent} (hremoved : path ∉ (removed scan a e).map Backup.storagePath)
    (hcreated : ∀ user c id name time, e = .create user c id name time →
      path ≠ storagePathOf user id) :
    (a.step env x y scan e).vault.dirs path = a.vault.dirs path := by
  cases e with
  | create user c id name time =>
    rw [vault_create]
    exact (creates env c user y id name a.vault).dirs path (hcreated _ _ _ _ _ rfl)
  | delete user id d =>
    rw [removed] at hremoved
    simp only [Archive.step, deleteBackup]
    cases hget : getBackup a.vault user id with
    | error e => rfl
    | ok b =>
      rw [hget] at hremoved
      exact if_neg fun heq => hremoved (List.mem_singleton.mpr heq)
  | retain user keepCount listError ds =>
    simp only [Archive.step, enforceRetention]
    cases listError with
    | some e => rfl
    | none =>
      by_cases hkeep : keepCount < 0
      · rw [if_pos hkeep]
      · rw [removed, if_pos ⟨rfl, not_lt.mp hkeep⟩] at hremoved
        rw [if_neg hkeep]
        exact dirs_discardAll hremoved
  | restore user id now => exact congrFun (restoreBackup_keys env x now user id a.vault).2 path
  | other shared => rfl

/-- A backup gets an id that no other has. -/
def NewId (a : Archive) : BackupEvent → Prop
  | .create _ _ id _ _ => ∀ k ∈ a.keys, k.id ≠ id
  | _ => True

theorem mem_made {e : BackupEvent} {k : Key} (h : k ∈ e.made) :
    ∃ user c id name time, e = .create user c id name time ∧ k = ⟨id, user, storagePathOf user id⟩ ∧
      c.completes = true := by
  cases e with
  | create user c id name time =>
    rw [BackupEvent.made] at h
    split at h
    case isTrue hcompletes => exact ⟨user, c, id, name, time, rfl, List.mem_singleton.mp h, hcompletes⟩
    case isFalse => cases h
  | delete | retain | restore | other => cases h

/-- **The rows stay apart, each with its directory.** -/
theorem Orderly.step (h : Orderly a) {e : BackupEvent} (hnew : NewId a e) :
    Orderly (a.step env x y scan e) := by
  refine ⟨?_, fun k hk => ?_⟩
  · rw [keys_step h, List.map_append, List.nodup_append]
    refine ⟨h.pk.sublist (List.filter_sublist.map _), ?_, ?_⟩
    · cases e with
      | create user c id name time =>
        rw [BackupEvent.made]
        split <;> simp
      | delete | retain | restore | other => exact List.nodup_nil
    · rintro i hi j hj rfl
      obtain ⟨k, hk, rfl⟩ := List.mem_map.mp hi
      obtain ⟨k', hk', heq⟩ := List.mem_map.mp hj
      obtain ⟨user, c, id, name, time, rfl, rfl, -⟩ := mem_made hk'
      exact hnew k (List.mem_of_mem_filter hk) heq.symm
  · rw [keys_step h] at hk
    rcases List.mem_append.mp hk with hk | hk
    · exact h.placed k (List.mem_of_mem_filter hk)
    · obtain ⟨user, c, id, name, time, -, rfl, -⟩ := mem_made hk
      rfl

/-! ## What stays -/

/-- How many of the user's other backups are no older. -/
def newer (a : Archive) (user id : Uuid) : ℕ :=
  a.vault.backups.countP fun b => b.userId = user && b.id ≠ id && a.createdAt id ≤ a.createdAt b.id

/-- Before a backup that a retention leaves out, there are as many that are no older. -/
theorem le_newer (h : Orderly a) {o : Backup} (ho : o ∈ oldBackups scan a user keepCount) :
    keepCount.toNat ≤ newer a user o.id := by
  rw [oldBackups] at ho
  have hids : ((newestFirst scan a user).map Backup.id).Nodup := h.newestIds_nodup
  have hsorted : (newestFirst scan a user).Pairwise a.NoOlder := List.pairwise_insertionSort _ _
  have hcut := List.take_append_drop keepCount.toNat (newestFirst scan a user)
  have hlength : ((newestFirst scan a user).take keepCount.toNat).length = keepCount.toNat := by
    have hpos := List.length_pos_of_mem ho
    rw [List.length_drop] at hpos
    rw [List.length_take]
    omega
  rw [← hcut] at hsorted hids
  have hbefore := (List.pairwise_append.mp hsorted).2.2
  rw [List.map_append] at hids
  have hapart := (List.nodup_append.mp hids).2.2
  have hcount : ((newestFirst scan a user).take keepCount.toNat).countP (fun b =>
      b.userId = user && b.id ≠ o.id && a.createdAt o.id ≤ a.createdAt b.id) = keepCount.toNat := by
    refine (List.countP_eq_length.mpr fun b hb => ?_).trans hlength
    have hne : b.id ≠ o.id := hapart _ (List.mem_map_of_mem hb) _ (List.mem_map_of_mem ho)
    have huser := (mem_newestFirst.mp (List.mem_of_mem_take hb)).2
    have hle : a.createdAt o.id ≤ a.createdAt b.id := hbefore b hb o ho
    simp [hne, huser, hle]
  rw [← hcount, newer]
  calc ((newestFirst scan a user).take keepCount.toNat).countP _
      ≤ (newestFirst scan a user).countP _ := (List.take_sublist _ _).countP_le
    _ = ((scan.rows a.vault.backups).filter fun b => b.userId = user).countP _ :=
        (List.perm_insertionSort _ _).countP_eq _
    _ ≤ (scan.rows a.vault.backups).countP _ := List.filter_sublist.countP_le
    _ = a.vault.backups.countP _ := (scan.perm _).countP_eq _

/-- The step makes no backup of an id that there is, does not delete this one, and if it is a
retention of its owner, keeps as many as there are no older ones. -/
def SparesBackup (user id : Uuid) (a : Archive) (e : BackupEvent) : Prop :=
  NewId a e ∧
    match e with
    | .delete user' id' _ => ¬ (user' = user ∧ id' = id)
    | .retain user' keepCount _ _ => user' = user → (newer a user id : ℤ) < keepCount
    | _ => True

/-- The backup and what is in its directory. -/
structure Stays (user id : Uuid) (dir : BackupDir) (a : Archive) : Prop where
  orderly : Orderly a
  row : ⟨id, user, storagePathOf user id⟩ ∈ a.keys
  dir : a.vault.dirs (storagePathOf user id) = dir

/-- What is spared is not removed. -/
theorem SparesBackup.not_removed {e : BackupEvent} (h : SparesBackup user id a e) (ha : Orderly a)
    {o : Backup} (ho : o ∈ removed scan a e) : o.key ≠ ⟨id, user, storagePathOf user id⟩ := by
  intro hkey
  have hid : o.id = id := congrArg Key.id hkey
  have huser : o.userId = user := congrArg Key.userId hkey
  obtain ⟨-, hspares⟩ := h
  cases e with
  | create | restore | other => cases ho
  | delete user' id' d =>
    obtain ⟨-, hid', huser'⟩ := getBackup_eq_ok (mem_removed_delete ho)
    exact hspares ⟨huser'.symm.trans huser, hid'.symm.trans hid⟩
  | retain user' keepCount listError ds =>
    obtain ⟨hold, howner⟩ := mem_removed_retain ho
    have huser' : user' = user := howner.symm.trans huser
    have hlt := hspares huser'
    have hle := le_newer ha hold
    rw [hid, huser'] at hle
    omega

/-- **The step.** -/
theorem Stays.step {dir : BackupDir} (h : Stays user id dir a) {e : BackupEvent}
    (hok : SparesBackup user id a e) : Stays user id dir (a.step env x y scan e) := by
  refine ⟨h.orderly.step hok.1, ?_, ?_⟩
  · rw [keys_step h.orderly, List.mem_append]
    refine Or.inl (List.mem_filter.mpr ⟨h.row, ?_⟩)
    rw [Bool.not_eq_true', List.any_eq_false]
    intro o ho hsame
    obtain ⟨b, hb, rfl⟩ := List.mem_map.mp ho
    rw [Bool.and_eq_true, decide_eq_true_eq] at hsame
    exact hok.not_removed h.orderly hb hsame.2.symm
  · rw [dirs_step (fun hmem => ?_) fun user' c id' name time heq hpath => ?_, h.dir]
    · obtain ⟨o, ho, hpath⟩ := List.mem_map.mp hmem
      have hplaced : o.storagePath = storagePathOf o.userId o.id :=
        h.orderly.placed _ (List.mem_map_of_mem (mem_removed ho))
      obtain ⟨huser, hid⟩ := storagePathOf_inj (hplaced.symm.trans hpath)
      refine hok.not_removed h.orderly ho ?_
      rw [Backup.key, hpath, huser, hid]
    · subst heq
      exact hok.1 _ h.row (storagePathOf_inj hpath).2

theorem Stays.getBackup {dir : BackupDir} (h : Stays user id dir a) :
    ∃ b, Backups.getBackup a.vault user id = .ok b ∧ a.vault.dirs b.storagePath = dir := by
  obtain ⟨b, hb, hkey⟩ := List.mem_map.mp h.row
  have hid : b.id = id := congrArg Key.id hkey
  have huser : b.userId = user := congrArg Key.userId hkey
  rw [Backups.getBackup]
  cases hfound : a.vault.backups.find? fun b => b.id = id && b.userId = user with
  | none =>
    have hnot := List.find?_eq_none.mp hfound b hb
    simp [hid, huser] at hnot
  | some b' =>
    have hkey' := List.find?_some hfound
    rw [Bool.and_eq_true, decide_eq_true_eq, decide_eq_true_eq] at hkey'
    have hplaced : b'.storagePath = storagePathOf b'.userId b'.id :=
      h.orderly.placed _ (List.mem_map_of_mem (List.mem_of_find?_eq_some hfound))
    refine ⟨b', rfl, ?_⟩
    rw [hplaced, hkey'.1, hkey'.2, h.dir]

theorem Stays.answers {dir : BackupDir} (h : Stays user id dir a) :
    verifyBackup env x a.vault user id = .ok (verifyBackupDir env x dir id) ∧
      offered env x user id a.vault =
        (readManifest x dir).toOption.elim [] (offeredBy env dir) := by
  obtain ⟨b, hget, hdir⟩ := h.getBackup
  refine ⟨?_, ?_⟩
  · rw [verifyBackup, hget]
    change Except.ok (verifyBackupDir env x (a.vault.dirs b.storagePath) id) = _
    rw [hdir]
  · rw [offered, hget]
    dsimp only
    rw [hdir]
    cases readManifest x dir <;> rfl

/-! ## What is left behind -/

/-- The step makes no backup of an id that there is, or of this one. -/
def MakesOther (id : Uuid) (a : Archive) (e : BackupEvent) : Prop :=
  NewId a e ∧
    match e with
    | .create _ _ id' _ _ => id' ≠ id
    | _ => True

/-- A directory that no row is about. -/
structure Orphan (user id : Uuid) (dir : BackupDir) (a : Archive) : Prop where
  orderly : Orderly a
  unnamed : ∀ k ∈ a.keys, k.id ≠ id
  dir : a.vault.dirs (storagePathOf user id) = dir

/-- **The step**: what is removed has a row, and the directory of that row. -/
theorem Orphan.step {dir : BackupDir} (h : Orphan user id dir a) {e : BackupEvent}
    (hok : MakesOther id a e) : Orphan user id dir (a.step env x y scan e) := by
  refine ⟨h.orderly.step hok.1, fun k hk => ?_, ?_⟩
  · rw [keys_step h.orderly] at hk
    rcases List.mem_append.mp hk with hk | hk
    · exact h.unnamed k (List.mem_of_mem_filter hk)
    · obtain ⟨user', c, id', name, time, rfl, rfl, -⟩ := mem_made hk
      exact hok.2
  · rw [dirs_step (fun hmem => ?_) fun user' c id' name time heq hpath => ?_, h.dir]
    · obtain ⟨o, ho, hpath⟩ := List.mem_map.mp hmem
      have hrow : o.key ∈ a.keys := List.mem_map_of_mem (mem_removed ho)
      have hplaced : o.storagePath = storagePathOf o.userId o.id := h.orderly.placed _ hrow
      exact h.unnamed _ hrow (storagePathOf_inj (hplaced.symm.trans hpath)).2
    · subst heq
      exact hok.2 (storagePathOf_inj hpath).2.symm

theorem Orphan.getBackup {dir : BackupDir} (h : Orphan user id dir a) (user' : Uuid) :
    Backups.getBackup a.vault user' id = .error (.notFound "Backup not found") := by
  have hnone : (a.vault.backups.find? fun b => b.id = id && b.userId = user') = none := by
    rw [List.find?_eq_none]
    intro b hb hsame
    rw [Bool.and_eq_true, decide_eq_true_eq] at hsame
    exact h.unnamed _ (List.mem_map_of_mem hb) hsame.1
  rw [Backups.getBackup, hnone]

end Steps

/-- **A backup stays as it is** in every run that does not delete it, neither itself nor by a
retention that keeps fewer backups than there are newer ones: verifying it answers the same, and it
offers the same bytes to a restore. -/
theorem verify_kept (env : Env) (x : Reading) (y : Writing) (scan : BackupScan) (a : Archive)
    (h : Orderly a) (backup : Backup) (hbackup : backup ∈ a.vault.backups) (es : List BackupEvent)
    (hes : Along (SparesBackup backup.userId backup.id) (Archive.step env x y scan) a es) :
    let after := (run (Archive.step env x y scan) a es).vault
    verifyBackup env x after backup.userId backup.id =
        verifyBackup env x a.vault backup.userId backup.id ∧
      offered env x backup.userId backup.id after =
        offered env x backup.userId backup.id a.vault := by
  have hplaced : backup.storagePath = storagePathOf backup.userId backup.id :=
    h.placed _ (List.mem_map_of_mem hbackup)
  have hstart : Stays backup.userId backup.id
      (a.vault.dirs (storagePathOf backup.userId backup.id)) a := by
    refine ⟨h, ?_, rfl⟩
    rw [← hplaced]
    exact List.mem_map_of_mem hbackup
  have hend := hes.invariant (fun _ _ hstays hok => hstays.step hok) hstart
  exact ⟨hend.answers.1.trans hstart.answers.1.symm, hend.answers.2.trans hstart.answers.2.symm⟩

namespace Sample

open Pcos.Sample

/-- A backup of Alice's. -/
def archive : Archive :=
  ⟨{ owned with backups := [⟨id3, alice, "completed", storagePathOf alice id3⟩] }, fun _ => 0⟩

def inAnyOrder : BackupScan := ⟨id, fun _ => .refl _⟩

/-- The directory is removed, and the row. -/
def gone : Deletion := ⟨fun _ => false, true⟩

/-- One that cannot be inserted. -/
def refused : Course := { course with inserted := false }

/-- Bob tries to delete it, and Alice keeps one backup. -/
def keepsOne : List BackupEvent := [.delete bob id3 gone, .retain alice 1 none fun _ => gone]

end Sample

open Pcos.Sample Sample in
theorem verify_kept_keepsOne :
    let after := (run (Archive.step env readingBack writing inAnyOrder) archive keepsOne).vault
    verifyBackup env readingBack after alice id3 =
        verifyBackup env readingBack archive.vault alice id3 ∧
      offered env readingBack alice id3 after =
        offered env readingBack alice id3 archive.vault :=
  verify_kept env readingBack writing inAnyOrder archive ⟨by decide, by decide⟩ _ List.mem_cons_self
    keepsOne ⟨⟨trivial, by decide⟩, ⟨trivial, fun _ => by decide⟩, trivial⟩

/-- **A backup that was not completed is left behind**: in every run after that, its directory is as
the call left it, and no request finds a row of it. -/
theorem orphaned (env : Env) (x : Reading) (y : Writing) (scan : BackupScan) (a : Archive)
    (h : Orderly a) (user : Uuid) (c : Course) (id : Uuid) (name : String) (time : ℤ)
    (hnew : ∀ k ∈ a.keys, k.id ≠ id) (hfails : c.completes = false) (es : List BackupEvent)
    (hes : Along (MakesOther id) (Archive.step env x y scan)
      (a.step env x y scan (.create user c id name time)) es) :
    let after := (run (Archive.step env x y scan) a (.create user c id name time :: es)).vault
    after.dirs (storagePathOf user id) =
        (createBackup env c user y id name a.vault).1.dirs (storagePathOf user id) ∧
      ∀ user', getBackup after user' id = .error (.notFound "Backup not found") := by
  have hstart : Orphan user id ((createBackup env c user y id name a.vault).1.dirs
      (storagePathOf user id)) (a.step env x y scan (.create user c id name time)) := by
    refine ⟨h.step hnew, fun k hk => ?_, by rw [vault_create]⟩
    rw [keys_step h, BackupEvent.made, hfails, if_neg Bool.false_ne_true, List.append_nil] at hk
    exact hnew k (List.mem_of_mem_filter hk)
  have hend := hes.invariant (fun _ _ horphan hok => horphan.step hok) hstart
  exact ⟨hend.dir, hend.getBackup⟩

open Pcos.Sample Sample in
/-- The row of a second backup cannot be inserted; then Alice keeps none. -/
theorem orphaned_refused :
    let after := (run (Archive.step env readingBack writing inAnyOrder) archive
      (.create alice refused id2 "c" 1 :: [.retain alice 0 none fun _ => gone])).vault
    after.dirs (storagePathOf alice id2) =
        (createBackup env refused alice writing id2 "c" archive.vault).1.dirs
          (storagePathOf alice id2) ∧
      ∀ user', getBackup after user' id2 = .error (.notFound "Backup not found") :=
  orphaned env readingBack writing inAnyOrder archive ⟨by decide, by decide⟩ alice refused id2 "c" 1 (by decide)
    rfl _ ⟨⟨trivial, trivial⟩, trivial⟩

/-! ## What a retention keeps -/

/-- The id that a step makes for the user. -/
def BackupEvent.madeFor (user : Uuid) (e : BackupEvent) : List Uuid :=
  (e.made.filter fun k => k.userId = user).map Key.id

/-- What the user makes is newer than what there is, the user deletes nothing but by a retention, and
every retention of the user keeps as many. -/
def InTurn (user : Uuid) (keepCount : ℕ) (a : Archive) (e : BackupEvent) : Prop :=
  NewId a e ∧
    match e with
    | .create user' _ _ _ time => user' = user → ∀ id ∈ a.idsOf user, a.createdAt id < time
    | .delete user' _ _ => user' ≠ user
    | .retain user' keepCount' _ _ => user' = user → keepCount' = keepCount
    | _ => True

section Window

variable {env : Env} {x : Reading} {y : Writing} {scan : BackupScan} {a : Archive} {user i : Uuid}
  {keepCount : ℕ} {e : BackupEvent} {l : List Uuid}

variable (scan) in
/-- **There is one order of the rows by their times**, if these differ. -/
theorem newestIds_eq (hperm : l.Perm (a.idsOf user))
    (hsorted : l.Pairwise fun i j => a.createdAt j < a.createdAt i) : newestIds scan a user = l := by
  have hall : (newestIds scan a user).Pairwise fun i j => a.createdAt j ≤ a.createdAt i :=
    List.pairwise_map.mpr (List.pairwise_insertionSort a.NoOlder _)
  refine (newestIds_perm.trans hperm.symm).eq_of_pairwise (fun i j hi hj hij hji => ?_) hall
    (hsorted.imp le_of_lt)
  have htimes : (l.map a.createdAt).Nodup := List.pairwise_map.mpr (hsorted.imp ne_of_gt)
  have hi' : i ∈ l := hperm.mem_iff.mpr (newestIds_perm.mem_iff.mp hi)
  exact List.inj_on_of_nodup_map htimes hi' hj (le_antisymm hji hij)

theorem mem_keys_of_mem_idsOf (h : i ∈ a.idsOf user) : ∃ k ∈ a.keys, k.id = i ∧ k.userId = user := by
  obtain ⟨k, hk, rfl⟩ := List.mem_map.mp h
  rw [List.mem_filter, decide_eq_true_eq] at hk
  exact ⟨k, hk.1, rfl, hk.2⟩

/-- The times stay, and a backup that is made gets one. -/
theorem createdAt_step (hnew : NewId a e) (h : i ∈ a.idsOf user) :
    (a.step env x y scan e).createdAt i = a.createdAt i := by
  obtain ⟨k, hk, rfl, -⟩ := mem_keys_of_mem_idsOf h
  cases e with
  | create user' c id name time =>
    rw [Archive.step]
    rcases createBackup env c user' y id name a.vault with ⟨s, _ | _⟩
    · rfl
    · exact Function.update_of_ne (hnew k hk) _ _
  | retain user' keepCount listError ds =>
    simp only [Archive.step, enforceRetention]
    cases listError with
    | some e => rfl
    | none =>
      dsimp only
      split <;> rfl
  | delete | restore | other => rfl

theorem createdAt_create {c : Course} {user' id : Uuid} {name : String} {time : ℤ}
    (hcompletes : c.completes = true) :
    (a.step env x y scan (.create user' c id name time)).createdAt id = time := by
  have hok := (creates env c user' y id name a.vault).answer
  rw [hcompletes] at hok
  rw [Archive.step]
  rcases hmade : createBackup env c user' y id name a.vault with ⟨s, _ | _⟩
  · rw [hmade] at hok
    cases hok
  · exact Function.update_self _ _ _

variable (scan a e) in
/-- Whether the row of this id stays. -/
def staysIn (i : Uuid) : Bool := !(removed scan a e).any fun o => e.executes o.key && i = o.id

/-- The rows of the user after a step. -/
theorem idsOf_step (h : Orderly a) : ((e.madeFor user) ++
    (newestIds scan a user).filter (staysIn scan a e)).Perm ((a.step env x y scan e).idsOf user) := by
  have hstays : (a.keys.filter fun k => !((removed scan a e).map Backup.key).any fun o =>
      e.executes o && k = o) = a.keys.filter fun k => staysIn scan a e k.id := by
    refine List.filter_congr fun k hk => ?_
    obtain ⟨b, hb, rfl⟩ := List.mem_map.mp hk
    rw [staysIn, List.any_map]
    refine congrArg not (Bool.eq_iff_iff.mpr ?_)
    rw [List.any_eq_true, List.any_eq_true]
    refine exists_congr fun o => and_congr_right fun ho => ?_
    rw [Function.comp_apply, Bool.and_eq_true, Bool.and_eq_true, decide_eq_true_eq,
      decide_eq_true_eq]
    exact and_congr_right fun _ => ⟨congrArg Key.id, h.eq_of_id hb (mem_removed ho)⟩
  have hids : (a.step env x y scan e).idsOf user =
      (a.idsOf user).filter (staysIn scan a e) ++ e.madeFor user := by
    rw [Archive.idsOf, keys_step h, hstays, List.filter_append, List.map_append, Archive.idsOf,
      List.filter_map, List.filter_filter, List.filter_filter]
    congr 2
    exact List.filter_congr fun k _ => Bool.and_comm _ _
  rw [hids]
  exact List.perm_append_comm.trans ((newestIds_perm.filter _).append_right _)

variable (env x y) in
/-- **What a step does to the order of the rows**: what is made comes first, and what is deleted is
left out. -/
theorem newestIds_step (h : Orderly a) (hok : InTurn user keepCount a e)
    (hsorted : (newestIds scan a user).Pairwise fun i j => a.createdAt j < a.createdAt i) :
    (newestIds scan (a.step env x y scan e) user).Pairwise (fun i j =>
        (a.step env x y scan e).createdAt j < (a.step env x y scan e).createdAt i) ∧
      newestIds scan (a.step env x y scan e) user =
        e.madeFor user ++ (newestIds scan a user).filter (staysIn scan a e) := by
  have hold : ∀ i ∈ newestIds scan a user, (a.step env x y scan e).createdAt i = a.createdAt i :=
    fun i hi => createdAt_step hok.1 (newestIds_perm.mem_iff.mp hi)
  have hrest : ((newestIds scan a user).filter (staysIn scan a e)).Pairwise fun i j =>
      (a.step env x y scan e).createdAt j < (a.step env x y scan e).createdAt i := by
    refine (hsorted.filter _).imp_of_mem fun {i j} hi hj hlt => ?_
    rw [hold i (List.mem_of_mem_filter hi), hold j (List.mem_of_mem_filter hj)]
    exact hlt
  have hall : (e.madeFor user ++ (newestIds scan a user).filter (staysIn scan a e)).Pairwise
      fun i j => (a.step env x y scan e).createdAt j < (a.step env x y scan e).createdAt i := by
    refine List.pairwise_append.mpr ⟨?_, hrest, fun i hi j hj => ?_⟩
    · cases e with
      | create user' c id name time =>
        rw [BackupEvent.madeFor, BackupEvent.made]
        split
        · exact (List.pairwise_singleton _ _).sublist (List.filter_sublist.map _)
        · exact List.Pairwise.nil
      | delete | retain | restore | other => exact List.Pairwise.nil
    · obtain ⟨k, hk, rfl⟩ := List.mem_map.mp hi
      rw [List.mem_filter, decide_eq_true_eq] at hk
      obtain ⟨user', c, id, name, time, rfl, rfl, hcompletes⟩ := mem_made hk.1
      have hmem := List.mem_of_mem_filter hj
      rw [createdAt_create hcompletes, hold j hmem]
      exact hok.2 hk.2 j (newestIds_perm.mem_iff.mp hmem)
  have heq := newestIds_eq scan (idsOf_step h) hall
  exact ⟨heq ▸ hall, heq⟩

/-- A step takes none of the newest from the user. -/
theorem staysIn_of_mem_take (h : Orderly a) (hok : InTurn user keepCount a e)
    (hi : i ∈ (newestIds scan a user).take keepCount) : staysIn scan a e i = true := by
  rw [staysIn, Bool.not_eq_true', List.any_eq_false]
  intro o ho hsame
  rw [Bool.and_eq_true, decide_eq_true_eq] at hsame
  obtain ⟨k, hk, hid, huser⟩ :=
    mem_keys_of_mem_idsOf (newestIds_perm.mem_iff.mp (List.mem_of_mem_take hi))
  obtain ⟨b, hb, rfl⟩ := List.mem_map.mp hk
  have hkey := h.eq_of_id hb (mem_removed ho) (hid.trans hsame.2)
  have howner : o.userId = user := (congrArg Key.userId hkey).symm.trans huser
  cases e with
  | create | restore | other => cases ho
  | delete user' id' d =>
    exact hok.2 ((getBackup_eq_ok (mem_removed_delete ho)).2.2.symm.trans howner)
  | retain user' keepCount' listError ds =>
    obtain ⟨hold, howner'⟩ := mem_removed_retain ho
    obtain rfl : user' = user := howner'.symm.trans howner
    have hdrop : i ∈ (newestIds scan a user').drop keepCount := by
      rw [oldBackups, hok.2 rfl, Int.toNat_natCast] at hold
      rw [newestIds, ← List.map_drop, hsame.2]
      exact List.mem_map_of_mem hold
    exact List.disjoint_take_drop h.newestIds_nodup le_rfl hi hdrop

theorem filter_staysIn (h : Orderly a) (hok : InTurn user keepCount a e) :
    (newestIds scan a user).filter (staysIn scan a e) = (newestIds scan a user).take keepCount ++
      ((newestIds scan a user).drop keepCount).filter (staysIn scan a e) := by
  have hcut := List.take_append_drop keepCount (newestIds scan a user)
  calc (newestIds scan a user).filter (staysIn scan a e)
      = ((newestIds scan a user).take keepCount
          ++ (newestIds scan a user).drop keepCount).filter (staysIn scan a e) := by rw [hcut]
    _ = _ := by
        rw [List.filter_append, List.filter_eq_self.mpr fun _ hi => staysIn_of_mem_take h hok hi]

theorem take_filter_staysIn (h : Orderly a) (hok : InTurn user keepCount a e) :
    ((newestIds scan a user).filter (staysIn scan a e)).take keepCount =
      (newestIds scan a user).take keepCount := by
  rw [filter_staysIn h hok]
  by_cases hlong : keepCount ≤ (newestIds scan a user).length
  · rw [List.take_append_of_le_length (by rw [List.length_take]; omega), List.take_take, min_self]
  · rw [List.drop_of_length_le (by omega), List.filter_nil, List.append_nil, List.take_take, min_self]

/-- What comes first of two lists, with the same before them. -/
theorem take_append_congr {p l l' : List Uuid} {k : ℕ} (h : l.take k = l'.take k) :
    (p ++ l).take k = (p ++ l').take k := by
  have hless := congrArg (List.take (k - p.length)) h
  rw [List.take_take, List.take_take, min_eq_left (Nat.sub_le _ _)] at hless
  rw [List.take_append, List.take_append, hless]

theorem reverse_madeFor : (e.madeFor user).reverse = e.madeFor user := by
  cases e with
  | create user' c id name time =>
    rw [BackupEvent.madeFor, BackupEvent.made]
    split
    · by_cases huser : user' = user <;> simp [huser]
    · rfl
  | delete | retain | restore | other => rfl

/-- The newest backups are the newest that were ever made. -/
structure Turned (scan : BackupScan) (user : Uuid) (keepCount : ℕ) (made : List Uuid) (a : Archive) :
    Prop where
  orderly : Orderly a
  sorted : (newestIds scan a user).Pairwise fun i j => a.createdAt j < a.createdAt i
  window : (newestIds scan a user).take keepCount = made.take keepCount

/-- **The step.** -/
theorem Turned.step {made : List Uuid} (h : Turned scan user keepCount made a)
    (hok : InTurn user keepCount a e) :
    Turned scan user keepCount (e.madeFor user ++ made) (a.step env x y scan e) := by
  obtain ⟨hsorted, hids⟩ := newestIds_step env x y h.orderly hok h.sorted
  refine ⟨h.orderly.step hok.1, hsorted, ?_⟩
  rw [hids]
  exact take_append_congr ((take_filter_staysIn h.orderly hok).trans h.window)

/-- **The run.** -/
theorem Turned.run : ∀ {es : List BackupEvent} {made : List Uuid} {a : Archive},
    Turned scan user keepCount made a → Along (InTurn user keepCount) (Archive.step env x y scan) a es →
      Turned scan user keepCount ((es.flatMap (BackupEvent.madeFor user)).reverse ++ made)
        (Foundations.run (Archive.step env x y scan) a es)
  | [], _, _, h, _ => h
  | e :: es, _, _, h, hes => by
      have hrest := Turned.run (h.step hes.1) hes.2
      rw [List.flatMap_cons, List.reverse_append, reverse_madeFor, List.append_assoc]
      exact hrest

/-- **A retention that deletes the rows leaves these.** -/
theorem Turned.retain {made : List Uuid} (h : Turned scan user keepCount made a)
    {ds : Uuid → Deletion} (hds : ∀ id, (ds id).executed = true) :
    newestIds scan (a.step env x y scan (.retain user keepCount none ds)) user =
      made.take keepCount := by
  have hok : InTurn user keepCount a (.retain user keepCount none ds) := ⟨trivial, fun _ => rfl⟩
  have hgone : ((newestIds scan a user).drop keepCount).filter
      (staysIn scan a (.retain user keepCount none ds)) = [] := by
    rw [List.filter_eq_nil_iff]
    intro i hi hstays
    rw [newestIds, ← List.map_drop] at hi
    obtain ⟨o, ho, rfl⟩ := List.mem_map.mp hi
    rw [staysIn, Bool.not_eq_true', List.any_eq_false] at hstays
    refine hstays o ?_ ?_
    · rw [removed, if_pos ⟨rfl, Int.natCast_nonneg _⟩, oldBackups, Int.toNat_natCast]
      exact ho
    · rw [Bool.and_eq_true, decide_eq_true_eq]
      exact ⟨hds o.id, rfl⟩
  rw [(newestIds_step env x y h.orderly hok h.sorted).2, filter_staysIn h.orderly hok, hgone,
    List.append_nil]
  exact h.window

end Window

/-- **A retention keeps the newest of all that were made**: in every run in which the backups of a user
are made one after the other, and are deleted by retentions that keep as many each time, the newest
that there are are the newest that there ever were; and a retention whose deletions succeed leaves
these, and no other. -/
theorem kept_ids (env : Env) (x : Reading) (y : Writing) (scan : BackupScan) (a : Archive)
    (h : Orderly a) (user : Uuid)
    (htimes : (newestIds scan a user).Pairwise fun i j => a.createdAt j < a.createdAt i)
    (keepCount : ℕ) (es : List BackupEvent)
    (hes : Along (InTurn user keepCount) (Archive.step env x y scan) a es) :
    let made := (es.flatMap (BackupEvent.madeFor user)).reverse ++ newestIds scan a user
    let after := run (Archive.step env x y scan) a es
    (newestIds scan after user).take keepCount = made.take keepCount ∧
      ∀ ds : Uuid → Deletion, (∀ id, (ds id).executed = true) →
        newestIds scan (after.step env x y scan (.retain user keepCount none ds)) user =
          made.take keepCount := by
  have hend := Turned.run (Turned.mk h htimes rfl) hes
  exact ⟨hend.window, fun ds hds => hend.retain hds⟩

open Pcos.Sample Sample in
/-- Alice makes a second backup and keeps one. -/
theorem kept_ids_second :
    (newestIds inAnyOrder (run (Archive.step env readingBack writing inAnyOrder) archive
        [.create alice course id2 "c" 1]) alice).take 1 = [id2] ∧
      ∀ ds : Uuid → Deletion, (∀ id, (ds id).executed = true) →
        newestIds inAnyOrder ((run (Archive.step env readingBack writing inAnyOrder) archive
          [.create alice course id2 "c" 1]).step env readingBack writing inAnyOrder
            (.retain alice 1 none ds)) alice = [id2] :=
  kept_ids env readingBack writing inAnyOrder archive ⟨by decide, by decide⟩ alice (by decide) 1
    [.create alice course id2 "c" 1] ⟨⟨(by decide : ∀ k ∈ archive.keys, k.id ≠ id2), fun _ => by decide⟩, trivial⟩

end Pcos.Backups
