import Pcos.Backend.Change
import Pcos.Foundations.Cursor

/-!
# Backend/ChangeFeed — what a polling client hears of (`sync_engine/src/service.rs`)

`get_changes` lists the entries of a user whose `updated_at` is after a time, the newest first and
1000 at most.  A client that polls it passes the newest time that it has received.  `Feed` is such a
client next to the database: `unheard` are the entries that changed and were not reported since.

Every write stamps what it changes with its time (`step_stamped`), so an entry is heard of unless its
stamp is not after the cursor: it shares the time of an entry that was reported before, its
transaction began earlier and ended later, or it is cut off a page and the cursor passes it.  A
deleted entry is never heard of.
-/

namespace Pcos

open Foundations

/-! ## The rows of a restored backup -/

/-- A row in the manifest of a backup (`backup/src/service.rs`). -/
structure FileEntryBackupRecord where
  id : Uuid
  parentId : Option Uuid
  name : String
  entryType : EntryType
  mimeType : Option String
  sizeBytes : ℤ
  sha256Hash : Option String
  storagePath : Option String
  isTrashed : Bool

/-- The row that is proposed for insertion. -/
def FileEntryBackupRecord.proposed (user : Uuid) (now : ℤ) (entry : FileEntryBackupRecord) :
    FileEntry where
  id := entry.id
  userId := user
  parentId := entry.parentId
  name := entry.name
  entryType := entry.entryType
  mimeType := entry.mimeType
  sizeBytes := entry.sizeBytes
  sha256Hash := entry.sha256Hash
  storagePath := entry.storagePath
  isTrashed := entry.isTrashed
  trashedAt := none
  createdAt := now
  updatedAt := now

/-- `ON CONFLICT (id) DO UPDATE SET …`. -/
def FileEntryBackupRecord.onto (now : ℤ) (entry : FileEntryBackupRecord) (r : FileEntry) :
    FileEntry :=
  { r with
    parentId := entry.parentId
    name := entry.name
    sizeBytes := entry.sizeBytes
    sha256Hash := entry.sha256Hash
    storagePath := entry.storagePath
    isTrashed := entry.isTrashed
    updatedAt := now }

/-- The statement that restores one row, whose error is ignored. -/
def restoreEntry (user : Uuid) (now : ℤ) (entry : FileEntryBackupRecord) (w : World) : World :=
  let r := entry.proposed user now
  let table :=
    if fileColumns ⊆ w.columns ∧ r.Fits then
      if (w.entries.find? entry.id).isSome then
        w.entries.update (fun r => r.id = entry.id) (entry.onto now)
      else if (w.users user).isSome then w.entries.insert r
      else none
    else none
  match table with
  | some t => { w with entries := t }
  | none => w

/-! ## The query -/

structure ChangeEvent where
  id : Uuid
  fileEntryId : Uuid
  changeType : String
  name : String
  version : ℤ
  timestamp : ℤ
  deriving DecidableEq

def ChangeEvent.of (r : FileEntry) : ChangeEvent := ⟨r.id, r.id, "modified", r.name, 1, r.updatedAt⟩

/-- The entries of a user. -/
def rowsOf (w : World) (user : Uuid) : List FileEntry := w.entries.rows.filter fun r => r.userId = user

/-- `WHERE user_id = $1 AND updated_at > $2`. -/
def newerRows (w : World) (user : Uuid) (since : ℤ) : List FileEntry :=
  after FileEntry.updatedAt (rowsOf w user) since

/-- The `LIMIT`. -/
def changesLimit : ℕ := 1000

/-- `get_changes`, for the order in which the database lists the rows of one time; nothing, if it
would list them in another. -/
def getChanges (w : World) (user : Uuid) (since : Option ℤ) (now : ℤ) (listing : List FileEntry) :
    Option (List ChangeEvent) :=
  let sinceTs := since.getD (now - thirtyDays)
  if Lists FileEntry.updatedAt (newerRows w user sinceTs) listing then
    some ((listing.take changesLimit).map .of)
  else none

/-! ## The client -/

/-- The database and a client that polls it. -/
structure Feed where
  world : World
  /-- The newest time that the client has received, or the time it started at. -/
  since : ℤ
  /-- The entries that changed and have not been reported since. -/
  unheard : List Uuid

/-- What happens: a request, a row that is restored, or a poll. -/
inductive FeedEvent
  | request (e : Event)
  | restore (user : Uuid) (now : ℤ) (entry : FileEntryBackupRecord)
  | poll (now : ℤ) (listing : List FileEntry)

/-- The entries of the user that a write adds, rewrites or deletes. -/
def changed (user : Uuid) (w w' : World) : List Uuid :=
  ((w.entries.rows ++ w'.entries.rows).map FileEntry.id).filter fun x =>
    w.owned user x ≠ w'.owned user x

/-- A write at a time: what it changes after the start is to be heard of. -/
def Feed.written (user : Uuid) (start now : ℤ) (w : World) (s : Feed) : Feed :=
  { s with
    world := w
    unheard := if start < now then s.unheard ++ changed user s.world w else s.unheard }

/-- An answer: the client moves its cursor and has heard of what it lists. -/
def Feed.polled (changes : List ChangeEvent) (s : Feed) : Feed :=
  { s with
    since := newestStamp ChangeEvent.timestamp s.since changes
    unheard := unreported ChangeEvent.fileEntryId s.unheard changes }

def feedStep (env : Env) (user : Uuid) (start : ℤ) (s : Feed) : FeedEvent → Feed
  | .request e => s.written user start e.call.now (step env s.world e)
  | .restore u now entry => s.written user start now (restoreEntry u now entry s.world)
  | .poll now listing =>
    match getChanges s.world user (some s.since) now listing with
    | some changes => s.polled changes
    | none => s

/-- **A poll that returns an empty list finds nothing unreported.** -/
def CaughtUp (user : Uuid) (s : Feed) : Prop :=
  ∀ now listing, getChanges s.world user (some s.since) now listing = some [] → s.unheard = []

/-! ## Every write stamps what it changes -/

/-- The rows of the second world are old ones or carry the time. -/
def Stamped (now : ℤ) (w w' : World) : Prop :=
  ∀ r ∈ w'.entries.rows, r ∈ w.entries.rows ∨ r.updatedAt = now

section Stamps

variable {env : Env} {w : World} {e : Event} {now : ℤ} {t : FileTable} {r : FileEntry}
  {p : FileEntry → Bool} {f : FileEntry → FileEntry}

theorem mem_or_stamped_of_insert (ht : w.entries.insert r = some t) (hr : r.updatedAt = now) :
    ∀ r' ∈ t.rows, r' ∈ w.entries.rows ∨ r'.updatedAt = now := by
  intro r' hr'
  rcases (FileTable.mem_insert ht).mp hr' with hr' | rfl
  · exact .inl hr'
  · exact .inr hr

theorem mem_or_stamped_of_update (ht : w.entries.update p f = some t)
    (hf : ∀ r, (f r).updatedAt = now) : ∀ r ∈ t.rows, r ∈ w.entries.rows ∨ r.updatedAt = now := by
  intro r' hr'
  obtain ⟨r, hr, rfl⟩ := (FileTable.mem_update ht).mp hr'
  by_cases hp : p r
  · rw [if_pos hp]
    exact .inr (hf r)
  · rw [if_neg hp]
    exact .inl hr

theorem Creates.updatedAt (h : Creates env w e r) : r.updatedAt = e.call.now := by
  rcases h with h | ⟨cols, data, h⟩ <;> cases h <;> rfl

/-- The requests that rename an entry or touch its time, which `Change` lets set any time. -/
theorem stamped_of_relabels (h : e.request.relabels = true) :
    Stamped e.call.now w (step env w e) := by
  have hkeep : Stamped e.call.now w w := fun r hr => .inl hr
  cases hreq : e.request <;> simp only [hreq, Request.relabels, Bool.false_eq_true] at h
  case renameItem item name =>
    simp only [step, hreq]
    apply wp.leaves
    simp only [renameItem, wp_bind, wp_ensure, wp_get, wp_verifyOwnership, wp_updateEntries, wp_pure]
    exact ⟨fun _ => ⟨fun r _ => ⟨fun _ => ⟨fun t ht => mem_or_stamped_of_update ht fun _ => rfl,
      fun _ => hkeep⟩, fun _ => hkeep⟩, fun _ => hkeep⟩, fun _ => hkeep⟩
  case writeChunk transferId offset dataBase64 =>
    simp only [step, hreq]
    apply wp.leaves
    simp only [writeChunk, parseTransferUuid, wp_bind, wp_okOr, wp_get, wp_modify, wp_updateEntries,
      wp_pure]
    exact ⟨fun file _ => ⟨fun r _ => ⟨fun data _ => ⟨fun t ht =>
      mem_or_stamped_of_update ht fun _ => rfl, fun _ => hkeep⟩, fun _ => hkeep⟩, fun _ => hkeep⟩,
      fun _ => hkeep⟩
  case webdavMove path destination =>
    simp only [step, hreq]
    apply wp.leaves
    simp only [webdavMove, destinationName, wp_bind, wp_okOr, wp_get]
    refine ⟨fun name _ => ?_, fun _ => hkeep⟩
    split
    · simp only [wp_bind, wp_updateEntries, wp_pure]
      exact ⟨fun t ht => mem_or_stamped_of_update ht fun _ => rfl, fun _ => hkeep⟩
    · exact hkeep

/-- **A request stamps the rows that it writes.** -/
theorem step_stamped (env : Env) (w : World) (e : Event) :
    Stamped e.call.now w (step env w e) := by
  by_cases hreq : e.request.relabels = true
  · exact stamped_of_relabels hreq
  · have hkeep : Stamped e.call.now w w := fun r hr => .inl hr
    generalize hw' : step env w e = w'
    have h : Change env w e w' := hw' ▸ step_change env w e
    cases h with
    | insert hr ht => exact mem_or_stamped_of_insert ht (@Creates.updatedAt env _ _ _ (.inl hr))
    | store d hr ht => exact mem_or_stamped_of_insert ht (Creates.updatedAt (.inr ⟨_, _, hr⟩))
    | relabel d hreq' => exact absurd hreq' hreq
    | delete hp v hv => exact fun r hr => .inl (FileTable.mem_delete.mp hr).1
    | overwrite hr ht => exact mem_or_stamped_of_update ht fun _ => rfl
    | move _ _ _ _ ht => exact mem_or_stamped_of_update ht fun _ => rfl
    | trash hp time ht => exact mem_or_stamped_of_update ht fun _ => rfl
    | restore _ _ _ ht => exact mem_or_stamped_of_update ht fun _ => rfl
    | flatten _ _ _ _ ht => exact mem_or_stamped_of_update ht fun _ => rfl
    | finalize d _ _ _ _ _ ht => exact mem_or_stamped_of_update ht fun _ => rfl
    | version _ _ _ _ ht => exact mem_or_stamped_of_update ht fun _ => rfl
    | _ => exact hkeep

/-- …and so does a restored backup. -/
theorem restoreEntry_stamped (user : Uuid) (now : ℤ) (entry : FileEntryBackupRecord) (w : World) :
    Stamped now w (restoreEntry user now entry w) := by
  simp only [restoreEntry]
  split
  case h_2 => exact fun r hr => .inl hr
  case h_1 t ht =>
    split_ifs at ht
    · exact mem_or_stamped_of_update ht fun _ => rfl
    · exact mem_or_stamped_of_insert ht rfl

end Stamps

/-! ## What the client hears of -/

section Client

variable {env : Env} {user x : Uuid} {start now : ℤ} {w w' : World} {s : Feed} {r : FileEntry}

theorem mem_rowsOf : r ∈ rowsOf w user ↔ r ∈ w.entries.rows ∧ r.userId = user := by
  rw [rowsOf, List.mem_filter, decide_eq_true_eq]

theorem owned_eq_some_iff_mem : w.owned user x = some r ↔ r ∈ rowsOf w user ∧ r.id = x := by
  rw [World.owned_eq_some, mem_rowsOf]
  tauto

/-- A row of the user stays, or its entry is changed. -/
theorem mem_or_changed (hr : r ∈ rowsOf w user) : r ∈ rowsOf w' user ∨ r.id ∈ changed user w w' := by
  have hown : w.owned user r.id = some r := owned_eq_some_iff_mem.mpr ⟨hr, rfl⟩
  by_cases h : w.owned user r.id = w'.owned user r.id
  · exact .inl (owned_eq_some_iff_mem.mp (h ▸ hown)).1
  · refine .inr (List.mem_filter.mpr ⟨?_, decide_eq_true h⟩)
    exact List.mem_map_of_mem (List.mem_append_left _ (mem_rowsOf.mp hr).1)

/-- A changed entry that is still there carries the time of the write. -/
theorem stamped_of_changed (hw : Stamped now w w') (hx : x ∈ changed user w w')
    (h : (w'.owned user x).isSome) : ∃ r ∈ rowsOf w' user, r.id = x ∧ r.updatedAt = now := by
  obtain ⟨r, hr⟩ := Option.isSome_iff_exists.mp h
  obtain ⟨hmem, hid⟩ := owned_eq_some_iff_mem.mp hr
  obtain ⟨hrow, huser⟩ := mem_rowsOf.mp hmem
  refine ⟨r, hmem, hid, (hw r hrow).resolve_left fun hold => ?_⟩
  have hsame : w.owned user x = some r := owned_eq_some_iff_mem.mpr ⟨mem_rowsOf.mpr ⟨hold, huser⟩, hid⟩
  exact of_decide_eq_true (List.mem_filter.mp hx).2 (hsame.trans hr.symm)

/-- The write changes nothing that the client has to hear of behind its cursor, and deletes nothing
of it. -/
def Feed.InTime (user : Uuid) (start now : ℤ) (w : World) (s : Feed) : Prop :=
  ∀ x ∈ changed user s.world w, start < now ∨ x ∈ s.unheard →
    s.since < now ∧ (w.owned user x).isSome

instance : Decidable (s.InTime user start now w) := by
  unfold Feed.InTime
  infer_instance

/-- The condition on what happens: writes are in time, and a page cuts off nothing unheard of. -/
def FeedOk (env : Env) (user : Uuid) (start : ℤ) (s : Feed) : FeedEvent → Prop
  | .request e => s.InTime user start e.call.now (step env s.world e)
  | .restore u now entry => s.InTime user start now (restoreEntry u now entry s.world)
  | .poll _ listing => ∀ r ∈ listing.drop changesLimit, r.id ∉ s.unheard

instance : ∀ s e, Decidable (FeedOk env user start s e)
  | s, .request e => inferInstanceAs (Decidable (s.InTime user start e.call.now (step env s.world e)))
  | s, .restore u now entry =>
    inferInstanceAs (Decidable (s.InTime user start now (restoreEntry u now entry s.world)))
  | s, .poll _ listing =>
    inferInstanceAs (Decidable (∀ r ∈ listing.drop changesLimit, r.id ∉ s.unheard))

/-- Each entry to be heard of has a row of the user after the cursor. -/
def Feed.Heard (user : Uuid) (s : Feed) : Prop :=
  Pending FileEntry.id FileEntry.updatedAt (rowsOf s.world user) s.since s.unheard

/-- A write in time keeps it. -/
theorem Feed.Heard.written (h : s.Heard user) (hw : Stamped now s.world w)
    (hok : s.InTime user start now w) : (s.written user start now w).Heard user := by
  have hold : Pending FileEntry.id FileEntry.updatedAt (rowsOf w user) s.since s.unheard := by
    refine Pending.written h (fun r hr => mem_or_changed hr) fun x hx hun => ?_
    obtain ⟨hlt, hsome⟩ := hok x hx (.inr hun)
    obtain ⟨r, hr, hid, hnow⟩ := stamped_of_changed hw hx hsome
    exact ⟨r, hr, hid, hnow ▸ hlt⟩
  unfold Feed.Heard Feed.written
  split
  case isFalse => exact hold
  case isTrue hstart =>
    intro x hx
    rcases List.mem_append.mp hx with hx | hx
    · exact hold x hx
    · obtain ⟨hlt, hsome⟩ := hok x hx (.inl hstart)
      obtain ⟨r, hr, hid, hnow⟩ := stamped_of_changed hw hx hsome
      exact ⟨r, hr, hid, hnow ▸ hlt⟩

theorem getChanges_eq_some {since now : ℤ} {listing : List FileEntry} {changes : List ChangeEvent} :
    getChanges w user (some since) now listing = some changes ↔
      Lists FileEntry.updatedAt (after FileEntry.updatedAt (rowsOf w user) since) listing
        ∧ changes = (listing.take changesLimit).map .of := by
  change (if Lists FileEntry.updatedAt (after FileEntry.updatedAt (rowsOf w user) since) listing
    then _ else _) = _ ↔ _
  rw [Option.ite_none_right_eq_some, Option.some.injEq, eq_comm (a := changes)]

theorem unreported_changes (unheard : List Uuid) (page : List FileEntry) :
    unreported ChangeEvent.fileEntryId unheard (page.map .of)
      = unreported FileEntry.id unheard page := by
  rw [unreported, unreported, List.map_map]
  rfl

/-- **A poll whose page cuts off nothing unheard of reports all there is.** -/
theorem unheard_polled {now : ℤ} {listing : List FileEntry} {changes : List ChangeEvent}
    (h : s.Heard user) (hcut : ∀ r ∈ listing.drop changesLimit, r.id ∉ s.unheard)
    (hpoll : getChanges s.world user (some s.since) now listing = some changes) :
    (s.polled changes).unheard = [] := by
  obtain ⟨hlists, rfl⟩ := getChanges_eq_some.mp hpoll
  exact (unreported_changes _ _).trans (h.unreported_eq_nil hlists hcut)

theorem Feed.Heard.step (env : Env) {e : FeedEvent} (h : s.Heard user)
    (hok : FeedOk env user start s e) : (feedStep env user start s e).Heard user := by
  cases e with
  | request e => exact h.written (step_stamped env s.world e) hok
  | restore u now entry => exact h.written (restoreEntry_stamped u now entry s.world) hok
  | poll now listing =>
    simp only [feedStep]
    split
    case h_2 => exact h
    case h_1 changes hpoll =>
      intro x hx
      rw [unheard_polled h hok hpoll] at hx
      cases hx

/-- A client that has an entry to hear of is not told that there is none. -/
theorem Feed.Heard.toCaughtUp (h : s.Heard user) : CaughtUp user s := by
  intro now listing hpoll
  obtain ⟨hlists, hnil⟩ := getChanges_eq_some.mp hpoll
  have hlisting : listing = [] := by
    have htake := List.map_eq_nil_iff.mp hnil.symm
    exact (List.take_eq_nil_iff.mp htake).resolve_left (by decide)
  have hempty : (s.polled []).unheard = [] :=
    unheard_polled h (by rw [hlisting]; exact fun r hr => absurd hr (List.not_mem_nil)) hpoll
  exact (List.filter_eq_self.mpr fun x _ => by simp).symm.trans hempty

/-- **A page that cuts off an entry loses it**: the next poll is empty and the entry unheard of. -/
theorem not_caughtUp_of_cut {now : ℤ} {listing : List FileEntry} {changes : List ChangeEvent}
    (hpoll : getChanges s.world user (some s.since) now listing = some changes)
    (hr : r ∈ listing.drop changesLimit) (hun : r.id ∈ s.unheard) :
    ¬ CaughtUp user (s.polled changes) := by
  obtain ⟨hlists, rfl⟩ := getChanges_eq_some.mp hpoll
  have hpk : (listing.map FileEntry.id).Nodup := by
    refine (hlists.1.map _).nodup_iff.mpr (s.world.entries.valid.pk.sublist (.map _ ?_))
    exact List.filter_sublist.trans List.filter_sublist
  rw [← List.take_append_drop changesLimit listing, List.map_append] at hpk
  have hkept : r.id ∈ unreported FileEntry.id s.unheard (listing.take changesLimit) := by
    refine List.mem_filter.mpr ⟨hun, decide_eq_true fun hmem => ?_⟩
    exact (List.nodup_append.mp hpk).2.2 _ hmem _ (List.mem_map_of_mem hr) rfl
  intro hcaught
  have hsince : (s.polled ((listing.take changesLimit).map .of)).since
      = newestStamp FileEntry.updatedAt s.since (listing.take changesLimit) := by
    simp only [Feed.polled, newestStamp, List.foldl_map]
    rfl
  have hnil := hcaught now [] (getChanges_eq_some.mpr ⟨?_, rfl⟩)
  · exact List.ne_nil_of_mem hkept ((unreported_changes _ _).symm.trans hnil)
  · rw [hsince]
    have hafter := after_newestStamp (n := 999) hlists
    exact ⟨hafter ▸ .nil, .nil⟩

end Client

/-- **A client is caught up when a poll returns an empty list**, along a run whose writes are in time
and whose polls cut off nothing unheard of. -/
theorem caughtUp (env : Env) (user : Uuid) (start : ℤ) (w : World) (es : List FeedEvent)
    (h : Along (FeedOk env user start) (feedStep env user start) ⟨w, start, []⟩ es) :
    CaughtUp user (run (feedStep env user start) ⟨w, start, []⟩ es) :=
  (h.invariant (P := Feed.Heard user) (fun _ _ hs hok => hs.step env hok)
    fun _ hx => absurd hx List.not_mem_nil).toCaughtUp

open Sample

/-- A folder, of one request and one time. -/
def folderMade (now : ℤ) (id : Uuid) (name : String) : FeedEvent :=
  .request (sent alice now id (.createFolder none name))

theorem caughtUp_twoFolders :
    CaughtUp alice (run (feedStep env alice 0) ⟨start, 0, []⟩
      [folderMade 1 id1 "a", .poll 2 [newFolder ⟨alice, 1, id1, tmp, 0⟩ none "a"], folderMade 3 id2 "b",
        .poll 4 [newFolder ⟨alice, 3, id2, tmp, 0⟩ none "b"]]) :=
  caughtUp env alice 0 start _ (by decide)

/-- **An entry that shares the time of one reported before is never heard of**, nor is one that is
deleted. -/
theorem not_caughtUp :
    ¬ CaughtUp alice (run (feedStep env alice 0) ⟨start, 0, []⟩
        [folderMade 1 id1 "a", .poll 2 [newFolder ⟨alice, 1, id1, tmp, 0⟩ none "a"],
          folderMade 1 id2 "b"])
      ∧ ¬ CaughtUp alice (run (feedStep env alice 0) ⟨start, 0, []⟩
        [folderMade 1 id1 "a", .request (sent alice 2 id2 (.deleteItem id1)),
          .request (sent alice 3 id2 (.permanentDelete id1))]) := by
  constructor
  · intro h
    exact absurd (h 3 [] (by decide)) (by decide)
  · intro h
    exact absurd (h 3 [] (by decide)) (by decide)

end Pcos
