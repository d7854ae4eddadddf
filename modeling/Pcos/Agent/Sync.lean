import Pcos.Agent.LocalDb
import Pcos.Foundations.Digest
import Pcos.Foundations.Runs

/-!
# Agent/Sync — the watcher and the sync loop, interleaved (`watcher.rs`, `sync.rs`)

Two tasks share the `file_cache` table.  The **watcher** handles one filesystem event at a time:
`index_file` stats the file, reads and hashes it, and upserts the row; a removal deletes the row.
The **sync loop** takes a snapshot of the pending rows and, row by row, reads the file, uploads it
and marks the path as synced.  A task can be overtaken at every one of these points.

`uploads` records what the server has accepted, path and bytes.  An upload large enough for the
chunked path is never accepted, so an accepted upload is one read of the whole file.
-/

namespace Pcos

open Foundations

/-- Where the watcher is in `index_file`. -/
inductive WatcherPhase
  | idle
  | statted (path : String) (size : ℤ) (modified : String)
  | hashed (path : String) (size : ℤ) (modified hash : String)

/-- Where the sync loop is in a pass over its snapshot. -/
inductive SyncPhase
  | sleeping
  | taking (rest : List PendingRow)
  | uploading (row : PendingRow) (content : Bytes) (rest : List PendingRow)
  | uploaded (row : PendingRow) (content : Bytes) (remoteId : String) (rest : List PendingRow)

structure Agent where
  disk : String → Option Bytes
  cache : FileCache
  watcher : WatcherPhase
  sync : SyncPhase
  uploads : List (String × Bytes)

inductive AgentEvent
  /-- Somebody writes or deletes a file. -/
  | edit (path : String) (content : Option Bytes)
  /-- `index_file` reads the metadata of a changed file. -/
  | stat (path modified : String)
  /-- …then its bytes, and hashes them. -/
  | hash
  /-- …then upserts the row. -/
  | upsert
  /-- A removal deletes the row. -/
  | remove (path : String)
  /-- The sync loop wakes up and takes a snapshot. -/
  | snapshot
  /-- `upload_file` reads the next file of the snapshot; a file that is gone is skipped. -/
  | read
  /-- The server accepts the upload. -/
  | accept (remoteId : String)
  /-- The upload fails. -/
  | fail
  /-- The row of the uploaded path is marked, at time `now`. -/
  | mark (now : ℕ)

namespace Agent

variable (sha256 : Bytes → String)

/-- One step of either task, or of the world around them; an event a task is not waiting for does
nothing. -/
def step (s : Agent) : AgentEvent → Agent
  | .edit path content => { s with disk := fun p => if p = path then content else s.disk p }
  | .stat path modified =>
    match s.watcher, s.disk path with
    | .idle, some data => { s with watcher := .statted path data.length modified }
    | _, _ => s
  | .hash =>
    match s.watcher with
    | .statted path size modified =>
      match s.disk path with
      | some data => { s with watcher := .hashed path size modified (sha256 data) }
      | none => { s with watcher := .idle }
    | _ => s
  | .upsert =>
    match s.watcher with
    | .hashed path size modified hash =>
      { s with cache := s.cache.upsertFile path hash size modified, watcher := .idle }
    | _ => s
  | .remove path =>
    match s.watcher with
    | .idle => { s with cache := s.cache.removeFile path }
    | _ => s
  | .snapshot =>
    match s.sync with
    | .sleeping => { s with sync := .taking s.cache.getPending }
    | _ => s
  | .read =>
    match s.sync with
    | .taking [] => { s with sync := .sleeping }
    | .taking (row :: rest) =>
      match s.disk row.path with
      | some content => { s with sync := .uploading row content rest }
      | none => { s with sync := .taking rest }
    | _ => s
  | .accept remoteId =>
    match s.sync with
    | .uploading row content rest =>
      { s with sync := .uploaded row content remoteId rest, uploads := (row.path, content) :: s.uploads }
    | _ => s
  | .fail =>
    match s.sync with
    | .uploading _ _ rest => { s with sync := .taking rest }
    | _ => s
  | .mark now =>
    match s.sync with
    | .uploaded row _ remoteId rest =>
      { s with cache := s.cache.markSynced row.path remoteId now, sync := .taking rest }
    | _ => s

/-- The agent as it starts on a disk. -/
def start (disk : String → Option Bytes) : Agent := ⟨disk, .empty, .idle, .sleeping, []⟩

/-- **Every synced row has been uploaded** with the content its hash names. -/
def NoLostUpdate (s : Agent) : Prop :=
  ∀ r ∈ s.cache.rows, r.status = .synced →
    ∃ content, (r.path, content) ∈ s.uploads ∧ sha256 content = r.sha256Hash

/-- The upload the sync loop has read but not yet marked. -/
def inFlight (s : Agent) : Option (String × Bytes) :=
  match s.sync with
  | .uploading row content _ => some (row.path, content)
  | .uploaded row content _ _ => some (row.path, content)
  | _ => none

/-- **The step does not overtake the sync loop**: the file it reads is the version its row was
indexed with, and no other version of it is indexed until its row is marked. -/
def undisturbed (s : Agent) : AgentEvent → Bool
  | .read =>
    match s.sync with
    | .taking (row :: _) =>
      match s.disk row.path with
      | some content =>
        s.cache.rows.all fun r => r.path != row.path || r.sha256Hash == sha256 content
      | none => true
    | _ => true
  | .upsert =>
    match s.watcher, s.inFlight with
    | .hashed path _ _ hash, some (path', content) => path != path' || hash == sha256 content
    | _, _ => true
  | _ => true

/-! ## The invariant behind it -/

/-- The row of the upload in flight names the version in flight, and an accepted one is recorded. -/
structure Current (s : Agent) : Prop where
  noLost : NoLostUpdate sha256 s
  flight : ∀ path content, s.inFlight = some (path, content) →
    ∀ r ∈ s.cache.rows, r.path = path → r.sha256Hash = sha256 content
  recorded : ∀ row content remoteId rest, s.sync = .uploaded row content remoteId rest →
    (row.path, content) ∈ s.uploads

variable {sha256} {s : Agent}

theorem current_start (disk : String → Option Bytes) : Current sha256 (start disk) where
  noLost r hr := absurd hr (by simp [start, FileCache.empty])
  flight path content h := by simp [inFlight, start] at h
  recorded row content remoteId rest h := by simp [start] at h

/-- A step that leaves the table and the sync loop alone keeps the invariant. -/
theorem Current.of_eq {s' : Agent} (h : Current sha256 s) (hc : s'.cache = s.cache)
    (hs : s'.sync = s.sync) (hu : s'.uploads = s.uploads) : Current sha256 s' := by
  obtain ⟨h1, h2, h3⟩ := h
  refine ⟨?_, ?_, ?_⟩
  · rw [NoLostUpdate, hc, hu]
    exact h1
  · rw [inFlight, hs, hc]
    exact h2
  · rw [hs, hu]
    exact h3

/-- …and so does one that puts nothing in flight. -/
theorem Current.of_idle {s' : Agent} (h : Current sha256 s) (hc : s'.cache = s.cache)
    (hu : s'.uploads = s.uploads) (hs : s'.inFlight = none) : Current sha256 s' where
  noLost := by
    rw [NoLostUpdate, hc, hu]
    exact h.noLost
  flight path content hf := by rw [hs] at hf; cases hf
  recorded row content remoteId rest hf := by rw [inFlight, hf] at hs; cases hs

/-- An upsert that is not of another version of the file in flight keeps it. -/
theorem Current.upsert (h : Current sha256 s) {path hash modified : String} {size : ℤ}
    (hw : s.watcher = .hashed path size modified hash)
    (hok : undisturbed sha256 s .upsert = true) :
    Current sha256 { s with cache := s.cache.upsertFile path hash size modified, watcher := .idle } where
  noLost r hr hst := by
    rcases FileCache.mem_upsertFile hr with ⟨-, -, hp⟩ | ⟨-, hr⟩
    · rw [hp] at hst
      cases hst
    · exact h.noLost r hr hst
  flight path' content hf r hr hpath := by
    rcases FileCache.mem_upsertFile hr with ⟨hp, hh, -⟩ | ⟨-, hr⟩
    · have hf' : s.inFlight = some (path', content) := hf
      simp only [undisturbed, hw, hf', Bool.or_eq_true, bne_iff_ne, beq_iff_eq] at hok
      rcases hok with hne | heq
      · exact absurd (hp.symm.trans hpath) hne
      · rw [hh, heq]
    · exact h.flight path' content hf r hr hpath
  recorded := h.recorded

/-- A read of the indexed version keeps it. -/
theorem Current.read (h : Current sha256 s) {row : PendingRow} {rest : List PendingRow}
    {content : Bytes} (hs : s.sync = .taking (row :: rest)) (hd : s.disk row.path = some content)
    (hok : undisturbed sha256 s .read = true) :
    Current sha256 { s with sync := .uploading row content rest } where
  noLost := h.noLost
  flight path content' hf r hr hpath := by
    obtain ⟨rfl, rfl⟩ : row.path = path ∧ content = content' := by
      simpa [inFlight] using hf
    simp only [undisturbed, hs, hd, List.all_eq_true, Bool.or_eq_true, bne_iff_ne,
      beq_iff_eq] at hok
    exact (hok r hr).resolve_left (fun hne => hne hpath)
  recorded row' content' remoteId rest' hf := by cases hf

/-- Marking the row of an accepted upload keeps it: the row names what was uploaded. -/
theorem Current.mark (h : Current sha256 s) {row : PendingRow} {content : Bytes}
    {remoteId : String} {rest : List PendingRow} (now : ℕ)
    (hs : s.sync = .uploaded row content remoteId rest) :
    Current sha256
      { s with cache := s.cache.markSynced row.path remoteId now, sync := .taking rest } where
  noLost r hr hst := by
    obtain ⟨r', hr', hpath, hhash, hrow⟩ := FileCache.mem_markSynced hr
    rw [← hpath, ← hhash]
    rcases hrow with hrow | hstatus
    · have hf : s.inFlight = some (row.path, content) := by rw [inFlight, hs]
      refine ⟨content, ?_, (h.flight _ _ hf r' hr' (hpath.trans hrow)).symm⟩
      rw [hpath, hrow]
      exact h.recorded row content remoteId rest hs
    · exact h.noLost r' hr' (hstatus.trans hst)
  flight path content' hf := by simp [inFlight] at hf
  recorded row' content' remoteId' rest' hf := by cases hf

theorem Current.accept (h : Current sha256 s) {row : PendingRow} {content : Bytes}
    {rest : List PendingRow} (remoteId : String) (hs : s.sync = .uploading row content rest) :
    Current sha256 { s with
      sync := .uploaded row content remoteId rest
      uploads := (row.path, content) :: s.uploads } where
  noLost r hr hst := by
    obtain ⟨content', hmem, heq⟩ := h.noLost r hr hst
    exact ⟨content', List.mem_cons_of_mem _ hmem, heq⟩
  flight path content' hf := h.flight path content' (by rw [inFlight, hs]; exact hf)
  recorded row' content' remoteId' rest' hf := by
    cases hf
    exact List.mem_cons_self

theorem Current.remove (h : Current sha256 s) (path : String) :
    Current sha256 { s with cache := s.cache.removeFile path } where
  noLost r hr := h.noLost r (FileCache.mem_removeFile hr)
  flight path' content hf r hr := h.flight path' content hf r (FileCache.mem_removeFile hr)
  recorded := h.recorded

/-- **A step that does not overtake the sync loop keeps the invariant.** -/
theorem Current.step (h : Current sha256 s) (e : AgentEvent)
    (hok : undisturbed sha256 s e = true) : Current sha256 (step sha256 s e) := by
  cases e with
  | edit path content => exact h.of_eq rfl rfl rfl
  | stat path modified =>
    simp only [Agent.step]
    split
    · exact h.of_eq rfl rfl rfl
    · exact h
  | hash =>
    simp only [Agent.step]
    split
    · split
      · exact h.of_eq rfl rfl rfl
      · exact h.of_eq rfl rfl rfl
    · exact h
  | upsert =>
    simp only [Agent.step]
    split
    case h_1 hw => exact h.upsert hw hok
    case h_2 => exact h
  | remove path =>
    simp only [Agent.step]
    split
    · exact h.remove path
    · exact h
  | snapshot =>
    simp only [Agent.step]
    split
    · exact h.of_idle rfl rfl rfl
    · exact h
  | read =>
    simp only [Agent.step]
    split
    case h_1 => exact h.of_idle rfl rfl rfl
    case h_2 row rest hs =>
      split
      case h_1 content hd => exact h.read hs hd hok
      case h_2 => exact h.of_idle rfl rfl rfl
    case h_3 => exact h
  | accept remoteId =>
    simp only [Agent.step]
    split
    case h_1 row content rest hs => exact h.accept remoteId hs
    case h_2 => exact h
  | fail =>
    simp only [Agent.step]
    split
    · exact h.of_idle rfl rfl rfl
    · exact h
  | mark now =>
    simp only [Agent.step]
    split
    case h_1 row content remoteId rest hs => exact h.mark now hs
    case h_2 => exact h

/-- **No update is lost in a run that never overtakes the sync loop.** -/
theorem noLostUpdate_of_undisturbed (sha256 : Bytes → String) (disk : String → Option Bytes)
    (es : List AgentEvent)
    (h : Along (fun s e => undisturbed sha256 s e = true) (step sha256) (start disk) es) :
    NoLostUpdate sha256 (run (step sha256) (start disk) es) :=
  (h.invariant (P := Current sha256) (fun _ e hs hok => hs.step e hok) (current_start disk)).noLost

/-- A disk with the one-byte file `f`. -/
def oneFile : String → Option Bytes := fun p => if p = "f" then some [0x61] else none

/-- `f` is indexed, uploaded and marked, with nothing in between. -/
def quietPass : List AgentEvent :=
  [.stat "f" "1", .hash, .upsert, .snapshot, .read, .accept "r", .mark 10]

theorem noLostUpdate_quietPass :
    (run (step knownSha256) (start oneFile) quietPass).cache.rows.map (·.status) = [.synced]
      ∧ NoLostUpdate knownSha256 (run (step knownSha256) (start oneFile) quietPass) :=
  ⟨by decide, noLostUpdate_of_undisturbed knownSha256 oneFile quietPass (by decide)⟩

/-- `f` is edited and indexed again after it was uploaded and before its row is marked. -/
def overtakenPass : List AgentEvent :=
  [.stat "f" "1", .hash, .upsert, .snapshot, .read, .accept "r",
    .edit "f" (some [0x62]), .stat "f" "2", .hash, .upsert, .mark 10]

/-- **The second version is marked as synced and never uploaded.** -/
theorem lostUpdate_overtakenPass :
    ¬ NoLostUpdate knownSha256 (run (step knownSha256) (start oneFile) overtakenPass) := by
  intro h
  have hrow : ⟨"f", knownSha256 [0x62], 1, "2", some 10, .synced, some "r"⟩
      ∈ (run (step knownSha256) (start oneFile) overtakenPass).cache.rows := by decide
  have huploads : (run (step knownSha256) (start oneFile) overtakenPass).uploads
      = [("f", [0x61])] := by decide
  obtain ⟨content, hmem, heq⟩ := h _ hrow rfl
  rw [huploads, List.mem_singleton] at hmem
  cases hmem
  exact absurd heq (by decide)

end Agent

end Pcos
