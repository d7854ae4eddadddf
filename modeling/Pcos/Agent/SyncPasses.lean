import Mathlib.Data.List.Perm.Subperm
import Pcos.Agent.Sync
import Pcos.Foundations.Batches

/-!
# Agent/SyncPasses — what the sync loop gets to, a hundred rows at a time (`sync.rs`, `db.rs`)

`get_pending` selects `LIMIT 100` in the order of the table, and a row whose upload fails stays
`pending` where it is.  So the rows that cannot be uploaded come up again in every pass, and a
hundred of them are a batch of their own:

* `starved` — whatever the watcher and the sync loop do, and in whatever order: a file behind a
  hundred rows that are never accepted is never uploaded.
* `synced_iff` — with nothing in between, a pending file the server takes is synced after enough
  passes iff fewer than a hundred rows that cannot be uploaded stand before it.
-/

namespace Pcos

open Foundations

namespace FileCache

/-- The paths of the pending rows, in the order of the table. -/
def pendingPaths (c : FileCache) : List String :=
  (c.rows.filter fun r => r.status == .pending).map CacheRow.path

variable {c : FileCache} {path : String}

theorem map_path_getPending : c.getPending.map PendingRow.path = c.pendingPaths.take 100 := by
  rw [getPending, pendingPaths, List.map_map, List.map_take]
  rfl

theorem nodup_pendingPaths : c.pendingPaths.Nodup :=
  c.pk.sublist (List.filter_sublist.map _)

theorem mem_pendingPaths :
    path ∈ c.pendingPaths ↔ ∃ r ∈ c.rows, r.status = .pending ∧ r.path = path := by
  simp [pendingPaths, and_assoc]

theorem rows_mapRows (f : CacheRow → CacheRow) (hf : ∀ r, (f r).path = r.path) :
    (c.mapRows f hf).rows = c.rows.map f := rfl

theorem rows_removeFile : (c.removeFile path).rows = c.rows.filter fun r => r.path != path := rfl

theorem map_path_mapRows (f : CacheRow → CacheRow) (hf : ∀ r, (f r).path = r.path) :
    (c.mapRows f hf).rows.map CacheRow.path = c.rows.map CacheRow.path := by
  rw [rows_mapRows, List.map_map, show CacheRow.path ∘ f = CacheRow.path from funext hf]

/-- Marking takes one path off the pending ones. -/
theorem pendingPaths_markSynced (remoteId : String) (now : ℕ) :
    (c.markSynced path remoteId now).pendingPaths = c.pendingPaths.filter (· != path) := by
  rw [pendingPaths, pendingPaths, markSynced, rows_mapRows]
  induction c.rows with
  | nil => rfl
  | cons r rows ih =>
    by_cases hp : r.path = path <;> cases hst : r.status <;>
      simp [hp, hst, ← ih]

/-- With one row a path, a path is synced exactly if it is there and not pending. -/
theorem synced_iff_notMem_pendingPaths (h : path ∈ c.rows.map CacheRow.path) :
    (∃ r ∈ c.rows, r.path = path ∧ r.status = .synced) ↔ path ∉ c.pendingPaths := by
  rw [mem_pendingPaths]
  refine ⟨fun ⟨r, hr, hp, hst⟩ ⟨r', hr', hst', hp'⟩ => ?_, fun hnot => ?_⟩
  · obtain rfl := List.inj_on_of_nodup_map c.pk hr' hr (hp'.trans hp.symm)
    rw [hst] at hst'
    cases hst'
  · obtain ⟨r, hr, hp⟩ := List.mem_map.mp h
    cases hst : r.status with
    | pending => exact absurd ⟨r, hr, hst, hp⟩ hnot
    | synced => exact ⟨r, hr, hp, hst⟩

end FileCache

namespace Agent

variable (sha256 : Bytes → String)

/-! ## Behind a hundred rows that are never accepted -/

/-- **The step serves no path of `jam`**: no upload of one is accepted, and none is removed. -/
def leavesJam (jam : List String) (s : Agent) : AgentEvent → Bool
  | .accept _ =>
    match s.sync with
    | .uploading row _ _ => decide (row.path ∉ jam)
    | _ => true
  | .remove path => decide (path ∉ jam)
  | _ => true

/-- The rows of its snapshot the sync loop is not done with. -/
def unfinished (s : Agent) : List PendingRow :=
  match s.sync with
  | .sleeping => []
  | .taking rest => rest
  | .uploading row _ rest => row :: rest
  | .uploaded row _ _ rest => row :: rest

/-- The rows of a jam stand in the table before any of `path`, and those that are done are pending;
so is that of `path`, if there is one. -/
def Behind (jam done : List String) (path : String) (c : FileCache) : Prop :=
  ∃ front back, c.rows = front ++ back
    ∧ (∀ p ∈ jam, ∃ r ∈ front, r.path = p ∧ (p ∈ done → r.status = .pending))
    ∧ (∀ r ∈ front, r.path ≠ path) ∧ ∀ r ∈ back, r.path = path → r.status = .pending

/-- The whole jam is pending, and neither is `path` in the hands of the sync loop, nor a path of the
jam about to be marked. -/
structure Starved (jam : List String) (path : String) (s : Agent) : Prop where
  behind : Behind jam jam path s.cache
  untaken : ∀ row ∈ s.unfinished, row.path ≠ path
  unmarked : ∀ row content remoteId rest, s.sync = .uploaded row content remoteId rest →
    row.path ∉ jam

variable {sha256} {jam done : List String} {path : String} {s : Agent} {c : FileCache}

theorem Behind.pending (h : Behind jam done path c) :
    ∀ r ∈ c.rows, r.path = path → r.status = .pending := by
  obtain ⟨front, back, hrows, -, hfront, hback⟩ := h
  intro r hr hp
  rw [hrows] at hr
  rcases List.mem_append.mp hr with hr | hr
  · exact absurd hp (hfront r hr)
  · exact hback r hr hp

theorem Behind.of_subset {done' : List String} (h : Behind jam done path c) (hsub : done' ⊆ done) :
    Behind jam done' path c := by
  obtain ⟨front, back, hrows, hjam, hfront, hback⟩ := h
  refine ⟨front, back, hrows, fun p hp => ?_, hfront, hback⟩
  obtain ⟨r, hr, hpath, hst⟩ := hjam p hp
  exact ⟨r, hr, hpath, fun hdone => hst (hsub hdone)⟩

/-- A batch does not reach behind a jam that fills it. -/
theorem Behind.notMem_getPending (h : Behind jam jam path c) (hn : jam.Nodup)
    (hlen : 100 ≤ jam.length) : ∀ row ∈ c.getPending, row.path ≠ path := by
  obtain ⟨front, back, hrows, hjam, hfront, -⟩ := h
  have hfull : 100 ≤ (front.filter fun r => r.status == .pending).length := by
    have hsub : jam ⊆ (front.filter fun r => r.status == .pending).map CacheRow.path := by
      intro p hp
      obtain ⟨r, hr, rfl, hst⟩ := hjam p hp
      exact List.mem_map_of_mem (List.mem_filter.mpr ⟨hr, by simp [hst hp]⟩)
    have hle := (List.subperm_of_subset hn hsub).length_le
    rw [List.length_map] at hle
    exact hlen.trans hle
  intro row hrow
  rw [FileCache.getPending, hrows, List.filter_append, List.take_append_of_le_length hfull] at hrow
  obtain ⟨r, hr, rfl⟩ := List.mem_map.mp hrow
  exact hfront r (List.mem_of_mem_filter (List.mem_of_mem_take hr))

/-- Rewriting rows keeps a file behind the jam if it keeps it pending, and what is done by then. -/
theorem Behind.mapRows {done' : List String} (h : Behind jam done path c) (f : CacheRow → CacheRow)
    (hf : ∀ r, (f r).path = r.path)
    (hdone : ∀ r, r.path ∈ jam → r.path ∈ done' → (r.path ∈ done → r.status = .pending) →
      (f r).status = .pending)
    (hpath : ∀ r, r.path = path → r.status = .pending → (f r).status = .pending) :
    Behind jam done' path (c.mapRows f hf) := by
  obtain ⟨front, back, hrows, hjam, hfront, hback⟩ := h
  refine ⟨front.map f, back.map f, ?_, fun p hp => ?_, fun r hr => ?_, fun r hr hp => ?_⟩
  · rw [FileCache.rows_mapRows, hrows, List.map_append]
  · obtain ⟨r, hr, rfl, hst⟩ := hjam p hp
    exact ⟨f r, List.mem_map_of_mem hr, hf r, fun hin => hdone r hp hin hst⟩
  · obtain ⟨r', hr', rfl⟩ := List.mem_map.mp hr
    rw [hf]
    exact hfront r' hr'
  · obtain ⟨r', hr', rfl⟩ := List.mem_map.mp hr
    rw [hf] at hp
    exact hpath r' hp (hback r' hr' hp)

/-- Indexing a file makes its row pending, where it is or at the end. -/
theorem Behind.upsertFile (h : Behind jam done path c) (q hash modified : String) (size : ℤ) :
    Behind jam (q :: done) path (c.upsertFile q hash size modified) := by
  rw [FileCache.upsertFile]
  split
  case isTrue hq =>
    refine h.mapRows _ _ (fun r _ hin hst => ?_) fun r _ hpend => ?_
    · split
      · rfl
      case isFalse hne => exact hst ((List.mem_cons.mp hin).resolve_left hne)
    · split
      · rfl
      · exact hpend
  case isFalse hq =>
    obtain ⟨front, back, hrows, hjam, hfront, hback⟩ := h
    refine ⟨front, back ++ [⟨q, hash, size, modified, none, .pending, none⟩], ?_, fun p hp => ?_,
      hfront, fun r hr hp => ?_⟩
    · rw [← List.append_assoc, ← hrows]
    · obtain ⟨r, hr, rfl, hst⟩ := hjam p hp
      refine ⟨r, hr, rfl, fun hin => hst ((List.mem_cons.mp hin).resolve_left fun hrq => hq ?_)⟩
      rw [hrows, List.map_append, ← hrq]
      exact List.mem_append_left _ (List.mem_map_of_mem hr)
    · rcases List.mem_append.mp hr with hr | hr
      · exact hback r hr hp
      · obtain rfl := List.mem_singleton.mp hr
        rfl

theorem Behind.markSynced (h : Behind jam done path c) {q : String} (remoteId : String) (now : ℕ)
    (hjam : q ∉ jam) (hpath : q ≠ path) : Behind jam done path (c.markSynced q remoteId now) := by
  refine h.mapRows _ _ (fun r hr hin hst => ?_) fun r hr hpend => ?_
  · have hne : r.path ≠ q := fun heq => hjam (heq ▸ hr)
    rw [if_neg hne]
    exact hst hin
  · have hne : r.path ≠ q := fun heq => hpath (heq.symm.trans hr)
    rw [if_neg hne]
    exact hpend

theorem Behind.removeFile (h : Behind jam done path c) {q : String} (hq : q ∉ jam) :
    Behind jam done path (c.removeFile q) := by
  obtain ⟨front, back, hrows, hjam, hfront, hback⟩ := h
  refine ⟨front.filter fun r => r.path != q, back.filter fun r => r.path != q, ?_,
    fun p hp => ?_, fun r hr => hfront r (List.mem_of_mem_filter hr),
    fun r hr => hback r (List.mem_of_mem_filter hr)⟩
  · rw [FileCache.rows_removeFile, hrows, List.filter_append]
  · obtain ⟨r, hr, rfl, hst⟩ := hjam p hp
    have hne : r.path ≠ q := fun heq => hq (heq ▸ hp)
    exact ⟨r, List.mem_filter.mpr ⟨hr, by simpa using hne⟩, rfl, hst⟩

/-- A step that leaves the table and the sync loop alone keeps a file starved. -/
theorem Starved.of_eq {s' : Agent} (h : Starved jam path s) (hc : s'.cache = s.cache)
    (hs : s'.sync = s.sync) : Starved jam path s' := by
  obtain ⟨h1, h2, h3⟩ := h
  refine ⟨by rwa [hc], ?_, ?_⟩
  · rw [unfinished, hs]
    exact h2
  · rw [hs]
    exact h3

/-- …and so does one of the sync loop that takes no new row and accepts nothing. -/
theorem Starved.of_rest {s' : Agent} (h : Starved jam path s) (hc : s'.cache = s.cache)
    (hsub : s'.unfinished ⊆ s.unfinished)
    (hs : ∀ row content remoteId rest, s'.sync ≠ .uploaded row content remoteId rest) :
    Starved jam path s' where
  behind := by rw [hc]; exact h.behind
  untaken row hrow := h.untaken row (hsub hrow)
  unmarked row content remoteId rest heq := absurd heq (hs row content remoteId rest)

/-- **No step that leaves the jam reaches a starved file.** -/
theorem Starved.step (h : Starved jam path s) (hn : jam.Nodup) (hlen : 100 ≤ jam.length)
    (e : AgentEvent) (hok : leavesJam jam s e = true) : Starved jam path (step sha256 s e) := by
  cases e with
  | edit p content => exact h.of_eq rfl rfl
  | stat p modified =>
    simp only [Agent.step]
    split
    · exact h.of_eq rfl rfl
    · exact h
  | hash =>
    simp only [Agent.step]
    split
    · split
      · exact h.of_eq rfl rfl
      · exact h.of_eq rfl rfl
    · exact h
  | upsert =>
    simp only [Agent.step]
    split
    case h_1 p size modified hash hw =>
      exact ⟨(h.behind.upsertFile p hash modified size).of_subset (List.subset_cons_self _ _),
        h.untaken, h.unmarked⟩
    case h_2 => exact h
  | remove p =>
    simp only [Agent.step]
    split
    · exact ⟨h.behind.removeFile (of_decide_eq_true hok), h.untaken, h.unmarked⟩
    · exact h
  | snapshot =>
    simp only [Agent.step]
    split
    · exact ⟨h.behind, h.behind.notMem_getPending hn hlen, by rintro _ _ _ _ ⟨⟩⟩
    · exact h
  | read =>
    simp only [Agent.step]
    split
    case h_1 hs => exact h.of_rest rfl (by simp [unfinished]) (by simp)
    case h_2 row rest hs =>
      split
      · exact h.of_rest rfl (by simp [unfinished, hs]) (by simp)
      · exact h.of_rest rfl (by simp [unfinished, hs]) (by simp)
    case h_3 => exact h
  | accept remoteId =>
    simp only [Agent.step]
    split
    case h_1 row content rest hs =>
      simp only [leavesJam, hs] at hok
      refine ⟨h.behind, fun row' hrow' => h.untaken row' ?_, ?_⟩
      · rw [unfinished, hs]
        exact hrow'
      · rintro _ _ _ _ ⟨⟩
        exact of_decide_eq_true hok
    case h_2 => exact h
  | fail =>
    simp only [Agent.step]
    split
    case h_1 row content rest hs => exact h.of_rest rfl (by simp [unfinished, hs]) (by simp)
    case h_2 => exact h
  | mark now =>
    simp only [Agent.step]
    split
    case h_1 row content remoteId rest hs =>
      have hne : row.path ≠ path := h.untaken row (by simp [unfinished, hs])
      refine ⟨h.behind.markSynced remoteId now (h.unmarked row content remoteId rest hs) hne,
        fun row' hrow' => h.untaken row' ?_, by rintro _ _ _ _ ⟨⟩⟩
      rw [unfinished, hs]
      exact List.mem_cons_of_mem _ hrow'
    case h_2 => exact h

/-- What the server accepts next is the file in hand. -/
theorem mem_uploads_step {sha256 : Bytes → String} {s : Agent} {p : String} {content : Bytes}
    {e : AgentEvent} (h : (p, content) ∈ (step sha256 s e).uploads) : (p, content) ∈ s.uploads ∨
      ∃ remoteId row rest, e = .accept remoteId ∧ s.sync = .uploading row content rest
        ∧ row.path = p := by
  cases e with
  | accept remoteId =>
    simp only [Agent.step] at h
    split at h
    case h_1 row data rest hs =>
      rcases List.mem_cons.mp h with heq | h
      · cases heq
        exact Or.inr ⟨remoteId, row, rest, rfl, hs, rfl⟩
      · exact Or.inl h
    case h_2 => exact Or.inl h
  | edit | stat | hash | upsert | remove | snapshot | read | fail | mark =>
    simp only [Agent.step] at h
    (repeat' split at h) <;> exact Or.inl h

/-- A starved file is not the one in hand. -/
theorem Starved.mem_uploads {sha256 : Bytes → String} {content : Bytes} {e : AgentEvent}
    (hs : Starved jam path s) (h : (path, content) ∈ (Agent.step sha256 s e).uploads) :
    (path, content) ∈ s.uploads := by
  rcases mem_uploads_step h with h | ⟨remoteId, row, rest, -, hsync, hp⟩
  · exact h
  · exact absurd hp (hs.untaken row (by simp [unfinished, hsync]))

/-- **A hundred rows that are never accepted starve what is behind them.**  In every order of the
watcher's and the sync loop's steps the file behind them stays pending and is never uploaded. -/
theorem starved (sha256 : Bytes → String) (jam : List String) (path : String) {s : Agent}
    {front back : List CacheRow} (hrows : s.cache.rows = front ++ back)
    (hjam : ∀ p ∈ jam, ∃ r ∈ front, r.path = p ∧ r.status = .pending) (hn : jam.Nodup)
    (hlen : 100 ≤ jam.length) (hfront : ∀ r ∈ front, r.path ≠ path)
    (hback : ∀ r ∈ back, r.path = path → r.status = .pending) (hs : s.sync = .sleeping)
    (es : List AgentEvent)
    (h : Along (fun s e => leavesJam jam s e = true) (step sha256) s es) :
    (∀ content, (path, content) ∈ (run (step sha256) s es).uploads → (path, content) ∈ s.uploads)
      ∧ ∀ r ∈ (run (step sha256) s es).cache.rows, r.path = path → r.status = .pending := by
  have hstart : Starved jam path s :=
    ⟨⟨front, back, hrows, fun p hp => by
      obtain ⟨r, hr, hpath, hst⟩ := hjam p hp
      exact ⟨r, hr, hpath, fun _ => hst⟩, hfront, hback⟩, by simp [unfinished, hs], by simp [hs]⟩
  obtain ⟨hend, hsent⟩ := h.invariant
    (P := fun s' => Starved jam path s' ∧ ∀ content, (path, content) ∈ s'.uploads →
      (path, content) ∈ s.uploads)
    (fun s' e ⟨hs', hold⟩ hok =>
      ⟨hs'.step hn hlen e hok, fun content hmem => hold content (hs'.mem_uploads hmem)⟩)
    ⟨hstart, fun _ hmem => hmem⟩
  exact ⟨hsent, hend.behind.pending⟩

/-- The path of the `n`-th row of a jam. -/
def jamPath (n : ℕ) : String := String.ofList (List.replicate n 'x')

theorem jamPath_injective : Function.Injective jamPath := fun m n h => by
  have hlen := congrArg (fun s => s.toList.length) h
  simpa [jamPath] using hlen

theorem jamPath_ne (n : ℕ) : jamPath n ≠ "f" := by
  intro h
  have hmem : 'f' ∈ (jamPath n).toList := by simp [h]
  rw [jamPath, String.toList_ofList] at hmem
  exact absurd (List.eq_of_mem_replicate hmem) (by decide)

def newRow (path : String) : CacheRow := ⟨path, "h", 1, "t", none, .pending, none⟩

/-- A table with a hundred rows of files that are gone, and the file `f` behind them. -/
def jammedCache : FileCache where
  rows := (List.range 100).map (newRow ∘ jamPath) ++ [newRow "f"]
  pk := by
    rw [List.map_append, List.map_map, show CacheRow.path ∘ newRow ∘ jamPath = jamPath from rfl]
    refine List.nodup_append.mpr ⟨List.nodup_range.map jamPath_injective, List.nodup_singleton _, ?_⟩
    intro p hp q hq
    obtain ⟨n, -, rfl⟩ := List.mem_map.mp hp
    obtain rfl := List.mem_singleton.mp hq
    exact jamPath_ne n

def jammed : Agent := ⟨oneFile, jammedCache, .idle, .sleeping, []⟩

/-- Two rows of the jam are tried, then `f` is edited and indexed again. -/
def jammedPass : List AgentEvent :=
  [.snapshot, .read, .read, .edit "f" (some [0x62]), .stat "f" "2", .hash, .upsert]

theorem starved_jammedPass :
    (∀ content, ("f", content) ∈ (run (step knownSha256) jammed jammedPass).uploads →
        ("f", content) ∈ jammed.uploads)
      ∧ ∀ r ∈ (run (step knownSha256) jammed jammedPass).cache.rows,
        r.path = "f" → r.status = .pending := by
  refine starved knownSha256 ((List.range 100).map jamPath) "f" (s := jammed) rfl ?_ ?_ ?_ ?_ ?_
    rfl jammedPass ⟨rfl, rfl, rfl, rfl, rfl, rfl, rfl, trivial⟩
  · intro p hp
    obtain ⟨n, hn, rfl⟩ := List.mem_map.mp hp
    exact ⟨newRow (jamPath n), List.mem_map_of_mem hn, rfl, rfl⟩
  · exact List.nodup_range.map jamPath_injective
  · simp
  · intro r hr
    obtain ⟨n, -, rfl⟩ := List.mem_map.mp hr
    exact jamPath_ne n
  · intro r hr _
    obtain rfl := List.mem_singleton.mp hr
    rfl

/-! ## Passes with nothing in between -/

section Passes

variable (sha256 : Bytes → String) (disk : String → Option Bytes)
  (server : String → Bytes → Option String)

/-- What the server answers to the upload of a path: nothing if its file is gone. -/
def served (path : String) : Option String := (disk path).bind (server path)

/-- The rows that stay pending. -/
def stuck (path : String) : Bool := (served disk server path).isNone

/-- What the sync loop does about one row of its snapshot. -/
def rowEvents (now : ℕ) (row : PendingRow) : List AgentEvent :=
  match disk row.path with
  | none => [.read]
  | some content =>
    match server row.path content with
    | some remoteId => [.read, .accept remoteId, .mark now]
    | none => [.read, .fail]

/-- One turn of `sync_loop`. -/
def passEvents (s : Agent) (now : ℕ) : List AgentEvent :=
  .snapshot :: s.cache.getPending.flatMap (rowEvents s.disk server now) ++ [.read]

/-- …and the agent it leaves. -/
def pass (s : Agent) (now : ℕ) : Agent := run (step sha256) s (passEvents server s now)

/-- What the turn makes of the table. -/
def settle (now : ℕ) (c : FileCache) (path : String) : FileCache :=
  match served disk server path with
  | some remoteId => c.markSynced path remoteId now
  | none => c

variable {sha256 disk server} {s : Agent} {now : ℕ} {path : String}

variable (sha256 server now) in
theorem run_rowEvents {row : PendingRow} {rest : List PendingRow}
    (hs : s.sync = .taking (row :: rest)) :
    (run (step sha256) s (rowEvents s.disk server now row)).sync = .taking rest
      ∧ (run (step sha256) s (rowEvents s.disk server now row)).disk = s.disk
      ∧ (run (step sha256) s (rowEvents s.disk server now row)).cache
        = settle s.disk server now s.cache row.path := by
  cases hd : s.disk row.path with
  | none => simp [rowEvents, settle, served, hd, run, step, hs]
  | some content =>
    cases ha : server row.path content with
    | none => simp [rowEvents, settle, served, hd, ha, run, step, hs]
    | some remoteId => simp [rowEvents, settle, served, hd, ha, run, step, hs]

variable (sha256 server now) in
theorem run_flatMap_rowEvents (rows : List PendingRow) (hs : s.sync = .taking rows) :
    (run (step sha256) s (rows.flatMap (rowEvents s.disk server now))).sync = .taking []
      ∧ (run (step sha256) s (rows.flatMap (rowEvents s.disk server now))).disk = s.disk
      ∧ (run (step sha256) s (rows.flatMap (rowEvents s.disk server now))).cache
        = (rows.map PendingRow.path).foldl (settle s.disk server now) s.cache := by
  induction rows generalizing s with
  | nil => exact ⟨hs, rfl, rfl⟩
  | cons row rest ih =>
    obtain ⟨hsync, hdisk, hcache⟩ := run_rowEvents sha256 server now hs
    have hrest := ih hsync
    rw [hdisk, hcache] at hrest
    rw [List.flatMap_cons, run_append]
    exact hrest

variable (sha256 server now) in
/-- One turn settles the first hundred pending paths, and the loop sleeps again. -/
theorem pass_spec (hs : s.sync = .sleeping) :
    (pass sha256 server s now).sync = .sleeping ∧ (pass sha256 server s now).disk = s.disk
      ∧ (pass sha256 server s now).cache
        = (s.cache.pendingPaths.take 100).foldl (settle s.disk server now) s.cache := by
  have hsnap : step sha256 s .snapshot = { s with sync := .taking s.cache.getPending } := by
    simp only [step, hs]
  obtain ⟨hsync, hdisk, hcache⟩ := run_flatMap_rowEvents sha256 server now
    (s := { s with sync := .taking s.cache.getPending }) s.cache.getPending rfl
  have hpass : pass sha256 server s now = step sha256 (run (step sha256)
      { s with sync := .taking s.cache.getPending }
      (s.cache.getPending.flatMap (rowEvents s.disk server now))) .read := by
    rw [← hsnap]
    exact run_append s (AgentEvent.snapshot :: s.cache.getPending.flatMap _) [AgentEvent.read]
  rw [hpass, ← FileCache.map_path_getPending]
  simp only [step, hsync]
  exact ⟨trivial, hdisk, hcache⟩

theorem map_path_settle (c : FileCache) :
    (settle disk server now c path).rows.map CacheRow.path = c.rows.map CacheRow.path := by
  rw [settle]
  split
  · exact FileCache.map_path_mapRows _ _
  · rfl

theorem pendingPaths_settle (c : FileCache) :
    (settle disk server now c path).pendingPaths
      = c.pendingPaths.filter fun p => p != path || stuck disk server p := by
  rw [settle]
  split
  case h_1 remoteId ha =>
    rw [FileCache.pendingPaths_markSynced]
    refine List.filter_congr fun p _ => ?_
    by_cases hp : p = path <;> simp [hp, stuck, ha]
  case h_2 ha =>
    refine (List.filter_eq_self.mpr fun p _ => ?_).symm
    by_cases hp : p = path <;> simp [hp, stuck, ha]

theorem map_path_foldl_settle (paths : List String) (c : FileCache) :
    (paths.foldl (settle disk server now) c).rows.map CacheRow.path
      = c.rows.map CacheRow.path := by
  induction paths generalizing c with
  | nil => rfl
  | cons path paths ih => rw [List.foldl_cons, ih, map_path_settle]

theorem pendingPaths_foldl_settle (paths : List String) (c : FileCache) :
    (paths.foldl (settle disk server now) c).pendingPaths
      = c.pendingPaths.filter fun p => decide (p ∉ paths) || stuck disk server p := by
  induction paths generalizing c with
  | nil => simp
  | cons path paths ih =>
    rw [List.foldl_cons, ih, pendingPaths_settle, List.filter_filter]
    refine List.filter_congr fun p _ => ?_
    by_cases hp : p = path <;> cases stuck disk server p <;> simp [hp]

/-- **A turn of the sync loop is one pass over the pending paths**, a hundred at a time. -/
theorem pendingPaths_pass (hs : s.sync = .sleeping) :
    (pass sha256 server s now).cache.pendingPaths
      = batch 100 (stuck s.disk server) s.cache.pendingPaths := by
  rw [(pass_spec sha256 server now hs).2.2, pendingPaths_foldl_settle,
    batch_eq_filter FileCache.nodup_pendingPaths]

variable (sha256 server) in
/-- …and so are many turns, with the paths of the table left as they are. -/
theorem run_pass (hs : s.sync = .sleeping) (nows : List ℕ) :
    (run (pass sha256 server) s nows).cache.pendingPaths
        = (batch 100 (stuck s.disk server))^[nows.length] s.cache.pendingPaths
      ∧ (run (pass sha256 server) s nows).cache.rows.map CacheRow.path
        = s.cache.rows.map CacheRow.path := by
  induction nows generalizing s with
  | nil => exact ⟨rfl, rfl⟩
  | cons now nows ih =>
    obtain ⟨hsync, hdisk, hcache⟩ := pass_spec sha256 server now hs
    obtain ⟨hpending, hpaths⟩ := ih hsync
    refine ⟨?_, ?_⟩
    · rw [run, List.foldl_cons, ← run, hpending, hdisk, pendingPaths_pass hs, List.length_cons,
        Function.iterate_succ_apply]
    · rw [run, List.foldl_cons, ← run, hpaths, hcache, map_path_foldl_settle]

/-- **After enough turns a file the server takes is synced iff fewer than a hundred rows that cannot
be uploaded stand before it.** -/
theorem synced_iff (sha256 : Bytes → String) {server : String → Bytes → Option String} {s : Agent}
    (hs : s.sync = .sleeping) {front back : List String} {path : String}
    (hp : s.cache.pendingPaths = front ++ path :: back)
    (ha : (served s.disk server path).isSome) {nows : List ℕ} (hn : front.length < nows.length) :
    (∃ r ∈ (run (pass sha256 server) s nows).cache.rows, r.path = path ∧ r.status = .synced)
      ↔ front.countP (stuck s.disk server) < 100 := by
  obtain ⟨hpending, hpaths⟩ := run_pass sha256 server hs nows
  have hrow : path ∈ s.cache.rows.map CacheRow.path := by
    obtain ⟨r, hr, -, hrp⟩ := FileCache.mem_pendingPaths.mp
      (show path ∈ s.cache.pendingPaths by rw [hp]; simp)
    exact hrp ▸ List.mem_map_of_mem hr
  have hfree : stuck s.disk server path = false := by
    rw [stuck, Option.isNone_eq_false_iff]
    exact ha
  have hback : path ∉ back := by
    have hnodup := hp ▸ s.cache.nodup_pendingPaths
    exact (List.nodup_cons.mp (List.nodup_append.mp hnodup).2.1).1
  rw [FileCache.synced_iff_notMem_pendingPaths (by rwa [hpaths]), hpending, hp,
    mem_iterate_batch_iff hfree hback hn, not_le]

/-- A server that takes every upload. -/
def takesAll : String → Bytes → Option String := fun _ _ => some "r"

/-- A table with the gone file `g` and then `f`. -/
def oneGone : FileCache := ⟨[newRow "g", newRow "f"], by decide⟩

def behindGone : Agent := ⟨oneFile, oneGone, .idle, .sleeping, []⟩

theorem synced_behindGone :
    ∃ r ∈ (run (pass knownSha256 takesAll) behindGone [10, 20]).cache.rows,
      r.path = "f" ∧ r.status = .synced := by
  have hp : behindGone.cache.pendingPaths = ["g"] ++ "f" :: [] := by decide
  exact (synced_iff knownSha256 rfl hp (by decide) (by decide)).mpr (by decide)

end Passes

end Agent

end Pcos
