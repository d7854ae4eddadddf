import Mathlib.Data.Int.Notation
import Mathlib.Data.List.Nodup
import Pcos.Agent.Delta

/-!
# Agent/LocalDb — the agent's `file_cache` table (`agent/src/db.rs`)

One row per path, `pending` until the sync loop has uploaded it.  `markSynced` finds its row by path
alone.
-/

namespace Pcos

inductive SyncStatus
  | pending
  | synced
  deriving DecidableEq, Repr

/-- A row of `file_cache`. -/
structure CacheRow where
  path : String
  sha256Hash : String
  sizeBytes : ℤ
  modifiedAt : String
  syncedAt : Option ℕ
  status : SyncStatus
  remoteId : Option String
  deriving DecidableEq, Repr

/-- The table, with its primary key. -/
structure FileCache where
  rows : List CacheRow
  pk : (rows.map CacheRow.path).Nodup

/-- What `get_pending` selects of a row. -/
structure PendingRow where
  path : String
  sha256Hash : String
  sizeBytes : ℤ
  deriving DecidableEq, Repr

namespace FileCache

def empty : FileCache := ⟨[], List.nodup_nil⟩

/-- Rewrite the rows without touching their paths. -/
def mapRows (c : FileCache) (f : CacheRow → CacheRow) (hf : ∀ r, (f r).path = r.path) :
    FileCache where
  rows := c.rows.map f
  pk := by
    rw [List.map_map, show CacheRow.path ∘ f = CacheRow.path from funext hf]
    exact c.pk

/-- Insert a row as pending, or overwrite the one of that path; `synced_at` and `remote_id` of an
existing row stay. -/
def upsertFile (c : FileCache) (path hash : String) (size : ℤ) (modified : String) : FileCache :=
  if h : path ∈ c.rows.map CacheRow.path then
    c.mapRows (fun r => if r.path = path then
        { r with sha256Hash := hash, sizeBytes := size, modifiedAt := modified, status := .pending }
      else r) (fun r => by split <;> rfl)
  else
    { rows := c.rows ++ [⟨path, hash, size, modified, none, .pending, none⟩]
      pk := by
        rw [List.map_append]
        exact List.nodup_append.mpr ⟨c.pk, by simp, fun a ha b hb => by
          rintro rfl
          simp only [List.map_cons, List.map_nil, List.mem_singleton] at hb
          exact h (hb ▸ ha)⟩ }

/-- Mark the row of a path as synced. -/
def markSynced (c : FileCache) (path remoteId : String) (now : ℕ) : FileCache :=
  c.mapRows (fun r => if r.path = path then
      { r with status := .synced, syncedAt := some now, remoteId := some remoteId }
    else r) (fun r => by split <;> rfl)

/-- At most a hundred pending rows. -/
def getPending (c : FileCache) : List PendingRow :=
  ((c.rows.filter fun r => r.status == .pending).take 100).map
    fun r => ⟨r.path, r.sha256Hash, r.sizeBytes⟩

def removeFile (c : FileCache) (path : String) : FileCache where
  rows := c.rows.filter fun r => r.path != path
  pk := c.pk.sublist (List.filter_sublist.map _)

/-! ## What the rows look like afterwards -/

variable {c : FileCache} {r : CacheRow} {path : String}

/-- After an upsert, the row of that path is pending with the new hash, and the others are as they
were. -/
theorem mem_upsertFile {hash modified : String} {size : ℤ}
    (h : r ∈ (c.upsertFile path hash size modified).rows) :
    (r.path = path ∧ r.sha256Hash = hash ∧ r.status = .pending) ∨ (r.path ≠ path ∧ r ∈ c.rows) := by
  rw [upsertFile] at h
  split at h
  · obtain ⟨r', hr', rfl⟩ := List.mem_map.mp h
    by_cases hp : r'.path = path
    · simp [hp]
    · simp [hp, hr']
  · rename_i hnew
    rcases List.mem_append.mp h with h | h
    · exact Or.inr ⟨fun hp => hnew (hp ▸ List.mem_map_of_mem h), h⟩
    · obtain rfl := List.mem_singleton.mp h
      exact Or.inl ⟨rfl, rfl, rfl⟩

/-- Marking changes no path and no hash, and turns no row of another path to synced. -/
theorem mem_markSynced {remoteId : String} {now : ℕ}
    (h : r ∈ (c.markSynced path remoteId now).rows) :
    ∃ r' ∈ c.rows, r'.path = r.path ∧ r'.sha256Hash = r.sha256Hash
      ∧ (r.path = path ∨ r'.status = r.status) := by
  obtain ⟨r', hr', rfl⟩ := List.mem_map.mp h
  refine ⟨r', hr', ?_⟩
  by_cases hp : r'.path = path <;> simp [hp]

theorem mem_removeFile (h : r ∈ (c.removeFile path).rows) : r ∈ c.rows :=
  List.mem_of_mem_filter h

end FileCache

end Pcos
