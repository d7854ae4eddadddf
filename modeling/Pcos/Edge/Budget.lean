import Mathlib.Algebra.Order.BigOperators.Group.List
import Mathlib.Algebra.Order.Ring.Rat
import Mathlib.Data.Rat.Floor
import Mathlib.Tactic.Linarith
import Pcos.Foundations.Runs
import Pcos.Foundations.Sums

/-!
# Edge/Budget — the free tier and what is stored in R2 (`services/budget.ts`, `services/r2_cache.ts`)

Usage is kept in a row a day.  The first call of a day creates the row: a `trackRequest` with zeros,
so that it is not counted itself.  An upload to R2 is let in if the row of the day says so, and then
overwrites its `r2_storage_bytes` with its own size; what was stored before, or on other days, the
guard does not see.

**While no upload is let in when more than the limit is stored, and no row is created by a
`trackRequest`, the budget is kept** (`budgetKept`).
-/

namespace Pcos.Edge.Budget

open Foundations

/-! ## The tables -/

inductive RequestKind
  | worker
  | d1Read
  | d1Write
  | durableObject
  deriving DecidableEq, Repr

/-- A row of `free_tier_usage`. -/
structure Usage where
  workerRequests : ℕ
  d1Reads : ℕ
  d1Writes : ℕ
  doRequests : ℕ
  r2StorageBytes : ℕ
  updatedAt : ℤ
  deriving DecidableEq

namespace Usage

def count (u : Usage) : RequestKind → ℕ
  | .worker => u.workerRequests
  | .d1Read => u.d1Reads
  | .d1Write => u.d1Writes
  | .durableObject => u.doRequests

/-- `columnMap` -/
def bump (u : Usage) : RequestKind → Usage
  | .worker => { u with workerRequests := u.workerRequests + 1 }
  | .d1Read => { u with d1Reads := u.d1Reads + 1 }
  | .d1Write => { u with d1Writes := u.d1Writes + 1 }
  | .durableObject => { u with doRequests := u.doRequests + 1 }

theorem count_bump (u : Usage) (kind kind' : RequestKind) :
    (u.bump kind).count kind' = if kind' = kind then u.count kind' + 1 else u.count kind' := by
  cases kind <;> cases kind' <;> rfl

end Usage

/-- The rows by day, and the objects in R2 by key with their sizes. -/
structure Worker where
  usage : ℤ → Option Usage
  objects : List (String × ℕ)

namespace Worker

/-- What is stored in R2. -/
def stored (w : Worker) : ℕ := (w.objects.map Prod.snd).sum

/-- What is recorded of a kind on a day. -/
def count (w : Worker) (day : ℤ) (kind : RequestKind) : ℕ :=
  (w.usage day).elim 0 fun u => u.count kind

/-- `CACHE_R2.put` -/
def put (w : Worker) (key : String) (size : ℕ) : Worker :=
  { w with objects := (key, size) :: w.objects.filter fun o => o.1 ≠ key }

/-- `CACHE_R2.delete` -/
def delete (w : Worker) (key : String) : Worker :=
  { w with objects := w.objects.filter fun o => o.1 ≠ key }

def setUsage (w : Worker) (day : ℤ) (u : Usage) : Worker :=
  { w with usage := fun d => if d = day then some u else w.usage d }

end Worker

/-! ## The guard (`BudgetGuard`) -/

/-- The day of a time in milliseconds. -/
def dateKey (now : ℤ) : ℤ := now / 86400000

/-- `INSERT … VALUES (day, 0, 0, 0, 0, 0, now) ON CONFLICT DO UPDATE`; an error is swallowed. -/
def trackRequest (kind : RequestKind) (now : ℤ) (fails : Bool) (w : Worker) : Worker :=
  if fails then w
  else w.setUsage (dateKey now) <| match w.usage (dateKey now) with
    | none => ⟨0, 0, 0, 0, 0, now⟩
    | some u => { u.bump kind with updatedAt := now }

/-- The row of the day gets the bytes, whatever it had; an error is swallowed. -/
def updateR2StorageBytes (totalBytes : ℕ) (now : ℤ) (fails : Bool) (w : Worker) : Worker :=
  if fails then w
  else w.setUsage (dateKey now) <| match w.usage (dateKey now) with
    | none => ⟨0, 0, 0, 0, totalBytes, now⟩
    | some u => { u with r2StorageBytes := totalBytes, updatedAt := now }

/-- The environment; `hasCache` says whether there is a bucket. -/
structure Config where
  maxWorkersPerDay : ℕ
  maxD1WritesPerDay : ℕ
  maxD1ReadsPerMonth : ℕ
  maxR2StorageGb : ℚ
  maxR2StorageGb_nonneg : 0 ≤ maxR2StorageGb
  freeTierHardBudget : Bool
  hasCache : Bool

/-- `r2LimitBytes` -/
def Config.r2LimitBytes (cfg : Config) : ℚ := cfg.maxR2StorageGb * 1024 * 1024 * 1024

/-- `Math.round` -/
def round (x : ℚ) : ℤ := ⌊x + 1 / 2⌋

/-- `Math.min(100, Math.round((used / limit) * 100))`, with `none` for `NaN`. -/
def percent (used : ℕ) (limit : ℚ) : Option ℤ :=
  if limit = 0 then if used = 0 then none else some 100
  else some (min 100 (round (used / limit * 100)))

structure Share where
  used : ℚ
  limit : ℚ
  pct : Option ℤ

structure BudgetStatus where
  workerRequests : Share
  d1Reads : Share
  d1Writes : Share
  doRequests : Share
  r2StorageGb : Share
  hardBudgetEnabled : Bool
  isNearLimit : Bool
  cloudCacheActive : Bool

def getBudgetStatus (cfg : Config) (now : ℤ) (w : Worker) : BudgetStatus :=
  let row := (w.usage (dateKey now)).getD ⟨0, 0, 0, 0, 0, now⟩
  let share := fun (used : ℕ) (limit : ℚ) => Share.mk used limit (percent used limit)
  let workerRequests := share row.workerRequests cfg.maxWorkersPerDay
  let d1Reads := share row.d1Reads cfg.maxD1ReadsPerMonth
  let d1Writes := share row.d1Writes cfg.maxD1WritesPerDay
  let doRequests := share row.doRequests 100000
  let r2Pct := percent row.r2StorageBytes cfg.r2LimitBytes
  let r2GbUsed := round (row.r2StorageBytes / (1024 * 1024 * 1024) * 100) / 100
  { workerRequests, d1Reads, d1Writes, doRequests
    r2StorageGb := ⟨r2GbUsed, cfg.maxR2StorageGb, r2Pct⟩
    hardBudgetEnabled := cfg.freeTierHardBudget
    isNearLimit := [workerRequests.pct, d1Writes.pct, d1Reads.pct, doRequests.pct, r2Pct].any
      fun pct => pct.any (90 ≤ ·)
    cloudCacheActive := !cfg.freeTierHardBudget || r2Pct.any (· < 95) }

def isCloudCachePermitted (cfg : Config) (now : ℤ) (w : Worker) : Bool :=
  if !cfg.freeTierHardBudget then true else (getBudgetStatus cfg now w).cloudCacheActive

/-! ## Uploads -/

/-- When the guard is asked and when the size is recorded, and which of the two and of the `put`
between them fail. -/
structure Course where
  checkedAt : ℤ
  recordedAt : ℤ
  checkFails : Bool
  putFails : Bool
  recordFails : Bool

/-- The object is put. -/
def Course.lets (c : Course) (cfg : Config) (w : Worker) : Bool :=
  cfg.hasCache && !c.checkFails && isCloudCachePermitted cfg c.checkedAt w && !c.putFails

/-- What `files/upload` and `putEncryptedFile` do with R2: ask, put, and record a size. -/
def putCached (cfg : Config) (c : Course) (key : String) (size recorded : ℕ) (w : Worker) : Worker :=
  if c.lets cfg w then
    updateR2StorageBytes recorded c.recordedAt c.recordFails (w.put key size)
  else w

/-- The R2 branch of `files/upload`, under a new file id. -/
def uploadFile (cfg : Config) (c : Course) (userId fileId : String) (size : ℕ) : Worker → Worker :=
  putCached cfg c ("cache/" ++ userId ++ "/" ++ fileId) size size

/-- `putEncryptedFile`, of a stream and the size that its caller says. -/
def putEncryptedFile (cfg : Config) (c : Course) (userId fileId : String) (stream sizeBytes : ℕ) :
    Worker → Worker :=
  putCached cfg c ("cache/" ++ userId ++ "/" ++ fileId) stream sizeBytes

def deleteEncryptedFile (cfg : Config) (userId fileId : String) (w : Worker) : Worker :=
  if cfg.hasCache then w.delete ("cache/" ++ userId ++ "/" ++ fileId) else w

/-! ## Runs -/

inductive Event
  | trackRequest (kind : RequestKind) (now : ℤ) (fails : Bool)
  | uploadFile (c : Course) (userId fileId : String) (size : ℕ)
  | putEncryptedFile (c : Course) (userId fileId : String) (stream sizeBytes : ℕ)
  | deleteEncryptedFile (userId fileId : String)

/-- The worker, with the largest upload that was stored and the calls that were made and did not
fail. -/
structure State where
  worker : Worker
  largest : ℕ
  tracked : ℤ → RequestKind → ℕ

def State.start : State := ⟨⟨fun _ => none, []⟩, 0, fun _ _ => 0⟩

def State.tracks (s : State) (day : ℤ) (kind : RequestKind) : ℤ → RequestKind → ℕ :=
  fun d k => if d = day ∧ k = kind then s.tracked d k + 1 else s.tracked d k

/-- The size of an upload counts if it is stored. -/
def State.stores (s : State) (cfg : Config) (c : Course) (size : ℕ) : ℕ :=
  if c.lets cfg s.worker then max s.largest size else s.largest

def step (cfg : Config) (s : State) : Event → State
  | .trackRequest kind now fails =>
    ⟨trackRequest kind now fails s.worker, s.largest,
      if fails then s.tracked else s.tracks (dateKey now) kind⟩
  | .uploadFile c userId fileId size =>
    ⟨uploadFile cfg c userId fileId size s.worker, s.stores cfg c size, s.tracked⟩
  | .putEncryptedFile c userId fileId stream sizeBytes =>
    ⟨putEncryptedFile cfg c userId fileId stream sizeBytes s.worker, s.stores cfg c stream, s.tracked⟩
  | .deleteEncryptedFile userId fileId =>
    ⟨deleteEncryptedFile cfg userId fileId s.worker, s.largest, s.tracked⟩

/-- **What is promised**: no more is stored than the limit and one upload, and every call is
counted. -/
structure BudgetKept (cfg : Config) (s : State) : Prop where
  stored : (s.worker.stored : ℚ) ≤ cfg.r2LimitBytes + s.largest
  counted : ∀ day kind, s.worker.count day kind = s.tracked day kind

/-- The guard turns an upload down while more than the limit is stored, and a call finds the row of
its day. -/
def Accounted (cfg : Config) (s : State) : Event → Prop
  | .trackRequest _ now fails => fails = true ∨ (s.worker.usage (dateKey now)).isSome = true
  | .uploadFile c _ _ _ | .putEncryptedFile c _ _ _ _ =>
    c.lets cfg s.worker = true → (s.worker.stored : ℚ) ≤ cfg.r2LimitBytes
  | .deleteEncryptedFile _ _ => True

instance (cfg : Config) (s : State) : DecidablePred (Accounted cfg s)
  | .trackRequest .. => inferInstanceAs (Decidable (_ ∨ _))
  | .uploadFile .. | .putEncryptedFile .. => inferInstanceAs (Decidable (_ → _))
  | .deleteEncryptedFile .. => isTrue trivial

/-! ## What one step keeps -/

variable {cfg : Config} {w : Worker} {s : State}

theorem r2LimitBytes_nonneg (cfg : Config) : 0 ≤ cfg.r2LimitBytes := by
  have h := cfg.maxR2StorageGb_nonneg
  unfold Config.r2LimitBytes
  positivity

theorem count_setUsage (day day' : ℤ) (u : Usage) (kind : RequestKind) :
    (w.setUsage day u).count day' kind = if day' = day then u.count kind else w.count day' kind := by
  unfold Worker.count Worker.setUsage
  dsimp only
  split <;> rfl

/-- **A call is counted if it finds a row.** -/
theorem count_trackRequest {kind : RequestKind} {now : ℤ}
    (hrow : (w.usage (dateKey now)).isSome = true) (day : ℤ) (kind' : RequestKind) :
    (trackRequest kind now false w).count day kind'
      = if day = dateKey now ∧ kind' = kind then w.count day kind' + 1 else w.count day kind' := by
  obtain ⟨u, hu⟩ := Option.isSome_iff_exists.mp hrow
  have hcount : ({ u.bump kind with updatedAt := now } : Usage).count kind'
      = (u.bump kind).count kind' := by
    cases kind' <;> rfl
  rw [trackRequest, if_neg Bool.false_ne_true, hu, count_setUsage]
  dsimp only
  rw [hcount, Usage.count_bump]
  by_cases hday : day = dateKey now
  · rw [if_pos hday, hday, Worker.count, hu]
    simp
  · rw [if_neg hday, if_neg fun h => hday h.1]

theorem count_putCached (c : Course) (key : String) (size recorded : ℕ) (day : ℤ)
    (kind : RequestKind) : (putCached cfg c key size recorded w).count day kind = w.count day kind := by
  unfold putCached updateR2StorageBytes
  split
  · split
    · rfl
    · rw [count_setUsage]
      split
      · rename_i hday
        rw [hday, Worker.count, show (w.put key size).usage = w.usage from rfl]
        cases w.usage (dateKey c.recordedAt) <;> cases kind <;> rfl
      · rfl
  · rfl

theorem stored_delete (key : String) : (w.delete key).stored ≤ w.stored :=
  sum_map_filter_le _ fun _ _ => Nat.zero_le _

theorem stored_put (key : String) (size : ℕ) : (w.put key size).stored ≤ w.stored + size := by
  have hrest := stored_delete (w := w) key
  rw [Worker.stored, Worker.put, List.map_cons, List.sum_cons, Nat.add_comm]
  exact Nat.add_le_add_right hrest size

theorem stored_putCached (c : Course) (key : String) (size recorded : ℕ) :
    (putCached cfg c key size recorded w).stored
      = if c.lets cfg w then (w.put key size).stored else w.stored := by
  unfold putCached updateR2StorageBytes
  split
  · split <;> rfl
  · rfl

theorem stored_trackRequest (kind : RequestKind) (now : ℤ) (fails : Bool) :
    (trackRequest kind now fails w).stored = w.stored := by
  unfold trackRequest
  split <;> rfl

/-- **An upload that is let in within the limit** is the one that may exceed it. -/
theorem BudgetKept.putCached (h : BudgetKept cfg s) {c : Course} (key : String) (size recorded : ℕ)
    (hlimit : c.lets cfg s.worker = true → (s.worker.stored : ℚ) ≤ cfg.r2LimitBytes) :
    BudgetKept cfg ⟨putCached cfg c key size recorded s.worker, s.stores cfg c size, s.tracked⟩ := by
  refine ⟨?_, fun day kind => (count_putCached ..).trans (h.counted day kind)⟩
  dsimp only
  rw [stored_putCached, State.stores]
  split
  · rename_i hlets
    have hput : ((s.worker.put key size).stored : ℚ) ≤ s.worker.stored + size := by
      exact_mod_cast stored_put key size
    have hsize : (size : ℚ) ≤ (max s.largest size : ℕ) := by
      exact_mod_cast le_max_right s.largest size
    linarith [hlimit hlets]
  · exact h.stored

/-- **Every accounted step keeps the budget.** -/
theorem BudgetKept.step (h : BudgetKept cfg s) {e : Event} (he : Accounted cfg s e) :
    BudgetKept cfg (step cfg s e) := by
  cases e with
  | trackRequest kind now fails =>
    refine ⟨?_, fun day kind' => ?_⟩
    · exact (congrArg (Nat.cast (R := ℚ)) (stored_trackRequest ..)).trans_le h.stored
    · cases fails with
      | true => exact h.counted day kind'
      | false =>
        refine (count_trackRequest (he.resolve_left Bool.false_ne_true) day kind').trans ?_
        rw [h.counted]
        rfl
  | uploadFile c userId fileId size => exact h.putCached _ _ _ he
  | putEncryptedFile c userId fileId stream sizeBytes => exact h.putCached _ _ _ he
  | deleteEncryptedFile userId fileId =>
    refine ⟨le_trans (Nat.cast_le.mpr ?_) h.stored, fun day kind => ?_⟩
    · simp only [Budget.step, deleteEncryptedFile]
      split
      · exact stored_delete _
      · exact le_rfl
    · refine Eq.trans ?_ (h.counted day kind)
      simp only [Budget.step, deleteEncryptedFile]
      split <;> rfl

theorem budgetKept_start (cfg : Config) : BudgetKept cfg .start :=
  ⟨by simpa [State.start, Worker.stored] using r2LimitBytes_nonneg cfg, fun _ _ => rfl⟩

/-- **The budget is kept** in every run whose uploads are turned down while more than the limit is
stored, and whose calls find the row of their day. -/
theorem budgetKept {events : List Event} (h : Along (Accounted cfg) (step cfg) .start events) :
    BudgetKept cfg (run (step cfg) .start events) :=
  h.invariant (fun _ _ hs he => hs.step he) (budgetKept_start cfg)

namespace Noon

def noon : ℤ := 1700000000000

/-- The defaults, but for a bucket of a tenth of a gigabyte. -/
def config : Config where
  maxWorkersPerDay := 100000
  maxD1WritesPerDay := 100000
  maxD1ReadsPerMonth := 5000000
  maxR2StorageGb := 1 / 10
  maxR2StorageGb_nonneg := by decide +kernel
  freeTierHardBudget := true
  hasCache := true

/-- An upload at noon. -/
def course : Course := ⟨noon, noon, false, false, false⟩

/-- The upload creates the row, and two calls are counted; a second upload exceeds the limit. -/
def events : List Event :=
  [.uploadFile course "alice" "photos" 60000000, .trackRequest .worker noon false,
    .trackRequest .worker noon false, .uploadFile course "alice" "videos" 50000000]

end Noon

theorem budgetKept_twoUploads :
    (run (step Noon.config) .start Noon.events).worker.stored = 110000000 ∧
    (run (step Noon.config) .start Noon.events).worker.count (dateKey Noon.noon) .worker = 2 ∧
    BudgetKept Noon.config (run (step Noon.config) .start Noon.events) :=
  ⟨by decide +kernel, by decide +kernel, budgetKept (by decide +kernel)⟩

/-- Of three uploads of 95 MB the guard sees the last, and the first call of a day is not counted. -/
theorem not_budgetKept :
    ¬ BudgetKept Noon.config (run (step Noon.config) .start
      [.uploadFile Noon.course "alice" "a" 95000000, .uploadFile Noon.course "alice" "b" 95000000,
        .uploadFile Noon.course "alice" "c" 95000000]) ∧
    ¬ BudgetKept Noon.config (run (step Noon.config) .start
      [.trackRequest .worker Noon.noon false]) :=
  ⟨fun h => absurd h.stored (by decide +kernel),
    fun h => absurd (h.counted (dateKey Noon.noon) .worker) (by decide)⟩

/-! ## What the guard reads -/

theorem lt_of_percent {used : ℕ} {limit : ℚ} (hlimit : 0 ≤ limit)
    (h : (percent used limit).any (· < 95) = true) : (used : ℚ) < limit := by
  unfold percent at h
  split at h
  · split at h <;> simp at h
  · rename_i hne
    have hpos : 0 < limit := lt_of_le_of_ne hlimit (Ne.symm hne)
    simp only [Option.any_some, decide_eq_true_eq, min_lt_iff, round, Int.floor_lt] at h
    have hshare : (used : ℚ) / limit * 100 < 95 := by
      rcases h with h | h
      · exact absurd h (by decide)
      · push_cast at h
        linarith
    have hused : (used : ℚ) / limit < 1 := by linarith
    exact (div_lt_one hpos).mp hused

/-- **Had the row what is stored**, the guard would keep the budget. -/
theorem accounted_of_recorded (hbudget : cfg.freeTierHardBudget = true) {c : Course}
    (hrow : w.stored ≤ ((w.usage (dateKey c.checkedAt)).elim 0 Usage.r2StorageBytes))
    (hlets : c.lets cfg w = true) : (w.stored : ℚ) ≤ cfg.r2LimitBytes := by
  simp only [Course.lets, Bool.and_eq_true, isCloudCachePermitted, hbudget, Bool.not_true,
    Bool.false_eq_true, if_false, getBudgetStatus, Bool.false_or] at hlets
  have hused := lt_of_percent (r2LimitBytes_nonneg cfg) hlets.1.2
  refine le_of_lt (lt_of_le_of_lt (Nat.cast_le.mpr ?_) hused)
  cases hu : w.usage (dateKey c.checkedAt) with
  | none => simpa [hu] using hrow
  | some u => simpa [hu] using hrow

end Pcos.Edge.Budget
