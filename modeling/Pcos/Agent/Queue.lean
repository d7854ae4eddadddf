import Mathlib.Data.List.Induction
import Mathlib.Data.Multiset.AddSub
import Mathlib.Data.Multiset.Filter
import Pcos.Foundations.Runs
import Pcos.Foundations.StableSort

/-!
# Agent/Queue — the offline queue, read back, changed and rewritten on every call

    list ──retain, push, sort_by──▸ save      enqueue
    list ──position, remove──▸ save           dequeue
    list ──▸ save []                          drain

`pending` is what the queue is for: the transfers enqueued and not yet settled, oldest first.  The
file holds it stably sorted (`list_run`), so **the list is exactly what is pending, by priority and
then in the order of the last enqueue** (`list_exact`).
-/

namespace Pcos.Queue

open Foundations

structure QueuedTransfer where
  id : String
  localPath : String
  relativePath : String
  storageNodeId : Option String
  op : String
  sizeBytes : ℕ
  sha256 : Option String
  priority : ℕ
  attempts : ℕ
  createdAt : String
  deriving DecidableEq

/-- `b.priority.cmp(&a.priority)` -/
def byPriority (a b : QueuedTransfer) : Prop := b.priority ≤ a.priority

instance : DecidableRel byPriority := fun a b => Nat.decLe b.priority a.priority

instance : IsTrans QueuedTransfer byPriority := ⟨fun _ _ _ hab hbc => Nat.le_trans hbc hab⟩

instance : Std.Total byPriority := ⟨fun a b => Nat.le_total b.priority a.priority⟩

/-! ## The file -/

/-- How a list of transfers is written as a text, and read from one (`serde_json`). -/
structure Codec (T : Type) where
  toJson : List QueuedTransfer → T
  fromJson : T → Option (List QueuedTransfer)

variable {T : Type}

/-- What is written is read back. -/
def Codec.RoundTrips (x : Codec T) : Prop := ∀ items, x.fromJson (x.toJson items) = some items

/-- The queue file and the file that is renamed to it, if they are there. -/
structure Disk (T : Type) where
  queueFile : Option T
  tmpFile : Option T
  deriving DecidableEq

/-- What a call of `list` meets: the file as it is, or one of the calls it makes going wrong. -/
inductive Reading
  | sound
  | hidden
  | unreadable
  | unparsable
  deriving DecidableEq

/-- How far a call of `save` gets, with what it has then written of the temporary file. -/
inductive Saving (T : Type)
  | noDirectory
  | unwritten (part : Option T)
  | unrenamed
  | done
  deriving DecidableEq

inductive IoError
  | createDirAll
  | write
  | rename
  deriving DecidableEq

structure Faults (T : Type) where
  reading : Reading
  saving : Saving T
  deriving DecidableEq

/-- Nothing goes wrong. -/
def Faults.none : Faults T := ⟨.sound, .done⟩

section Calls

variable (x : Codec T) (disk : Disk T)

def list : Reading → List QueuedTransfer
  | .sound => match disk.queueFile with
    | Option.none => []
    | some content => (x.fromJson content).getD []
  | .hidden => []
  | .unreadable => []
  | .unparsable => []

def save (items : List QueuedTransfer) : Saving T → Except IoError Unit × Disk T
  | .noDirectory => (.error .createDirAll, disk)
  | .unwritten part => (.error .write, { disk with tmpFile := part })
  | .unrenamed => (.error .rename, { disk with tmpFile := some (x.toJson items) })
  | .done => (.ok (), { queueFile := some (x.toJson items), tmpFile := Option.none })

def enqueue (transfer : QueuedTransfer) (f : Faults T) : Except IoError Unit × Disk T :=
  let items := (list x disk f.reading).filter fun i => i.id ≠ transfer.id
  save x disk ((items ++ [transfer]).insertionSort byPriority) f.saving

def dequeue (id : String) (f : Faults T) : Except IoError (Option QueuedTransfer) × Disk T :=
  let items := list x disk f.reading
  match items.findIdx? fun i => i.id = id with
  | some pos =>
    let removed := items[pos]?
    match save x disk (items.eraseIdx pos) f.saving with
    | (.ok (), disk') => (.ok removed, disk')
    | (.error e, disk') => (.error e, disk')
  | Option.none => (.ok Option.none, disk)

def drain (f : Faults T) : Except IoError (List QueuedTransfer) × Disk T :=
  let items := list x disk f.reading
  match save x disk [] f.saving with
  | (.ok (), disk') => (.ok items, disk')
  | (.error e, disk') => (.error e, disk')

end Calls

/-! ## Runs -/

/-- A call of the queue. -/
inductive Op
  | enqueue (transfer : QueuedTransfer)
  | dequeue (id : String)
  | drain
  deriving DecidableEq

/-- What a call returns. -/
inductive Response
  | failed (e : IoError)
  | enqueued
  | dequeued (removed : Option QueuedTransfer)
  | drained (items : List QueuedTransfer)
  deriving DecidableEq

/-- A call, as its caller sees it. -/
def call (x : Codec T) (disk : Disk T) : Op × Faults T → Response × Disk T
  | (.enqueue transfer, f) => match enqueue x disk transfer f with
    | (.ok (), disk') => (.enqueued, disk')
    | (.error e, disk') => (.failed e, disk')
  | (.dequeue id, f) => match dequeue x disk id f with
    | (.ok removed, disk') => (.dequeued removed, disk')
    | (.error e, disk') => (.failed e, disk')
  | (.drain, f) => match drain x disk f with
    | (.ok items, disk') => (.drained items, disk')
    | (.error e, disk') => (.failed e, disk')

def step (x : Codec T) (disk : Disk T) (e : Op × Faults T) : Disk T := (call x disk e).2

/-- What the file holds, and a call that meets no fault is given. -/
abbrev stored (x : Codec T) (disk : Disk T) : List QueuedTransfer := list x disk .sound

/-! ## What is pending -/

/-- What an operation makes of the transfers that are pending, oldest first. -/
def Op.settle : Op → List QueuedTransfer → List QueuedTransfer
  | .enqueue transfer, items => (items.filter fun i => i.id ≠ transfer.id) ++ [transfer]
  | .dequeue id, items => items.filter fun i => i.id ≠ id
  | .drain, _ => []

/-- **The transfers that were enqueued and are not settled**, oldest first. -/
def pending (ops : List Op) : List QueuedTransfer := run (fun items op => op.settle items) [] ops

/-- After this operation an earlier transfer with the id is pending no more. -/
def Op.Settles : Op → String → Prop
  | .enqueue transfer, id => transfer.id = id
  | .dequeue id', id => id' = id
  | .drain, _ => True

/-- `item` was enqueued by the `n`th operation and is not settled by a later one. -/
def Queued (ops : List Op) (n : ℕ) (item : QueuedTransfer) : Prop :=
  ops[n]? = some (.enqueue item) ∧ ∀ m op, n < m → ops[m]? = some op → ¬ op.Settles item.id

theorem Queued.lt {ops : List Op} {n : ℕ} {item : QueuedTransfer} (h : Queued ops n item) :
    n < ops.length := (List.getElem?_eq_some_iff.mp h.1).1

theorem queued_concat {ops : List Op} {op : Op} {n : ℕ} {item : QueuedTransfer} :
    Queued (ops ++ [op]) n item
      ↔ n = ops.length ∧ op = .enqueue item ∨ Queued ops n item ∧ ¬ op.Settles item.id := by
  constructor
  · rintro ⟨hn, hlater⟩
    rcases Nat.lt_trichotomy n ops.length with hlt | rfl | hgt
    · rw [List.getElem?_append_left hlt] at hn
      refine .inr ⟨⟨hn, fun m o hm ho => ?_⟩, hlater ops.length op hlt (by simp)⟩
      have hmlt := (List.getElem?_eq_some_iff.mp ho).1
      exact hlater m o hm (by rw [List.getElem?_append_left hmlt, ho])
    · exact .inl ⟨rfl, by simpa using hn⟩
    · rw [List.getElem?_eq_none (by simpa using Nat.succ_le_of_lt hgt)] at hn
      cases hn
  · rintro (⟨rfl, rfl⟩ | ⟨h, hop⟩)
    · refine ⟨by simp, fun m o hm ho => ?_⟩
      rw [List.getElem?_eq_none (by simpa using Nat.succ_le_of_lt hm)] at ho
      cases ho
    · refine ⟨by rw [List.getElem?_append_left h.lt, h.1], fun m o hm ho => ?_⟩
      rcases Nat.lt_or_ge m ops.length with hlt | hge
      · rw [List.getElem?_append_left hlt] at ho
        exact h.2 m o hm ho
      · have hlast : m = ops.length := by
          have := (List.getElem?_eq_some_iff.mp ho).1
          simp only [List.length_append, List.length_singleton] at this
          omega
        subst hlast
        obtain rfl : op = o := by simpa using ho
        exact hop

theorem pending_concat (ops : List Op) (op : Op) : pending (ops ++ [op]) = op.settle (pending ops) :=
  run_append ..

theorem mem_settle {op : Op} {items : List QueuedTransfer} {item : QueuedTransfer} :
    item ∈ op.settle items ↔ op = .enqueue item ∨ item ∈ items ∧ ¬ op.Settles item.id := by
  cases op with
  | enqueue transfer =>
    simp only [Op.settle, Op.Settles, List.mem_append, List.mem_filter, decide_eq_true_eq,
      List.mem_singleton, Op.enqueue.injEq, ne_eq, @eq_comm _ item.id, @eq_comm _ item]
    exact or_comm
  | dequeue id => simp [Op.settle, Op.Settles, @eq_comm _ item.id]
  | drain => simp [Op.settle, Op.Settles]

/-- **What is pending is what is queued.** -/
theorem mem_pending {ops : List Op} {item : QueuedTransfer} :
    item ∈ pending ops ↔ ∃ n, Queued ops n item := by
  induction ops using List.reverseRecOn with
  | nil => simp [pending, run, Queued]
  | append_singleton ops op ih =>
    rw [pending_concat, mem_settle, ih]
    simp only [queued_concat, exists_or, exists_and_right, exists_eq, true_and]

/-- An operation leaves one transfer for an id. -/
theorem nodup_settle (op : Op) {items : List QueuedTransfer} (h : (items.map (·.id)).Nodup) :
    ((op.settle items).map (·.id)).Nodup := by
  have hfilter (id : String) : ((items.filter fun i => i.id ≠ id).map (·.id)).Nodup :=
    h.sublist (List.filter_sublist.map _)
  cases op with
  | enqueue transfer =>
    rw [Op.settle, List.map_append, List.nodup_append]
    refine ⟨hfilter _, by simp, fun a ha b hb => ?_⟩
    obtain ⟨i, hi, rfl⟩ := List.mem_map.mp ha
    obtain rfl : b = transfer.id := by simpa using hb
    simpa using (List.mem_filter.mp hi).2
  | dequeue id => exact hfilter id
  | drain => exact List.nodup_nil

theorem nodup_pending (ops : List Op) : ((pending ops).map (·.id)).Nodup :=
  have hnil : (([] : List QueuedTransfer).map (·.id)).Nodup := List.nodup_nil
  run_invariant (P := fun items : List QueuedTransfer => (items.map (·.id)).Nodup)
    (fun _ op h => nodup_settle op h) hnil ops

/-- **What is pending stands in the order it was last enqueued in.** -/
theorem pairwise_pending (ops : List Op) :
    (pending ops).Pairwise fun a b => ∀ m n, Queued ops m a → Queued ops n b → m < n := by
  induction ops using List.reverseRecOn with
  | nil => exact List.Pairwise.nil
  | append_singleton ops op ih =>
    rw [pending_concat]
    -- the rest of an earlier list, seen after one more operation
    have hrest (id : String) (hop : ∀ t, op = .enqueue t → t.id = id) :
        ((pending ops).filter fun i => i.id ≠ id).Pairwise
          fun a b => ∀ m n, Queued (ops ++ [op]) m a → Queued (ops ++ [op]) n b → m < n := by
      refine (ih.sublist List.filter_sublist).imp_of_mem fun {a b} ha hb hab m n hm hn => ?_
      have hold {i : QueuedTransfer} {k : ℕ} (hi : i ∈ (pending ops).filter fun i => i.id ≠ id)
          (hk : Queued (ops ++ [op]) k i) : Queued ops k i := by
        rcases queued_concat.mp hk with ⟨-, hnew⟩ | ⟨hk, -⟩
        · exact absurd (hop i hnew) (by simpa using (List.mem_filter.mp hi).2)
        · exact hk
      exact hab m n (hold ha hm) (hold hb hn)
    cases op with
    | enqueue transfer =>
      refine List.pairwise_append.mpr ⟨hrest _ fun t ht => ?_, List.pairwise_singleton _ _,
        fun a ha b hb m n hm hn => ?_⟩
      · cases ht
        rfl
      · obtain rfl : b = transfer := by simpa using hb
        have ha' := (List.mem_filter.mp ha).2
        rcases queued_concat.mp hm with ⟨-, hnew⟩ | ⟨hm, -⟩
        · cases hnew
          simp at ha'
        · rcases queued_concat.mp hn with ⟨rfl, -⟩ | ⟨-, hset⟩
          · exact hm.lt
          · exact absurd rfl hset
    | dequeue id => exact hrest id fun _ h => by cases h
    | drain => exact List.Pairwise.nil

/-! ## The file holds what is pending -/

/-- Where ids do not repeat, removing the first with an id removes all of them. -/
theorem eraseP_eq_filter (id : String) {items : List QueuedTransfer}
    (h : (items.map (·.id)).Nodup) :
    items.eraseP (fun i => i.id = id) = items.filter fun i => i.id ≠ id := by
  induction items with
  | nil => rfl
  | cons i items ih =>
    obtain ⟨hi, hitems⟩ := List.nodup_cons.mp h
    by_cases hid : i.id = id
    · have hrest : ∀ j ∈ items, j.id ≠ id := fun j hj hj' =>
        hi (List.mem_map.mpr ⟨j, hj, hj'.trans hid.symm⟩)
      rw [List.eraseP_cons_of_pos (by simpa using hid), List.filter_cons_of_neg (by simpa using hid)]
      exact (List.filter_eq_self.mpr fun j hj => decide_eq_true (hrest j hj)).symm
    · simp [hid, ih hitems]

/-- The calls by what they save, if they save. -/
theorem step_enqueue (x : Codec T) (disk : Disk T) (transfer : QueuedTransfer) (f : Faults T) :
    step x disk (.enqueue transfer, f) = (save x disk
      ((((list x disk f.reading).filter fun i => i.id ≠ transfer.id) ++ [transfer]).insertionSort
        byPriority) f.saving).2 := by
  obtain ⟨reading, saving⟩ := f
  cases saving <;> rfl

theorem step_drain (x : Codec T) (disk : Disk T) (f : Faults T) :
    step x disk (.drain, f) = (save x disk [] f.saving).2 := by
  obtain ⟨reading, saving⟩ := f
  cases saving <;> rfl

theorem call_dequeue_of_none (x : Codec T) (disk : Disk T) {id : String} {f : Faults T}
    (h : (list x disk f.reading).find? (fun i => i.id = id) = none) :
    call x disk (.dequeue id, f) = (.dequeued none, disk) := by
  have hpos : (list x disk f.reading).findIdx? (fun i => i.id = id) = none :=
    List.findIdx?_eq_none_iff.mpr fun i hi => by simpa using List.find?_eq_none.mp h i hi
  simp only [call, dequeue, hpos]

theorem call_dequeue_of_some (x : Codec T) (disk : Disk T) {id : String} {f : Faults T}
    {removed : QueuedTransfer}
    (h : (list x disk f.reading).find? (fun i => i.id = id) = some removed) :
    call x disk (.dequeue id, f)
      = match save x disk ((list x disk f.reading).eraseP fun i => i.id = id) f.saving with
        | (.ok (), disk') => (.dequeued (some removed), disk')
        | (.error e, disk') => (.failed e, disk') := by
  rw [List.find?_eq_bind_findIdx?_getElem?] at h
  obtain ⟨pos, hpos, hremoved⟩ := Option.bind_eq_some_iff.mp h
  rw [List.eraseP_eq_eraseIdx, hpos]
  simp only [call, dequeue, hpos, hremoved]
  cases f.saving <;> rfl

section Refinement

variable {x : Codec T} (hx : x.RoundTrips)

include hx

theorem stored_done (disk : Disk T) (items : List QueuedTransfer) :
    stored x (save x disk items .done).2 = items := by
  rw [stored, list, save]
  exact congrArg (Option.getD · []) (hx items)

/-- **One operation**: the file holds the pending transfers sorted, and does so after it. -/
theorem stored_step (op : Op) {disk : Disk T} {items : List QueuedTransfer}
    (hids : (items.map (·.id)).Nodup) (h : stored x disk = items.insertionSort byPriority) :
    stored x (step x disk (op, .none)) = (op.settle items).insertionSort byPriority := by
  cases op with
  | enqueue transfer =>
    have hread : list x disk (Faults.none (T := T)).reading = items.insertionSort byPriority := h
    rw [step_enqueue, hread, filter_insertionSort, insertionSort_insertionSort_append]
    exact stored_done hx disk _
  | dequeue id =>
    have hnodup : ((stored x disk).map (·.id)).Nodup := by
      rw [h]
      exact ((List.perm_insertionSort byPriority items).map _).nodup_iff.mpr hids
    rw [Op.settle, ← filter_insertionSort, ← h, ← eraseP_eq_filter id hnodup, step]
    cases hfind : (stored x disk).find? fun i => i.id = id with
    | none =>
      rw [call_dequeue_of_none x disk hfind]
      exact (List.eraseP_of_forall_not (List.find?_eq_none.mp hfind)).symm
    | some removed =>
      rw [call_dequeue_of_some x disk hfind]
      exact stored_done hx disk _
  | drain =>
    rw [step_drain]
    exact stored_done hx disk []

/-- **Refinement**: from an absent file, the file holds what is pending, stably sorted. -/
theorem stored_run {disk : Disk T} (h : disk.queueFile = none) (ops : List Op) :
    stored x (run (step x) disk (ops.map (·, .none))) = (pending ops).insertionSort byPriority := by
  induction ops using List.reverseRecOn with
  | nil => simp [run, pending, stored, list, h]
  | append_singleton ops op ih =>
    rw [List.map_append, run_append, pending_concat]
    exact stored_step hx op (nodup_pending ops) ih

end Refinement

/-- **The list is exactly what is pending**: the ids are distinct, higher priority comes first, of
equal priority the one enqueued first comes first, and what is listed is what was enqueued last for
its id and has not been settled since. -/
theorem list_exact {x : Codec T} (hx : x.RoundTrips) {disk : Disk T} (h : disk.queueFile = none)
    (ops : List Op) :
    let items := stored x (run (step x) disk (ops.map (·, .none)))
    (items.map (·.id)).Nodup
      ∧ items.Pairwise (fun a b => b.priority ≤ a.priority)
      ∧ items.Pairwise (fun a b => a.priority = b.priority →
          ∀ m n, Queued ops m a → Queued ops n b → m < n)
      ∧ ∀ item, item ∈ items ↔ ∃ n, Queued ops n item := by
  intro items
  have hitems : items = (pending ops).insertionSort byPriority := stored_run hx h ops
  have hperm : items.Perm (pending ops) := hitems ▸ List.perm_insertionSort byPriority _
  have hstable := pairwise_insertionSort_stable (r := byPriority) (pairwise_pending ops)
  refine ⟨(hperm.map _).nodup_iff.mpr (nodup_pending ops), ?_, ?_, fun item => ?_⟩
  · rw [hitems]
    exact List.pairwise_insertionSort byPriority _
  · rw [hitems]
    exact hstable.imp fun hab heq => hab (Nat.le_of_eq heq)
  · rw [hperm.mem_iff, mem_pending]

/-- A text that is its own list. -/
def Codec.plain : Codec (List QueuedTransfer) := ⟨id, some⟩

theorem Codec.plain_roundTrips : Codec.plain.RoundTrips := fun _ => rfl

def upload (id : String) (priority : ℕ) : QueuedTransfer :=
  ⟨id, "/data/" ++ id, id, none, "upload", 4096, none, priority, 0, "2026-10-13T00:00:00Z"⟩

/-- Two uploads of one priority, the first of them enqueued again, and one that goes ahead. -/
def uploads : List Op :=
  [.enqueue (upload "a" 5), .enqueue (upload "b" 5), .enqueue (upload "a" 5),
    .enqueue (upload "c" 9), .enqueue (upload "d" 9), .dequeue "d"]

theorem list_exact_uploads :
    stored .plain (run (step .plain) ⟨none, none⟩ (uploads.map (·, .none)))
        = [upload "c" 9, upload "b" 5, upload "a" 5]
      ∧ ∀ item, item ∈ stored .plain (run (step .plain) ⟨none, none⟩ (uploads.map (·, .none)))
        ↔ ∃ n, Queued uploads n item :=
  ⟨by decide, (list_exact Codec.plain_roundTrips rfl uploads).2.2.2⟩

/-! ## When a read fails -/

/-- What is owed after a call, by what it returned: a transfer is replaced by the next with its id,
and what was returned is owed no more. -/
def owe (owed : Multiset QueuedTransfer) : Op → Response → Multiset QueuedTransfer
  | .enqueue transfer, .enqueued => owed.filter (fun i => i.id ≠ transfer.id) + {transfer}
  | _, .dequeued (some removed) => owed.erase removed
  | _, .drained items => owed - ↑items
  | _, _ => owed

/-- A call, with the account of what is owed. -/
def account (x : Codec T) (s : Disk T × Multiset QueuedTransfer) (e : Op × Faults T) :
    Disk T × Multiset QueuedTransfer :=
  ((call x s.1 e).2, owe s.2 e.1 (call x s.1 e).1)

/-- At no point of the run has the file less than is owed, counting from what it held. -/
def Kept (x : Codec T) (disk : Disk T) (es : List (Op × Faults T)) : Prop :=
  ∀ n, (run (account x) (disk, ↑(stored x disk)) (es.take n)).2
    ≤ ↑(stored x (run (account x) (disk, ↑(stored x disk)) (es.take n)).1)

/-- A call that does not write over what a failed read has hidden: if it saves after such a read,
an `enqueue` finds no transfer of another id in the file, and a `drain` none at all. -/
def Spares (x : Codec T) (disk : Disk T) : Op × Faults T → Prop
  | (.enqueue transfer, f) =>
    f.reading ≠ .sound → f.saving = .done → ∀ i ∈ stored x disk, i.id = transfer.id
  | (.dequeue _, _) => True
  | (.drain, f) => f.reading ≠ .sound → f.saving = .done → stored x disk = []

theorem list_of_ne_sound (x : Codec T) (disk : Disk T) {reading : Reading} (h : reading ≠ .sound) :
    list x disk reading = [] := by
  cases reading with
  | sound => exact absurd rfl h
  | hidden => rfl
  | unreadable => rfl
  | unparsable => rfl

theorem save_of_not_done (x : Codec T) (disk : Disk T) (items : List QueuedTransfer)
    {saving : Saving T} (h : saving ≠ .done) :
    ∃ e disk', save x disk items saving = (.error e, disk') ∧ stored x disk' = stored x disk := by
  cases saving with
  | done => exact absurd rfl h
  | noDirectory => exact ⟨_, _, rfl, rfl⟩
  | unwritten part => exact ⟨_, _, rfl, rfl⟩
  | unrenamed => exact ⟨_, _, rfl, rfl⟩

/-- A call that cannot save leaves the file and the account as they were. -/
theorem account_of_not_done (x : Codec T) (s : Disk T × Multiset QueuedTransfer) (op : Op)
    {f : Faults T} (h : f.saving ≠ .done) :
    (account x s (op, f)).2 = s.2 ∧ stored x (account x s (op, f)).1 = stored x s.1 := by
  have hsave (items : List QueuedTransfer) := save_of_not_done x s.1 items h
  cases op with
  | enqueue transfer =>
    obtain ⟨e, disk', heq, hsame⟩ := hsave ((((list x s.1 f.reading).filter fun i =>
      i.id ≠ transfer.id) ++ [transfer]).insertionSort byPriority)
    simp only [account, call, enqueue, heq]
    exact ⟨rfl, hsame⟩
  | dequeue id =>
    cases hfind : (list x s.1 f.reading).find? fun i => i.id = id with
    | none =>
      rw [account, call_dequeue_of_none x s.1 hfind]
      exact ⟨rfl, rfl⟩
    | some removed =>
      obtain ⟨e, disk', heq, hsame⟩ := hsave ((list x s.1 f.reading).eraseP fun i => i.id = id)
      rw [account, call_dequeue_of_some x s.1 hfind, heq]
      exact ⟨rfl, hsame⟩
  | drain =>
    obtain ⟨e, disk', heq, hsame⟩ := hsave []
    simp only [account, call, drain, heq]
    exact ⟨rfl, hsame⟩

/-- What is found first is what is removed. -/
theorem erase_of_find? {p : QueuedTransfer → Bool} {items : List QueuedTransfer}
    {removed : QueuedTransfer} (h : items.find? p = some removed) :
    (items : Multiset QueuedTransfer).erase removed = ↑(items.eraseP p) := by
  obtain ⟨hp, before, after, rfl, hbefore⟩ := List.find?_eq_some_iff_append.mp h
  have hmiddle : (↑(before ++ removed :: after) : Multiset QueuedTransfer)
      = removed ::ₘ ↑(before ++ after) := Multiset.coe_eq_coe.mpr List.perm_middle
  rw [hmiddle, Multiset.erase_cons_head,
    List.eraseP_append_right _ fun i hi => by simpa using hbefore i hi, List.eraseP_cons_of_pos hp]

section Account

variable {x : Codec T} (hx : x.RoundTrips)

include hx

theorem account_enqueue (s : Disk T × Multiset QueuedTransfer) (transfer : QueuedTransfer)
    (reading : Reading) :
    (account x s (.enqueue transfer, ⟨reading, .done⟩)).2
        = s.2.filter (fun i => i.id ≠ transfer.id) + {transfer}
      ∧ (stored x (account x s (.enqueue transfer, ⟨reading, .done⟩)).1 : Multiset QueuedTransfer)
        = (list x s.1 reading : Multiset QueuedTransfer).filter (fun i => i.id ≠ transfer.id)
          + {transfer} := by
  refine ⟨rfl, ?_⟩
  have hdone := stored_done hx s.1 ((((list x s.1 reading).filter fun i =>
    i.id ≠ transfer.id) ++ [transfer]).insertionSort byPriority)
  refine (congrArg Multiset.ofList hdone).trans ?_
  rw [Multiset.filter_coe, ← Multiset.coe_singleton, Multiset.coe_add, Multiset.coe_eq_coe]
  exact List.perm_insertionSort byPriority _

theorem account_drain (s : Disk T × Multiset QueuedTransfer) (reading : Reading) :
    (account x s (.drain, ⟨reading, .done⟩)).2 = s.2 - ↑(list x s.1 reading)
      ∧ stored x (account x s (.drain, ⟨reading, .done⟩)).1 = [] :=
  ⟨rfl, stored_done hx s.1 []⟩

/-- A `dequeue` takes from the file what it returns. -/
theorem account_dequeue {s : Disk T × Multiset QueuedTransfer} (hs : s.2 = ↑(stored x s.1))
    (id : String) (reading : Reading) :
    (account x s (.dequeue id, ⟨reading, .done⟩)).2
      = ↑(stored x (account x s (.dequeue id, ⟨reading, .done⟩)).1) := by
  cases hfind : (list x s.1 reading).find? fun i => i.id = id with
  | none =>
    rw [account, call_dequeue_of_none x s.1 hfind]
    exact hs
  | some removed =>
    have hread : list x s.1 reading = stored x s.1 := by
      by_cases hsound : reading = .sound
      · rw [hsound]
      · rw [list_of_ne_sound x s.1 hsound] at hfind
        cases hfind
    rw [account, call_dequeue_of_some x s.1 hfind, hread]
    have hdone := stored_done hx s.1 ((stored x s.1).eraseP fun i => i.id = id)
    refine Eq.trans ?_ (congrArg Multiset.ofList hdone).symm
    rw [hread] at hfind
    exact hs ▸ erase_of_find? hfind

/-- **One call**: where it spares the file, the file holds what is owed, and does so after it. -/
theorem account_spares {s : Disk T × Multiset QueuedTransfer} {e : Op × Faults T}
    (hs : s.2 = ↑(stored x s.1)) (he : Spares x s.1 e) :
    (account x s e).2 = ↑(stored x (account x s e).1) := by
  obtain ⟨op, reading, saving⟩ := e
  by_cases hsaving : saving = .done
  · subst hsaving
    cases op with
    | enqueue transfer =>
      obtain ⟨howed, hstored⟩ := account_enqueue hx s transfer reading
      rw [howed, hstored, hs]
      by_cases hsound : reading = .sound
      · rw [hsound]
      · rw [list_of_ne_sound x s.1 hsound, Multiset.filter_eq_nil.mpr fun i hi hid =>
          hid (he hsound rfl i (by simpa using hi))]
        rfl
    | dequeue id => exact account_dequeue hx hs id reading
    | drain =>
      obtain ⟨howed, hstored⟩ := account_drain hx s reading
      rw [howed, hstored, hs]
      by_cases hsound : reading = .sound
      · rw [hsound]
        exact Multiset.le_zero.mp (Multiset.sub_le_iff_le_add.mpr (Multiset.zero_add _).ge)
      · rw [he hsound rfl]
        exact Multiset.zero_sub _
  · obtain ⟨howed, hstored⟩ := account_of_not_done x s op (f := ⟨reading, saving⟩) hsaving
    rw [howed, hstored, hs]

/-- **Where it does not, the file then has less than is owed.** -/
theorem account_not_spares {s : Disk T × Multiset QueuedTransfer} {e : Op × Faults T}
    (hs : s.2 = ↑(stored x s.1)) (he : ¬ Spares x s.1 e) :
    ¬ (account x s e).2 ≤ ↑(stored x (account x s e).1) := by
  obtain ⟨op, reading, saving⟩ := e
  intro hle
  apply he
  cases op with
  | enqueue transfer =>
    rintro hsound rfl i hi
    obtain ⟨howed, hstored⟩ := account_enqueue hx s transfer reading
    rw [howed, hstored, hs, list_of_ne_sound x s.1 hsound] at hle
    have hnone := Multiset.le_zero.mp (Multiset.le_of_add_le_add_right hle)
    by_contra hid
    exact Multiset.filter_eq_nil.mp hnone i (by simpa using hi) hid
  | dequeue id => trivial
  | drain =>
    rintro hsound rfl
    obtain ⟨howed, hstored⟩ := account_drain hx s reading
    rw [howed, hstored, hs, list_of_ne_sound x s.1 hsound] at hle
    exact Multiset.coe_eq_zero _ |>.mp (Multiset.le_zero.mp (by simpa using hle))

end Account

/-- **Nothing is discarded exactly if no `enqueue` or `drain` saves after a failed read of a file
that holds something else.** -/
theorem kept_iff {x : Codec T} (hx : x.RoundTrips) (disk : Disk T) (es : List (Op × Faults T)) :
    Kept x disk es ↔ Along (Spares x) (step x) disk es := by
  unfold Kept
  generalize hs : ((disk, ↑(stored x disk)) : Disk T × Multiset QueuedTransfer) = s
  have hdisk : s.1 = disk := by rw [← hs]
  have howed : s.2 = ↑(stored x s.1) := by rw [← hs]
  clear hs
  subst hdisk
  induction es generalizing s with
  | nil => 
    refine ⟨fun _ => trivial, fun _ n => ?_⟩
    rw [List.take_nil]
    exact howed.le
  | cons e es ih =>
    by_cases he : Spares x s.1 e
    · have hnext := account_spares hx howed he
      refine Iff.trans ?_ ((ih (account x s e) hnext).trans (and_iff_right he).symm)
      constructor
      · exact fun h n => h (n + 1)
      · intro h n
        cases n with
        | zero => exact howed.le
        | succ n => exact h n
    · refine ⟨fun h => absurd (h 1) ?_, fun h => absurd h.1 he⟩
      simpa [run] using account_not_spares hx howed he

/-- A drain that finds its queue, and an enqueue for which nothing is hidden. -/
theorem kept_iff_uploads :
    Kept .plain ⟨some [upload "a" 5], none⟩
      [(.drain, .none), (.enqueue (upload "b" 5), ⟨.unreadable, .done⟩)] :=
  (kept_iff Codec.plain_roundTrips _ _).mpr (by simp [Along, Spares, Faults.none]; decide)

/-- **A queue that cannot be read for once is written over**: the enqueue succeeds, and the transfer
that was in the file is gone. -/
theorem not_kept :
    call .plain ⟨some [upload "a" 5], none⟩ (.enqueue (upload "b" 5), ⟨.unreadable, .done⟩)
        = (.enqueued, ⟨some [upload "b" 5], none⟩)
      ∧ ¬ Kept .plain ⟨some [upload "a" 5], none⟩
        [(.enqueue (upload "b" 5), ⟨.unreadable, .done⟩)] :=
  ⟨by decide, fun h => absurd (h 1) (by decide)⟩

end Pcos.Queue
