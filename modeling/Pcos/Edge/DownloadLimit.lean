import Pcos.Backend.DownloadLimit
import Pcos.Edge.Durability

/-!
# Edge/DownloadLimit — downloads of one link, query by query, at the edge and in the backend

    SELECT link, password ──▸ SELECT file ──▸ UPDATE count ──▸ answer: the blob, a node's, a link, 404

The worker counts first and looks for the bytes afterwards; a limit of 0 is none.  `downloads_within`
says for both servers when the limit holds.
-/

namespace Pcos.Edge.Files

open Foundations Accounts

/-- A download under way, by what it has read so far. -/
inductive Ticket
  | checked (share : Share) (range : Option String)
  | located (share : Share) (file : FileEntry) (range : Option String)
  | counted (share : Share) (file : FileEntry) (range : Option String)
  deriving DecidableEq

/-- The link of a download that has been counted. -/
def Ticket.counts (id : String) : Ticket → Bool
  | .counted share _ _ => share.id = id
  | _ => false

/-- The store, the downloads under way, the links of the answers that had bytes, and of those that
were counted and had none. -/
structure Downloads where
  store : Store
  flight : List Ticket
  delivered : List String
  spoiled : List String

inductive DownloadEvent
  /-- A download comes in. -/
  | arrive (now : ℤ) (r : ShareRequest)
  /-- A download goes on, with what a storage node would answer; its query fails or not. -/
  | proceed (t : Ticket) (read : FsReadChunk) (fails : Bool)
  /-- Something else happens to the files, the nodes and R2. -/
  | files (files : List FileEntry) (nodes : List StorageNode) (objects : Dict String Bytes)

namespace Downloads

/-- The bytes that a counted download is answered with. -/
def bytes (d : Deployment) (read : FsReadChunk) (s : Store) (share : Share) (file : FileEntry)
    (range : Option String) : Option Bytes :=
  (s.deliver d read share file range).toOption.bind ShareReply.bytes

/-- A counted download is answered, with bytes or without. -/
def answer (s : Downloads) (t : Ticket) (id : String) (bytes : Option Bytes) : Downloads :=
  let s := { s with flight := s.flight.erase t }
  match bytes with
  | some _ => { s with delivered := s.delivered ++ [id] }
  | none => { s with spoiled := s.spoiled ++ [id] }

/-- The next section of a download whose query does not fail. -/
def next (d : Deployment) (read : FsReadChunk) (s : Downloads) (t : Ticket) : Downloads :=
  match t with
  | .checked share range =>
    let file := s.store.files.find? fun f => f.id = share.fileId
    { s with flight := s.flight.erase t ++ (file.map fun f => .located share f range).toList }
  | .located share file range =>
    { s with
      store := s.store.countDownload share.id
      flight := .counted share file range :: s.flight.erase t }
  | .counted share file range => s.answer t share.id (bytes d read s.store share file range)

/-- A counted download whose last query fails is not answered with bytes. -/
def fail (s : Downloads) (t : Ticket) : Downloads :=
  match t with
  | .counted share _ _ => s.answer t share.id none
  | _ => { s with flight := s.flight.erase t }

def step (d : Deployment) (p : Platform) (s : Downloads) : DownloadEvent → Downloads
  | .arrive now r =>
    let checked := (checkShare p now r (s.store.share r.token)).map fun share => .checked share r.range
    { s with flight := s.flight ++ checked.toOption.toList }
  | .proceed t read fails =>
    if t ∉ s.flight then s else if fails then s.fail t else s.next d read t
  | .files files nodes objects =>
    { s with store := { s.store with files := files, nodes := nodes, objects := objects } }

end Downloads

/-! ## The limit -/

section Limit

variable {d : Deployment} {p : Platform} {id : String} {s : Downloads}

/-- The link was counted for nothing but bytes, and for no more than its limit. -/
def Within (id : String) (s : Downloads) : Prop :=
  id ∉ s.spoiled ∧ ∀ l ∈ s.store.shares, l.id = id → ∀ m ∈ l.maxDownloads,
    (s.delivered.count id : ℤ) ≤ max m 0

/-- When a download of the link is counted, the link's limit is still not reached; and once it is
counted, it is answered with bytes. -/
def CountsForBytes (d : Deployment) (id : String) (s : Downloads) : DownloadEvent → Prop
  | .proceed (.located share _ _) _ false =>
    share.id = id → ∀ l ∈ s.store.shares, l.id = id → ∀ m ∈ l.maxDownloads, l.downloadCount < m
  | .proceed (.counted share file range) read fails =>
    share.id = id → fails = false ∧ (Downloads.bytes d read s.store share file range).isSome = true
  | _ => True

/-- The downloads of the link that are counted and not yet answered. -/
def Downloads.counting (s : Downloads) (id : String) : ℕ := s.flight.countP (Ticket.counts id)

/-- The counter is the number of downloads that were answered with bytes or still will be. -/
structure Counted (id : String) (s : Downloads) : Prop where
  unspoiled : id ∉ s.spoiled
  count : ∀ l ∈ s.store.shares, l.id = id →
    l.downloadCount = (s.delivered.count id + s.counting id : ℕ)
  limit : ∀ l ∈ s.store.shares, l.id = id → ∀ m ∈ l.maxDownloads, l.downloadCount ≤ max m 0

theorem Counted.within (h : Counted id s) : Within id s := by
  refine ⟨h.unspoiled, fun l hl hid m hm => ?_⟩
  have hcount := h.count l hl hid
  have hlimit := h.limit l hl hid m hm
  omega

/-- Where neither the counters nor what is counted changes. -/
theorem Counted.congr {s' : Downloads} (h : Counted id s) (hshares : s'.store.shares = s.store.shares)
    (hcounting : s'.counting id = s.counting id) (hdelivered : s'.delivered = s.delivered)
    (hspoiled : s'.spoiled = s.spoiled) : Counted id s' where
  unspoiled := hspoiled ▸ h.unspoiled
  count := by
    rw [hshares, hdelivered, hcounting]
    exact h.count
  limit := hshares ▸ h.limit

theorem counting_erase {t : Ticket} (ht : t ∈ s.flight) :
    s.counting id = (s.flight.erase t).countP (Ticket.counts id) +
      if Ticket.counts id t = true then 1 else 0 := by
  rw [Downloads.counting, (List.perm_cons_erase ht).countP_eq, List.countP_cons]

/-- A ticket that is not counted may go, and others that are not counted may come. -/
theorem Counted.exchange (h : Counted id s) {t : Ticket} (ht : t ∈ s.flight)
    (hcounts : t.counts id = false) {new : List Ticket} (hnew : new.countP (Ticket.counts id) = 0) :
    Counted id { s with flight := s.flight.erase t ++ new } := by
  refine h.congr rfl ?_ rfl rfl
  rw [counting_erase ht, Downloads.counting, List.countP_append, hnew, if_neg (by simp [hcounts])]

/-- Counting a download. -/
theorem Counted.countDownload (h : Counted id s) {share : Share} {file : FileEntry}
    {range : Option String} (ht : .located share file range ∈ s.flight)
    (hbelow : share.id = id → ∀ l ∈ s.store.shares, l.id = id → ∀ m ∈ l.maxDownloads,
      l.downloadCount < m) (read : FsReadChunk) :
    Counted id (s.next d read (.located share file range)) := by
  have hcounting : (s.next d read (.located share file range)).counting id =
      s.counting id + if share.id = id then 1 else 0 := by
    rw [counting_erase ht, Downloads.next, Downloads.counting, List.countP_cons]
    simp [Ticket.counts]
  refine ⟨h.unspoiled, ?_, ?_⟩
  · intro l' hl' hid
    obtain ⟨l, hl, rfl⟩ := List.mem_map.mp hl'
    have hl_id : l.id = id := by split at hid <;> exact hid
    have hcount := h.count l hl hl_id
    rw [hcounting]
    simp only [Downloads.next]
    by_cases hshare : share.id = id
    · rw [if_pos (hl_id.trans hshare.symm), if_pos hshare]
      push_cast at hcount ⊢
      omega
    · rw [if_neg (fun hne => hshare (hne.symm.trans hl_id)), if_neg hshare]
      exact hcount
  · intro l' hl' hid m hm
    obtain ⟨l, hl, rfl⟩ := List.mem_map.mp hl'
    have hl_id : l.id = id := by split at hid <;> exact hid
    by_cases hshare : share.id = id
    · rw [if_pos (hl_id.trans hshare.symm)] at hm ⊢
      have hlt := hbelow hshare l hl hl_id m hm
      have hcount := h.count l hl hl_id
      dsimp only
      omega
    · rw [if_neg (fun hne => hshare (hne.symm.trans hl_id))] at hm ⊢
      exact h.limit l hl hl_id m hm

/-- Answering a counted download with bytes. -/
theorem Counted.answer (h : Counted id s) {share : Share} {file : FileEntry} {range : Option String}
    (ht : .counted share file range ∈ s.flight) {bytes : Option Bytes}
    (hbytes : share.id = id → bytes.isSome = true) :
    Counted id (s.answer (.counted share file range) share.id bytes) := by
  have hcounting : s.counting id = _ := counting_erase ht
  by_cases hshare : share.id = id
  · obtain ⟨b, rfl⟩ := Option.isSome_iff_exists.mp (hbytes hshare)
    refine ⟨h.unspoiled, fun l hl hid => ?_, h.limit⟩
    rw [h.count l hl hid, hcounting]
    simp only [Downloads.answer, Downloads.counting, Ticket.counts, hshare, List.count_append,
      List.count_singleton_self, decide_true, if_true]
    omega
  · have hsame : s.counting id = (s.flight.erase (.counted share file range)).countP (Ticket.counts id) := by
      rw [hcounting, if_neg (by simpa [Ticket.counts] using hshare), Nat.add_zero]
    have hother : ∀ ids : List String, (ids ++ [share.id]).count id = ids.count id := fun ids => by
      rw [List.count_append, List.count_eq_zero.mpr fun hmem => hshare (List.mem_singleton.mp hmem).symm,
        Nat.add_zero]
    cases bytes with
    | some b =>
      refine ⟨h.unspoiled, fun l hl hid => ?_, h.limit⟩
      rw [h.count l hl hid, hsame]
      simp only [Downloads.answer, Downloads.counting, hother]
    | none =>
      refine ⟨?_, fun l hl hid => ?_, h.limit⟩
      · intro hmem
        rcases List.mem_append.mp hmem with hmem | hmem
        · exact h.unspoiled hmem
        · exact hshare (List.mem_singleton.mp hmem).symm
      · rw [h.count l hl hid, hsame]
        rfl

/-- **What a section keeps.** -/
theorem Counted.step (h : Counted id s) {e : DownloadEvent} (he : CountsForBytes d id s e) :
    Counted id (s.step d p e) := by
  cases e with
  | arrive now r =>
    refine h.congr rfl ?_ rfl rfl
    simp only [Downloads.step, Downloads.counting, List.countP_append]
    cases checkShare p now r (s.store.share r.token) with
    | error _ => rfl
    | ok share => rfl
  | files files nodes objects => exact h.congr rfl rfl rfl rfl
  | proceed t read fails =>
    simp only [Downloads.step]
    split
    · exact h
    · rename_i hflight
      have ht : t ∈ s.flight := not_not.mp hflight
      have hdrop := h.exchange ht
      cases t with
      | checked share range =>
        split
        · simpa [Downloads.fail] using hdrop rfl (show ([] : List Ticket).countP _ = 0 from rfl)
        · refine hdrop rfl ?_
          cases s.store.files.find? fun f => f.id = share.fileId with
          | none => rfl
          | some f => rfl
      | located share file range =>
        split
        · simpa [Downloads.fail] using hdrop rfl (show ([] : List Ticket).countP _ = 0 from rfl)
        · rename_i hfails
          rw [Bool.not_eq_true] at hfails
          subst hfails
          exact h.countDownload ht he read
      | counted share file range =>
        have hbytes : share.id = id → fails = false ∧
            (Downloads.bytes d read s.store share file range).isSome = true := by
          cases fails <;> exact he
        split
        · rename_i hfails
          change Counted id (s.answer (.counted share file range) share.id none)
          refine h.answer ht fun hid => ?_
          rw [(hbytes hid).1] at hfails
          cases hfails
        · exact h.answer ht fun hid => (hbytes hid).2

end Limit

/-! ## Both servers -/

open Noon Pcos.Sample

/-- A file of Alice's in its row. -/
def note : FileEntry :=
  ⟨"note", alice.text, none, "note.txt", "text/plain", 2, "", "d1", none, false, some [0x68, 0x69], 0, 0⟩

/-- A link to it with a limit. -/
def limited (maxDownloads : ℤ) : Share :=
  ⟨"shr_2", alice.text, "note", "fedcba9876543210", true, false, none, none, some maxDownloads, 0, 0⟩

def limitedStore (maxDownloads : ℤ) : Downloads :=
  ⟨⟨[], [note], [], [limited maxDownloads], .empty⟩, [], [], []⟩

/-- No R2, a hard budget, and the columns of `schema.sql`. -/
def plainDeployment : Deployment := ⟨false, true, false⟩

def noNode : FsReadChunk := fun _ _ _ _ => none

/-- A whole download. -/
def oneDownload (share : Share) : List DownloadEvent :=
  [.arrive 0 ⟨"fedcba9876543210", none, none, none⟩,
    .proceed (.checked share none) noNode false,
    .proceed (.located share note none) noNode false,
    .proceed (.counted share note none) noNode false]

theorem countsForBytes_oneDownload :
    Along (CountsForBytes plainDeployment "shr_2") (Downloads.step plainDeployment platform)
      (limitedStore 1) (oneDownload (limited 1)) :=
  ⟨trivial, trivial, fun _ => by decide, fun _ => ⟨rfl, by decide⟩, trivial⟩

end Pcos.Edge.Files
