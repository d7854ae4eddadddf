import Pcos.Backend.Shares
import Pcos.Foundations.Runs

/-!
# Backend/DownloadLimit — downloads of one link, query by query (`download_shared`)

    SELECT link, checks ──▸ SELECT file ──▸ read file ──▸ UPDATE count, answer

Each arrow waits, so other downloads come in; the last section counts and answers at once.  The
limit was compared with the row that the first section read.
-/

namespace Pcos.Shares

open Foundations Auth

/-- A download under way, by what it has read so far. -/
inductive Ticket
  | checked (share : ShareLink)
  | located (share : ShareLink) (file : FileEntry) (path : String)
  | loaded (share : ShareLink) (content : Download)
  deriving DecidableEq

/-- The tables, the downloads under way, and the links of the answers that had bytes. -/
structure Downloads where
  shared : Shared
  flight : List Ticket
  delivered : List Uuid

inductive DownloadEvent
  /-- A download comes in. -/
  | arrive (now : ℤ) (r : ShareRequest)
  /-- A download goes on with its next query, which fails or not. -/
  | proceed (t : Ticket) (fails : Bool)
  /-- Something else happens to the files. -/
  | world (w : World)

namespace Downloads

/-- The ticket is exchanged for the next, if there is one. -/
def exchange (s : Downloads) (t : Ticket) (next : Except ShareError Ticket) : Downloads :=
  { s with flight := s.flight.erase t ++ next.toOption.toList }

/-- The download is counted and answered. -/
def answer (s : Downloads) (t : Ticket) (share : ShareLink) : Downloads where
  shared := s.shared.countDownload share.id
  flight := s.flight.erase t
  delivered := s.delivered ++ [share.id]

/-- The next section of a download whose query does not fail. -/
def next (s : Downloads) (t : Ticket) : Downloads :=
  match t with
  | .checked share =>
    s.exchange t ((sharedFile share s.shared).map fun f => .located share f.1 f.2)
  | .located share file path =>
    s.exchange t ((readShared path s.shared).map fun data => .loaded share (sharedContent file data))
  | .loaded share _ => s.answer t share

def step (x : Crates) (s : Downloads) : DownloadEvent → Downloads
  | .arrive now r =>
    { s with flight := s.flight ++ ((checkDownload x now r s.shared).map .checked).toOption.toList }
  | .proceed t fails =>
    if t ∉ s.flight then s
    else if fails then { s with flight := s.flight.erase t }
    else s.next t
  | .world w => { s with shared := { s.shared with world := w } }

end Downloads

/-! ## The limit -/

section Limit

variable {x : Crates} {id : Uuid} {s : Downloads}

/-- The link's counter is the number of its downloads that were answered, and within its limit. -/
def Within (id : Uuid) (s : Downloads) : Prop :=
  ∀ l ∈ s.shared.links, l.id = id → l.downloadCount = s.delivered.count id ∧
    ∀ m ∈ l.maxDownloads, (s.delivered.count id : ℤ) ≤ max m 0

/-- When a download of the link is counted, the link's limit is still not reached. -/
def CountsBelow (id : Uuid) (s : Downloads) : DownloadEvent → Prop
  | .proceed (.loaded share _) false =>
    share.id = id → ∀ l ∈ s.shared.links, l.id = id → l.exhausted = false
  | _ => True

theorem not_exhausted_iff {l : ShareLink} :
    l.exhausted = false ↔ ∀ m ∈ l.maxDownloads, l.downloadCount < m := by
  rw [ShareLink.exhausted]
  cases l.maxDownloads <;> simp

theorem Within.answer (h : Within id s) {t : Ticket} {share : ShareLink}
    (hbelow : share.id = id → ∀ l ∈ s.shared.links, l.id = id → l.exhausted = false) :
    Within id (s.answer t share) := by
  intro l' hl' hid
  obtain ⟨l, hl, rfl⟩ := List.mem_map.mp hl'
  have hl_id : l.id = id := by
    split at hid
    · exact hid
    · exact hid
  obtain ⟨hcount, hmax⟩ := h l hl hl_id
  simp only [Downloads.answer, List.count_append]
  by_cases hshare : share.id = id
  · rw [if_pos (hl_id.trans hshare.symm), hshare, List.count_singleton_self]
    refine ⟨by rw [hcount]; rfl, fun m hm => ?_⟩
    have hlt := not_exhausted_iff.mp (hbelow hshare l hl hl_id) m hm
    rw [hcount] at hlt
    push_cast
    omega
  · rw [if_neg (fun hne => hshare (hne.symm.trans hl_id)),
      List.count_eq_zero.mpr (fun hmem => hshare (List.mem_singleton.mp hmem).symm)]
    exact ⟨hcount, hmax⟩

/-- **What a section keeps.** -/
theorem Within.step (h : Within id s) {e : DownloadEvent} (he : CountsBelow id s e) :
    Within id (s.step x e) := by
  cases e with
  | arrive now r => exact h
  | world w => exact h
  | proceed t fails =>
    simp only [Downloads.step]
    split
    · exact h
    · split
      · exact h
      · rename_i hfails
        rw [Bool.not_eq_true] at hfails
        subst hfails
        cases t with
        | checked share => exact h
        | located share file path => exact h
        | loaded share content => exact h.answer he

/-- **Downloads stay within the limit** in a run whose downloads are counted below it. -/
theorem within_of_countsBelow {es : List DownloadEvent} (hs : Within id s)
    (hes : Along (CountsBelow id) (Downloads.step x) s es) :
    Within id (run (Downloads.step x) s es) :=
  Along.invariant (P := Within id) (fun _ _ h he => Within.step h he) hs hes

end Limit

/-! ## Names for concrete downloads -/

namespace Sample

open Pcos.Sample Auth.Noon

/-- A stored file of Alice's. -/
def note : FileEntry :=
  ⟨id1, alice, none, "note.txt", .file, some "text/plain", 2, none, some "note", false, none, 0, 0⟩

def noteWorld : World :=
  { World.empty migratedColumns users with entries := ⟨[note], by decide⟩ }.putBlob "note" [0x68, 0x69]

/-- A link to it, for one download. -/
def once : ShareLink :=
  ⟨id2, alice, id1, "token", "download", none, none, some 1, 0, true, 0, 0⟩

def onceShared : Downloads := ⟨⟨noteWorld, [once]⟩, [], []⟩

/-- A whole download. -/
def oneDownload : List DownloadEvent :=
  [.arrive 0 ⟨"token", none, none⟩, .proceed (.checked once) false,
    .proceed (.located once note "note") false,
    .proceed (.loaded once (sharedContent note [0x68, 0x69])) false]

/-- A second that comes in before the first is counted. -/
def twoDownloads : List DownloadEvent := .arrive 0 ⟨"token", none, none⟩ ::
  (oneDownload ++ oneDownload.tail)

end Sample

end Pcos.Shares
