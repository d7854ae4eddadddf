import Pcos.Backend.Rebalance

/-!
# Backend/Rebalances — how far many calls go (`gateway/src/cluster.rs`)

A call of `rebalance_cluster` tops up each live file of the user by one row at most.  So a file with
too few rows gets one more from each call of its owner, and none from the calls of others: **after
`k` calls it is on the first `k` online devices that it was not on, or on as many as the mode asks
for** (`holders_rebalances`), and the next call counts the files that still lack one
(`rebalancedCount_rebalances`).
-/

namespace Pcos.Replicas

open Foundations

/-- A call: whose it is, and the ids that it makes. -/
structure RebalanceCall where
  user : Uuid
  newId : Uuid → Uuid → Uuid

namespace Cluster

def rebalanced (c : Cluster) (call : RebalanceCall) : Cluster :=
  (c.rebalanceCluster call.newId call.user).1

/-- The online devices that a file is not on. -/
def missing (c : Cluster) (user : Uuid) (file : FileEntry) : List Device :=
  (c.onlineDevices user).filter fun dev => dev.node ∉ c.holders file.id

end Cluster

/-- Each call makes new ids. -/
abbrev FreshCalls (c : Cluster) (calls : List RebalanceCall) : Prop :=
  Along (fun c call => Fresh call.newId c call.user) Cluster.rebalanced c calls

section Calls

variable {c c' : Cluster} {user : Uuid} {file : FileEntry} {call : RebalanceCall} {k t : ℕ}

/-- What a call does to the cluster. -/
theorem rebalanced_eq (h : Keyed c) (hfresh : Fresh call.newId c call.user) :
    c.rebalanced call =
      c.addReplicas (c.dueRows call.newId (c.target call.user) call.user) :=
  (rebalanceCluster_eq h hfresh).1

/-- The cluster but for its rows. -/
structure SameButRows (c c' : Cluster) : Prop where
  world : c'.world = c.world
  devices : c'.devices = c.devices
  modes : c'.modes = c.modes

namespace SameButRows

theorem refl (c : Cluster) : SameButRows c c := ⟨rfl, rfl, rfl⟩

theorem addReplicas (h : SameButRows c c') (rows : List Replica) :
    SameButRows c (c'.addReplicas rows) := ⟨h.world, h.devices, h.modes⟩

theorem files (h : SameButRows c c') (user : Uuid) : c'.files user = c.files user := by
  rw [Cluster.files, Cluster.files, h.world]

theorem onlineDevices (h : SameButRows c c') (user : Uuid) :
    c'.onlineDevices user = c.onlineDevices user := by
  rw [Cluster.onlineDevices, Cluster.onlineDevices, h.devices]

theorem target (h : SameButRows c c') (user : Uuid) : c'.target user = c.target user := by
  rw [Cluster.target, Cluster.target, h.modes]

end SameButRows

/-- Where a file is, `k` rounds after it was in `c`. -/
def Cluster.holdersAfter (c : Cluster) (user : Uuid) (file : FileEntry) (k : ℕ) : Finset String :=
  c.holders file.id ∪ (topUp (min (c.target user) ((c.holders file.id).card + k))
    (c.holders file.id) ((c.onlineDevices user).map Device.node)).toFinset

theorem holdersAfter_zero : c.holdersAfter user file 0 = c.holders file.id := by
  rw [Cluster.holdersAfter, topUp, show min (c.target user) ((c.holders file.id).card + 0)
    - (c.holders file.id).card = 0 by omega, List.take_zero, List.toFinset_nil, Finset.union_empty]

/-- A file of another user is not among the files of a user. -/
theorem not_mem_files_of_ne (hfile : file ∈ c.files user) (hne : call.user ≠ user) :
    file.id ∉ (c.files call.user).map FileEntry.id := by
  intro hmem
  obtain ⟨f, hf, hid⟩ := List.mem_map.mp hmem
  rw [Cluster.files, List.mem_filter] at hf hfile
  obtain rfl : f = file := List.inj_on_of_nodup_map c.world.entries.valid.pk hf.1 hfile.1 hid
  simp only [Bool.and_eq_true, decide_eq_true_eq] at hf hfile
  exact hne (hf.2.1.symm.trans hfile.2.1)

/-- **One call**: one round for a file of the user, and none for that of another. -/
theorem holders_rebalanced (h : Keyed c) (hfresh : Fresh call.newId c call.user)
    (hfile : file ∈ c.files user) (ht : 1 < c.target user)
    (honline : 1 < (c.onlineDevices user).length) :
    (c.rebalanced call).holders file.id =
      if call.user = user then c.holders file.id ∪
        (topUp (min (c.target user) ((c.holders file.id).card + 1)) (c.holders file.id)
          ((c.onlineDevices user).map Device.node)).toFinset
      else c.holders file.id := by
  rw [rebalanced_eq h hfresh]
  split
  case isTrue heq =>
    subst heq
    rw [holders_dueRows hfile, due_nodes, if_pos ⟨ht, honline⟩]
  case isFalse hne => rw [holders_dueRows_of_not_mem (not_mem_files_of_ne hfile hne)]

/-- What the calls keep, with where the files are after them. -/
structure After (c : Cluster) (user : Uuid) (k : ℕ) (c' : Cluster) : Prop where
  keyed : Keyed c'
  same : SameButRows c c'
  holders : ∀ f ∈ c.files user, c'.holders f.id = c.holdersAfter user f k

theorem After.zero (h : Keyed c) : After c user 0 c :=
  ⟨h, .refl c, fun _ _ => holdersAfter_zero.symm⟩

/-- **The step**: a call of the user is one more round. -/
theorem After.step (hc : Keyed c) (ht : 1 < c.target user)
    (honline : 1 < (c.onlineDevices user).length) (h : After c user k c')
    (hfresh : Fresh call.newId c' call.user) :
    After c user (k + if call.user = user then 1 else 0) (c'.rebalanced call) := by
  have heq := rebalanced_eq h.keyed hfresh
  refine ⟨heq ▸ h.keyed.of_dueRows _ _ _, heq ▸ h.same.addReplicas _, fun f hf => ?_⟩
  have hround := holders_rebalanced h.keyed hfresh (h.same.files user ▸ hf)
    (h.same.target user ▸ ht) (h.same.onlineDevices user ▸ honline)
  rw [hround, h.same.target, h.same.onlineDevices, h.holders f hf]
  by_cases heq : call.user = user
  · rw [if_pos heq, if_pos heq, Cluster.holdersAfter, Cluster.holdersAfter]
    exact (union_topUp_succ (c.holders f.id) (c.target user) k (hc.nodup_online user)).symm
  · rw [if_neg heq, if_neg heq, Nat.add_zero]

/-- **The run**: after `k` calls of the user, among those of others, `k` rounds were made. -/
theorem After.run (hc : Keyed c) (ht : 1 < c.target user)
    (honline : 1 < (c.onlineDevices user).length) :
    ∀ {calls : List RebalanceCall} {k : ℕ} {c' : Cluster}, After c user k c' →
      FreshCalls c' calls →
        After c user (k + calls.countP fun call => call.user = user)
          (Foundations.run Cluster.rebalanced c' calls)
  | [], _, _, h, _ => h
  | call :: calls, k, c', h, hfresh => by
      have hrest := After.run hc ht honline (h.step hc ht honline hfresh.1) hfresh.2
      rw [List.countP_cons]
      simp only [decide_eq_true_eq]
      rwa [Nat.add_assoc, Nat.add_comm (if call.user = user then 1 else 0)] at hrest

/-- The rows that a file lacks, of those that the mode asks for and there are devices for. -/
def Cluster.lacks (c : Cluster) (user : Uuid) (file : FileEntry) : ℕ :=
  min (c.target user - c.rowCount file.id) (c.missing user file).length

/-- The nodes that `k` rounds add, by the devices. -/
theorem holdersAfter_eq (h : Keyed c) (k : ℕ) : c.holdersAfter user file k =
    c.holders file.id ∪
      (((c.missing user file).take (min k (c.lacks user file))).map Device.node).toFinset := by
  have hlacks : min (c.target user - (c.holders file.id).card) (c.missing user file).length =
      c.lacks user file := by rw [Cluster.lacks, h.card_holders, Cluster.rowCount]
  rw [Cluster.holdersAfter, topUp, List.filter_map, ← List.map_take]
  change _ ∪ (((c.missing user file).take _).map Device.node).toFinset = _
  generalize c.missing user file = missing at *
  congr 2
  rw [← hlacks]
  by_cases hk : k ≤ missing.length
  · congr 2
    omega
  · congr 1
    rw [List.take_eq_take_iff]
    omega

/-- …and how many there are then. -/
theorem card_holdersAfter (h : Keyed c) (k : ℕ) : (c.holdersAfter user file k).card =
    c.rowCount file.id + min k (c.lacks user file) := by
  have hmissing : (((c.onlineDevices user).map Device.node).filter
      fun n => n ∉ c.holders file.id).length = (c.missing user file).length := by
    rw [List.filter_map, List.length_map]
    rfl
  rw [Cluster.holdersAfter, card_union_topUp (h.nodup_online user),
    card_union_of_filter (h.nodup_online user), hmissing, Cluster.lacks, Cluster.rowCount,
    ← h.card_holders]
  omega

/-- The devices that a file still lacks after `k` rounds. -/
theorem After.length_missing (hc : Keyed c) (h : After c user k c') (hfile : file ∈ c.files user) :
    (c'.missing user file).length = (c.missing user file).length -
      (min (c.target user) (c.rowCount file.id + k) - c.rowCount file.id) := by
  have hnodes := missing_topUp (t := min (c.target user) ((c.holders file.id).card + k))
    (c.holders file.id) (hc.nodup_online user)
  rw [List.filter_map, List.filter_map, ← List.map_drop] at hnodes
  have hlength := congrArg List.length hnodes
  rw [List.length_map, List.length_map, List.length_drop] at hlength
  rw [Cluster.missing, h.same.onlineDevices, h.holders file hfile, Cluster.rowCount,
    ← hc.card_holders]
  exact hlength

/-- A file gets a row from the next call if it still lacks one. -/
theorem After.length_due (hc : Keyed c) (ht : 1 < c.target user)
    (honline : 1 < (c.onlineDevices user).length) (h : After c user k c')
    (hfile : file ∈ c.files user) :
    (c'.due (c.target user) user file).length = if k < c.lacks user file then 1 else 0 := by
  have hcard : (c'.holders file.id).card = c.rowCount file.id + min k (c.lacks user file) := by
    rw [h.holders file hfile, card_holdersAfter hc]
  have hmissing := h.length_missing hc hfile
  rw [Cluster.lacks] at hcard ⊢
  rw [Cluster.missing] at hmissing
  rw [Cluster.due, h.same.onlineDevices]
  rw [h.same.onlineDevices] at hmissing
  split
  · rw [List.length_take, hmissing]
    split <;> omega
  · rw [if_neg (by omega), List.length_nil]

/-- **What the next call counts**: one row for each file that still lacks one. -/
theorem After.rebalancedCount (hc : Keyed c) (ht : 1 < c.target user)
    (honline : 1 < (c.onlineDevices user).length) (h : After c user k c')
    {newId : Uuid → Uuid → Uuid} (hfresh : Fresh newId c' user) :
    (c'.rebalanceCluster newId user).2.rebalancedCount =
      (c.files user).countP fun f => k < c.lacks user f := by
  have hdue : ∀ files : List FileEntry, files ⊆ c.files user →
      (files.flatMap fun f => (c'.due (c.target user) user f).map
        (Cluster.scheduled newId f)).length = files.countP fun f => k < c.lacks user f := by
    intro files
    induction files with
    | nil => exact fun _ => rfl
    | cons f files ih =>
      intro hfiles
      rw [List.cons_subset] at hfiles
      rw [List.flatMap_cons, List.length_append, List.length_map,
        h.length_due hc ht honline hfiles.1, ih hfiles.2, List.countP_cons, Nat.add_comm]
      simp only [decide_eq_true_eq]
  rw [(rebalanceCluster_eq h.keyed hfresh).2, Cluster.dueRows, h.same.files, h.same.target]
  exact hdue _ (List.Subset.refl _)

end Calls

/-- **Where the files are after any calls**: of the rows that a file of the user lacks, one more with
each call of the user, in the order of the devices; the calls of others change nothing. -/
theorem holders_rebalances (c : Cluster) (h : Keyed c) (user : Uuid) (ht : 1 < c.target user)
    (honline : 1 < (c.onlineDevices user).length) (calls : List RebalanceCall)
    (hfresh : FreshCalls c calls) :
    ∀ f ∈ c.files user, (run Cluster.rebalanced c calls).holders f.id =
      c.holders f.id ∪ (((c.missing user f).take (min (calls.countP fun call => call.user = user)
        (c.lacks user f))).map Device.node).toFinset := by
  intro f hf
  have hafter := After.run h ht honline (.zero h) hfresh
  rw [hafter.holders f hf, holdersAfter_eq h, Nat.zero_add]

open Pcos.Sample Sample in
/-- A call of another user, and then one of Alice's. -/
def twoCalls : List RebalanceCall := [⟨bob, fun _ _ => id1⟩, ⟨alice, fun _ _ => id1⟩]

open Pcos.Sample Sample in
theorem freshCalls_twoCalls : FreshCalls halfway twoCalls :=
  ⟨⟨by decide, by decide⟩, ⟨by decide, by decide⟩, trivial⟩

open Pcos.Sample Sample in
theorem holders_rebalances_twoCalls : (halfway.files alice).map (halfway.lacks alice) = [1] ∧
    ∀ f ∈ halfway.files alice, (run Cluster.rebalanced halfway twoCalls).holders f.id =
      halfway.holders f.id ∪
        (((halfway.missing alice f).take (min (twoCalls.countP fun call => call.user = alice)
          (halfway.lacks alice f))).map Device.node).toFinset :=
  ⟨by decide, holders_rebalances halfway ⟨by decide, by decide⟩ alice (by decide) (by decide)
    twoCalls freshCalls_twoCalls⟩

end Pcos.Replicas
