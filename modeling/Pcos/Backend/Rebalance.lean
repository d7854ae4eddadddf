import Pcos.Backend.Replicas

/-!
# Backend/Rebalance — how far one call goes (`gateway/src/cluster.rs`)

`rebalance_cluster` counts the rows of each live file.  Where there are fewer than the mode asks
for, it goes through the devices that are online up to the first row that is inserted.  So a file is topped up by one row at most (`holders_rebalanceCluster`): **no file gets more rows than
the mode asks for, one that lacks no second row gets as many as there are devices for, and when no
file lacks a second one the next call inserts nothing** (`rebalanceCluster_limited`).

In single-device mode there is nothing to be inserted.
-/

namespace Pcos.Replicas

open Foundations

/-! ## The handler -/

structure RebalanceResponse where
  rebalancedCount : ℕ
  verifiedCount : ℕ
  status : String
  message : String
  deriving DecidableEq

namespace Cluster

variable (newId : Uuid → Uuid → Uuid)

/-- The first row of a file that is inserted. -/
def attempt (file : FileEntry) (c : Cluster) : List Device → Option Cluster
  | [] => none
  | dev :: devices => c.insertReplica (scheduled newId file dev) <|> attempt file c devices

/-- The loop over the files, which counts the rows. -/
def visitCounted (target : ℕ) (devices : List Device) (s : Cluster × ℕ) (file : FileEntry) :
    Cluster × ℕ :=
  if 1 < target ∧ 1 < devices.length ∧
      s.1.replicas.countP (fun r => r.fileId = file.id) < target then
    match s.1.attempt newId file devices with
    | some c => (c, s.2 + 1)
    | none => s
  else s

/-- `rebalance_cluster` -/
def rebalanceCluster (user : Uuid) (c : Cluster) : Cluster × RebalanceResponse :=
  let files := c.files user
  let devices := c.onlineDevices user
  let s := files.foldl (visitCounted newId (c.target user) devices) (c, 0)
  (s.1, ⟨s.2, files.length, "completed",
    s!"Cluster replicas reconciled across {devices.length} online hardware nodes " ++
      s!"({s.2} scheduled, {files.length} files verified)"⟩)

end Cluster

section Counting

variable {c : Cluster} {newId : Uuid → Uuid → Uuid} {user : Uuid} {file : FileEntry} {dev : Device}
  {devices : List Device} {rows : List Replica} {t : ℕ}

theorem protect_eq_attempt : ∀ devices : List Device,
    c.protect newId file devices = (c.attempt newId file devices).getD c
  | [] => rfl
  | dev :: devices => by
      rw [Cluster.protect, Cluster.attempt, protect_eq_attempt devices]
      rcases c.insertReplica (Cluster.scheduled newId file dev) with _ | c' <;> rfl

/-- The counting loop inserts what the loop inserts. -/
theorem visitCounted_fst (s : Cluster × ℕ) :
    (Cluster.visitCounted newId t devices s file).1 = s.1.visit newId t devices file := by
  rw [Cluster.visitCounted, Cluster.visit]
  split
  · rw [protect_eq_attempt]
    rcases s.1.attempt newId file devices with _ | c' <;> rfl
  · rfl

/-- **The call that counts is the call.** -/
theorem rebalanceCluster_fst : (c.rebalanceCluster newId user).1 = c.rebalance newId user :=
  (List.foldl_hom Prod.fst fun s _ => (visitCounted_fst s).symm).symm

end Counting

/-! ## The nodes of a file -/

/-- The node that a rebalance has for a device. -/
def Device.node (dev : Device) : String := "node_" ++ dev.id.text

namespace Cluster

variable (c : Cluster)

/-- The nodes of the rows of a file. -/
def holders (id : Uuid) : Finset String :=
  ((c.replicas.filter fun r => r.fileId = id).map Replica.storageNodeId).toFinset

def addReplicas (rows : List Replica) : Cluster := { c with replicas := c.replicas ++ rows }

/-- The device that a file gets a row for: the first one that it has none for, if it has too few. -/
def due (t : ℕ) (user : Uuid) (file : FileEntry) : List Device :=
  if 1 < t ∧ 1 < (c.onlineDevices user).length ∧ (c.holders file.id).card < t then
    ((c.onlineDevices user).filter fun dev => dev.node ∉ c.holders file.id).take 1
  else []

end Cluster

/-- The keys of the devices and of the replicas. -/
structure Keyed (c : Cluster) : Prop where
  devices : (c.devices.map Device.id).Nodup
  replicas : (c.replicas.map fun r => (r.fileId, r.storageNodeId)).Nodup

/-- The ids that a call makes are new, and differ. -/
structure Fresh (newId : Uuid → Uuid → Uuid) (c : Cluster) (user : Uuid) : Prop where
  unused : ∀ f ∈ c.files user, ∀ d ∈ c.onlineDevices user, ∀ r ∈ c.replicas,
    r.id ≠ "rep_" ++ (newId f.id d.id).text
  apart : ∀ f ∈ c.files user, ∀ d ∈ c.onlineDevices user, ∀ f' ∈ c.files user,
    ∀ d' ∈ c.onlineDevices user, newId f.id d.id = newId f'.id d'.id → f.id = f'.id

section Rows

variable {c : Cluster} {newId : Uuid → Uuid → Uuid} {user : Uuid} {file : FileEntry} {dev : Device}
  {devices : List Device} {rows : List Replica} {t : ℕ}

theorem id_of_node {d : Device} (h : dev.node = d.node) : dev.id = d.id :=
  Uuid.text_injective ((String.append_right_inj "node_").mp h)

theorem mem_holders {id : Uuid} {node : String} :
    node ∈ c.holders id ↔ ∃ r ∈ c.replicas, r.fileId = id ∧ r.storageNodeId = node := by
  simp [Cluster.holders, and_assoc]

/-- The rows of a file are for distinct nodes. -/
theorem Keyed.nodup_nodes (h : Keyed c) (id : Uuid) :
    ((c.replicas.filter fun r => r.fileId = id).map Replica.storageNodeId).Nodup := by
  have hkeys := List.pairwise_map.mp h.replicas
  refine List.pairwise_map.mpr ((hkeys.filter _).imp_of_mem fun {r r'} hr hr' hne heq => hne ?_)
  have hfile : r.fileId = id := of_decide_eq_true (List.mem_filter.mp hr).2
  have hfile' : r'.fileId = id := of_decide_eq_true (List.mem_filter.mp hr').2
  rw [hfile, hfile', heq]

theorem Keyed.card_holders (h : Keyed c) (id : Uuid) :
    (c.holders id).card = c.replicas.countP fun r => r.fileId = id := by
  rw [Cluster.holders, List.toFinset_card_of_nodup (h.nodup_nodes id), List.length_map,
    List.countP_eq_length_filter]

/-- Rows of other files do not count. -/
theorem countP_addReplicas (hrows : ∀ r ∈ rows, r.fileId ≠ file.id) :
    (c.addReplicas rows).replicas.countP (fun r => r.fileId = file.id) =
      c.replicas.countP fun r => r.fileId = file.id := by
  have hnone : rows.countP (fun r => r.fileId = file.id) = 0 := by
    rw [List.countP_eq_zero]
    intro r hr
    simpa using hrows r hr
  rw [Cluster.addReplicas, List.countP_append, hnone, Nat.add_zero]

/-- The rows are those that a call makes for other files. -/
def ForOthers (newId : Uuid → Uuid → Uuid) (c : Cluster) (user : Uuid) (file : FileEntry)
    (rows : List Replica) : Prop :=
  ∀ r ∈ rows, ∃ f ∈ c.files user, f.id ≠ file.id ∧
    ∃ d ∈ c.onlineDevices user, Cluster.scheduled newId f d = r

/-- **The table takes a row for a node that the file is not on.** -/
theorem insertReplica_scheduled (hfresh : Fresh newId c user) (hfile : file ∈ c.files user)
    (hdev : dev ∈ c.onlineDevices user) (hrows : ForOthers newId c user file rows) :
    (c.addReplicas rows).insertReplica (Cluster.scheduled newId file dev) =
      if dev.node ∈ c.holders file.id then none
      else some (c.addReplicas (rows ++ [Cluster.scheduled newId file dev])) := by
  have hid : ((c.addReplicas rows).replicas.all fun r =>
      r.id ≠ (Cluster.scheduled newId file dev).id) = true := by
    rw [List.all_eq_true]
    intro r hr
    refine decide_eq_true fun heq => ?_
    rcases List.mem_append.mp hr with hr | hr
    · exact hfresh.unused file hfile dev hdev r hr heq
    · obtain ⟨f, hf, hne, d, hd, rfl⟩ := hrows r hr
      have hsame := Uuid.text_injective ((String.append_right_inj "rep_").mp heq)
      exact hne (hfresh.apart f hf d hd file hfile dev hdev hsame)
  have hkey : ((c.addReplicas rows).replicas.all fun r =>
      !(r.fileId = (Cluster.scheduled newId file dev).fileId
        && r.storageNodeId = (Cluster.scheduled newId file dev).storageNodeId)) =
        decide (dev.node ∉ c.holders file.id) := by
    rw [Bool.eq_iff_iff, List.all_eq_true, decide_eq_true_eq, mem_holders]
    refine ⟨fun hall ⟨r, hr, hsame⟩ => ?_, fun hnone r hr => ?_⟩
    · simpa [hsame.1, hsame.2, Cluster.scheduled, Device.node] using
        hall r (List.mem_append_left _ hr)
    · rw [Bool.not_eq_true', Bool.and_eq_false_imp, decide_eq_true_eq, decide_eq_false_iff_not]
      intro hsame hnode
      rcases List.mem_append.mp hr with hr | hr
      · exact hnone ⟨r, hr, hsame, hnode⟩
      · obtain ⟨f, -, hne, d, -, rfl⟩ := hrows r hr
        exact hne hsame
  have hfound : ((c.addReplicas rows).world.entries.find?
      (Cluster.scheduled newId file dev).fileId).isSome = true :=
    Option.isSome_iff_exists.mpr ⟨file,
      FileTable.find?_eq_some.mpr ⟨List.mem_of_mem_filter hfile, rfl⟩⟩
  have howner : ((c.addReplicas rows).devices.any fun d =>
      d.id = (Cluster.scheduled newId file dev).deviceId) = true :=
    List.any_eq_true.mpr ⟨dev, List.mem_of_mem_filter hdev, decide_eq_true rfl⟩
  rw [Cluster.insertReplica, hid, hkey, hfound, howner]
  by_cases hmem : dev.node ∈ c.holders file.id
  · simp [hmem]
  · simp [hmem, Cluster.addReplicas]

/-- **The loop over the devices takes the first one that the file has no row for.** -/
theorem attempt_eq (hfresh : Fresh newId c user) (hfile : file ∈ c.files user)
    (hrows : ForOthers newId c user file rows) :
    ∀ devices : List Device, devices ⊆ c.onlineDevices user →
    (c.addReplicas rows).attempt newId file devices =
      ((devices.filter fun dev => dev.node ∉ c.holders file.id).head?).map fun dev =>
        c.addReplicas (rows ++ [Cluster.scheduled newId file dev])
  | [], _ => rfl
  | dev :: devices, hdevices => by
      rw [List.cons_subset] at hdevices
      rw [Cluster.attempt, insertReplica_scheduled hfresh hfile hdevices.1 hrows,
        attempt_eq hfresh hfile hrows devices hdevices.2]
      by_cases hmem : dev.node ∈ c.holders file.id
      · simp [hmem]
      · simp [hmem]

/-- One file gets the row that is due, and it is counted. -/
theorem visitCounted_eq (h : Keyed c) (hfresh : Fresh newId c user) (hfile : file ∈ c.files user)
    (hrows : ForOthers newId c user file rows) :
    Cluster.visitCounted newId t (c.onlineDevices user) (c.addReplicas rows, rows.length) file =
      (c.addReplicas (rows ++ (c.due t user file).map (Cluster.scheduled newId file)),
        (rows ++ (c.due t user file).map (Cluster.scheduled newId file)).length) := by
  have hothers : ∀ r ∈ rows, r.fileId ≠ file.id := by
    intro r hr
    obtain ⟨f, -, hne, d, -, rfl⟩ := hrows r hr
    exact hne
  rw [Cluster.visitCounted, Cluster.due]
  simp only [countP_addReplicas hothers, h.card_holders]
  split
  · rw [attempt_eq hfresh hfile hrows _ (List.Subset.refl _)]
    generalize (c.onlineDevices user).filter (fun dev => dev.node ∉ c.holders file.id) = missing
    rcases missing with _ | ⟨dev, rest⟩ <;> simp
  · simp

end Rows

/-! ## What a call inserts -/

/-- The rows of a call. -/
def Cluster.dueRows (c : Cluster) (newId : Uuid → Uuid → Uuid) (t : ℕ) (user : Uuid) :
    List Replica :=
  (c.files user).flatMap fun f => (c.due t user f).map (Cluster.scheduled newId f)

section Call

variable {c : Cluster} {newId : Uuid → Uuid → Uuid} {user : Uuid} {file : FileEntry} {dev : Device}
  {t : ℕ}

theorem nodup_files (c : Cluster) (user : Uuid) : ((c.files user).map FileEntry.id).Nodup :=
  c.world.entries.valid.pk.sublist (List.filter_sublist.map _)

/-- A device that is due is online, and the file has no row for it. -/
theorem mem_due (h : dev ∈ c.due t user file) :
    dev ∈ c.onlineDevices user ∧ dev.node ∉ c.holders file.id := by
  rw [Cluster.due] at h
  split at h
  · simpa using List.mem_of_mem_take h
  · exact absurd h List.not_mem_nil

/-- **A call inserts what is due, and counts it.** -/
theorem rebalanceCluster_eq (h : Keyed c) (hfresh : Fresh newId c user) :
    (c.rebalanceCluster newId user).1 = c.addReplicas (c.dueRows newId (c.target user) user) ∧
      (c.rebalanceCluster newId user).2.rebalancedCount =
        (c.dueRows newId (c.target user) user).length := by
  have hvisit : ∀ f ∈ c.files user, ∀ rows, DueElsewhere FileEntry.id
      (fun f => (c.due (c.target user) user f).map (Cluster.scheduled newId f)) (c.files user)
        [f.id] rows →
      Cluster.visitCounted newId (c.target user) (c.onlineDevices user)
          (c.addReplicas rows, rows.length) f =
        (fun rows => (c.addReplicas rows, rows.length))
          (rows ++ (c.due (c.target user) user f).map (Cluster.scheduled newId f)) := by
    refine fun f hf rows hrows => visitCounted_eq h hfresh hf fun r hr => ?_
    obtain ⟨f', hf', hne, hmem⟩ := hrows r hr
    obtain ⟨d, hd, rfl⟩ := List.mem_map.mp hmem
    exact ⟨f', hf', fun hid => hne (List.mem_singleton.mpr hid), d, (mem_due hd).1, rfl⟩
  have hloop := foldl_visits FileEntry.id _ (fun rows => (c.addReplicas rows, rows.length))
    (nodup_files c user) hvisit
  have hnil : c.addReplicas [] = c := by simp [Cluster.addReplicas]
  rw [hnil, List.length_nil] at hloop
  exact ⟨congrArg Prod.fst hloop, congrArg Prod.snd hloop⟩

theorem mem_dueRows {r : Replica} : r ∈ c.dueRows newId t user ↔
    ∃ f ∈ c.files user, ∃ d ∈ c.due t user f, Cluster.scheduled newId f d = r := by
  simp [Cluster.dueRows]

theorem Keyed.nodup_online (h : Keyed c) (user : Uuid) :
    ((c.onlineDevices user).map Device.node).Nodup :=
  List.pairwise_map.mpr <|
    (List.pairwise_map.mp (h.devices.sublist (List.filter_sublist.map _))).imp
      fun hne heq => hne (id_of_node heq)

/-- **The device that is due tops up the nodes of the file by one.** -/
theorem due_nodes : (c.due t user file).map Device.node =
    if 1 < t ∧ 1 < (c.onlineDevices user).length then
      topUp (min t ((c.holders file.id).card + 1)) (c.holders file.id)
        ((c.onlineDevices user).map Device.node)
    else [] := by
  rw [Cluster.due, topUp, List.filter_map, ← List.map_take]
  by_cases hmode : 1 < t ∧ 1 < (c.onlineDevices user).length
  · rw [if_pos hmode]
    by_cases hlt : (c.holders file.id).card < t
    · rw [if_pos ⟨hmode.1, hmode.2, hlt⟩,
        show min t ((c.holders file.id).card + 1) - (c.holders file.id).card = 1 by omega]
      rfl
    · rw [if_neg fun hall => hlt hall.2.2,
        show min t ((c.holders file.id).card + 1) - (c.holders file.id).card = 0 by omega]
      rfl
  · rw [if_neg hmode, if_neg fun hall => hmode ⟨hall.1, hall.2.1⟩, List.map_nil]

/-- A file is on the nodes that are due as well… -/
theorem holders_dueRows (hfile : file ∈ c.files user) :
    (c.addReplicas (c.dueRows newId t user)).holders file.id =
      c.holders file.id ∪ ((c.due t user file).map Device.node).toFinset := by
  ext node
  rw [Finset.mem_union, mem_holders, mem_holders, List.mem_toFinset]
  refine ⟨?_, ?_⟩
  · rintro ⟨r, hr, hid, rfl⟩
    rcases List.mem_append.mp hr with hr | hr
    · exact .inl ⟨r, hr, hid, rfl⟩
    · obtain ⟨f, hf, d, hd, rfl⟩ := mem_dueRows.mp hr
      obtain rfl : f = file := List.inj_on_of_nodup_map (nodup_files c user) hf hfile hid
      exact .inr (List.mem_map_of_mem hd)
  · rintro (⟨r, hr, hrest⟩ | hmem)
    · exact ⟨r, List.mem_append_left _ hr, hrest⟩
    · obtain ⟨d, hd, rfl⟩ := List.mem_map.mp hmem
      exact ⟨Cluster.scheduled newId file d,
        List.mem_append_right _ (mem_dueRows.mpr ⟨file, hfile, d, hd, rfl⟩), rfl, rfl⟩

/-- …and other files are where they were. -/
theorem holders_dueRows_of_not_mem {id : Uuid} (hid : id ∉ (c.files user).map FileEntry.id) :
    (c.addReplicas (c.dueRows newId t user)).holders id = c.holders id := by
  ext node
  rw [mem_holders, mem_holders]
  refine ⟨?_, fun ⟨r, hr, hrest⟩ => ⟨r, List.mem_append_left _ hr, hrest⟩⟩
  rintro ⟨r, hr, rfl, rfl⟩
  rcases List.mem_append.mp hr with hr | hr
  · exact ⟨r, hr, rfl, rfl⟩
  · obtain ⟨f, hf, d, -, rfl⟩ := mem_dueRows.mp hr
    exact absurd (List.mem_map_of_mem hf) hid

/-- **The rows stay apart.** -/
theorem Keyed.of_dueRows (h : Keyed c) (newId : Uuid → Uuid → Uuid) (t : ℕ) (user : Uuid) :
    Keyed (c.addReplicas (c.dueRows newId t user)) := by
  refine ⟨h.devices, nodup_visits FileEntry.id _ _ h.replicas (nodup_files c user) (fun f _ => ?_)
    (fun f _ r hr => ?_) fun f _ r hr r' hr' heq => ?_⟩
  · have hsub : ((c.due t user f).map Device.node).Sublist
        ((c.onlineDevices user).map Device.node) := by
      rw [Cluster.due]
      split
      · exact ((List.take_sublist ..).trans List.filter_sublist).map _
      · exact List.nil_sublist _
    have hpair := ((h.nodup_online user).sublist hsub).map (f := fun node => (f.id, node))
      fun _ _ heq => (Prod.mk.inj heq).2
    rwa [List.map_map] at hpair ⊢
  · obtain ⟨d, -, rfl⟩ := List.mem_map.mp hr
    rfl
  · obtain ⟨d, hd, rfl⟩ := List.mem_map.mp hr
    obtain ⟨hfile, hnode⟩ := Prod.mk.inj heq
    exact (mem_due hd).2 (mem_holders.mpr ⟨r', hr', hfile, hnode⟩)

end Call

/-! ## How far a call goes -/

/-- A file lacks no second row: one more is what the mode asks for, or all that there is a device
for. -/
def Cluster.LacksOne (c : Cluster) (user : Uuid) (file : FileEntry) : Prop :=
  c.target user ≤ (c.holders file.id).card + 1 ∨
    ((c.onlineDevices user).filter fun dev => dev.node ∉ c.holders file.id).length ≤ 1

def Cluster.rowCount (c : Cluster) (id : Uuid) : ℕ := c.replicas.countP fun r => r.fileId = id

/-- **What one call does to the rows of files.** -/
structure Advances (user : Uuid) (c c' : Cluster) : Prop where
  kept : ∀ id, c.holders id ⊆ c'.holders id
  apart : ∀ id, ((c'.replicas.filter fun r => r.fileId = id).map Replica.storageNodeId).Nodup
  bounded : ∀ id, c'.rowCount id ≤ max (c.rowCount id) (c.target user)
  reached : 1 < c.target user → ∀ f ∈ c.files user, c.LacksOne user f →
    min (c.target user) (c.onlineDevices user).length ≤ c'.rowCount f.id

section Advances

variable {c : Cluster} {newId : Uuid → Uuid → Uuid} {user : Uuid} {file : FileEntry}

theorem lacksOne_iff : c.LacksOne user file ↔
    c.target user ≤ (c.holders file.id).card + 1 ∨
      (((c.onlineDevices user).map Device.node).filter fun n => n ∉ c.holders file.id).length
        ≤ 1 := by
  rw [List.filter_map, List.length_map]
  rfl

/-- **A file that lacks no second row is topped up.** -/
theorem due_of_lacksOne (ht : 1 < c.target user) (honline : 1 < (c.onlineDevices user).length)
    (hlack : c.LacksOne user file) :
    (c.due (c.target user) user file).map Device.node =
      topUp (c.target user) (c.holders file.id) ((c.onlineDevices user).map Device.node) := by
  rw [due_nodes, if_pos ⟨ht, honline⟩, topUp_succ (lacksOne_iff.mp hlack)]

theorem Keyed.advances (h : Keyed c) (honline : 1 < (c.onlineDevices user).length) :
    Advances user c (c.addReplicas (c.dueRows newId (c.target user) user)) := by
  have hafter := h.of_dueRows newId (c.target user) user
  refine ⟨fun id => ?_, hafter.nodup_nodes, fun id => ?_, fun ht f hf hlack => ?_⟩
  · by_cases hid : id ∈ (c.files user).map FileEntry.id
    · obtain ⟨f, hf, rfl⟩ := List.mem_map.mp hid
      rw [holders_dueRows hf]
      exact Finset.subset_union_left
    · rw [holders_dueRows_of_not_mem hid]
  · rw [Cluster.rowCount, Cluster.rowCount, ← hafter.card_holders, ← h.card_holders]
    by_cases hid : id ∈ (c.files user).map FileEntry.id
    · obtain ⟨f, hf, rfl⟩ := List.mem_map.mp hid
      rw [holders_dueRows hf, due_nodes]
      split
      · rw [card_union_topUp (h.nodup_online user)]
        omega
      · simp
    · rw [holders_dueRows_of_not_mem hid]
      exact le_max_left _ _
  · rw [Cluster.rowCount, ← hafter.card_holders, holders_dueRows hf,
      due_of_lacksOne ht honline hlack, card_union_topUp (h.nodup_online user)]
    have hdevices : (c.onlineDevices user).length ≤
        (c.holders f.id ∪ ((c.onlineDevices user).map Device.node).toFinset).card := by
      rw [← List.length_map Device.node, ← List.toFinset_card_of_nodup (h.nodup_online user)]
      exact Finset.card_le_card Finset.subset_union_right
    omega

/-- **Where no file lacks a second row, nothing is due after a call.** -/
theorem Keyed.dueRows_dueRows (h : Keyed c) (newId' : Uuid → Uuid → Uuid)
    (hlack : 1 < c.target user → ∀ f ∈ c.files user, c.LacksOne user f) :
    (c.addReplicas (c.dueRows newId (c.target user) user)).dueRows newId' (c.target user) user
      = [] := by
  refine List.flatMap_eq_nil_iff.mpr fun f hf => ?_
  have hnone : ((c.addReplicas (c.dueRows newId (c.target user) user)).due (c.target user) user
      f).map Device.node = [] := by
    rw [due_nodes]
    split
    case isFalse => rfl
    case isTrue hmode =>
      have htopped := topUp_topUp (t := c.target user) (c.holders f.id) (h.nodup_online user)
      rw [holders_dueRows (show f ∈ c.files user from hf),
        due_of_lacksOne hmode.1 hmode.2 (hlack hmode.1 f hf), topUp_eq_nil_iff]
      exact (topUp_eq_nil_iff.mp htopped).imp_left fun hle => (min_le_left _ _).trans hle
  rw [List.map_eq_nil_iff.mp hnone, List.map_nil]

/-- In single-device mode nothing is due. -/
theorem dueRows_single (h : c.target user = 1) : c.dueRows newId (c.target user) user = [] := by
  refine List.flatMap_eq_nil_iff.mpr fun f _ => ?_
  rw [Cluster.due, if_neg fun hall => absurd hall.1 (by omega), List.map_nil]

end Advances

/-- **How far one call goes**: no file gets more rows than the mode asks for, and one that lacks no
second row gets as many as that, or as there are devices online.  Where no file lacks a second one,
the next call counts none.  In single-device mode nothing is inserted. -/
theorem rebalanceCluster_limited (c : Cluster) (h : Keyed c) (newId : Uuid → Uuid → Uuid)
    (user : Uuid) (hfresh : Fresh newId c user) (honline : 1 < (c.onlineDevices user).length) :
    let after := c.rebalanceCluster newId user
    Advances user c after.1 ∧
      (c.target user = 1 → after.1 = c ∧ after.2.rebalancedCount = 0) ∧
      ((1 < c.target user → ∀ f ∈ c.files user, c.LacksOne user f) →
        ∀ newId', Fresh newId' after.1 user →
          (after.1.rebalanceCluster newId' user).2.rebalancedCount = 0) := by
  obtain ⟨hcluster, hcount⟩ := rebalanceCluster_eq h hfresh
  refine ⟨hcluster ▸ h.advances honline, fun hsingle => ?_, fun hlack newId' hfresh' => ?_⟩
  · rw [hcluster, hcount, dueRows_single hsingle]
    exact ⟨by simp [Cluster.addReplicas], rfl⟩
  · have hagain := (rebalanceCluster_eq (hcluster ▸ h.of_dueRows _ _ _) hfresh').2
    rw [hagain, hcluster]
    exact congrArg List.length (h.dueRows_dueRows newId' hlack)

namespace Sample

open Pcos.Sample

/-- A file of Alice's, two devices that are online, and the rows that there are. -/
def twoDevices (mode : String) (rows : List Replica) : Cluster where
  world := step env start (sent alice 0 id1 (.uploadFile none "f" "text/plain" [0x61]))
  devices := [⟨id2, alice, true⟩, ⟨id3, alice, true⟩]
  modes _ := some mode
  replicas := rows
  written := []

/-- The row of the first device. -/
def firstRow : Replica :=
  ⟨"rep_" ++ id2.text, id1, "node_" ++ id2.text, id2, "synced", knownSha256 [0x61]⟩

def single : Cluster := twoDevices "single_device" []

/-- Two nodes are asked for, and there is one. -/
def halfway : Cluster := twoDevices "two_node_protection" [firstRow]

end Sample

open Pcos.Sample Sample in
/-- The second row is inserted, and then nothing. -/
theorem rebalanceCluster_limited_halfway :
    halfway.files alice ≠ [] ∧ (∀ f ∈ halfway.files alice, halfway.rowCount f.id = 1 ∧
      2 ≤ (halfway.rebalanceCluster (fun _ _ => id1) alice).1.rowCount f.id) ∧
      ((halfway.rebalanceCluster (fun _ _ => id1) alice).1.rebalanceCluster (fun _ _ => bob)
        alice).2.rebalancedCount = 0 := by
  have hfresh : Fresh (fun _ _ => id1) halfway alice := ⟨by decide, by decide⟩
  have hafter : Fresh (fun _ _ => bob) (halfway.rebalanceCluster (fun _ _ => id1) alice).1 alice :=
    ⟨by decide, by decide⟩
  have hfiles : ∀ f ∈ halfway.files alice, halfway.rowCount f.id = 1 ∧
      halfway.target alice ≤ (halfway.holders f.id).card + 1 := by decide
  obtain ⟨hadvances, -, hnext⟩ := rebalanceCluster_limited halfway ⟨by decide, by decide⟩
    (fun _ _ => id1) alice hfresh (by decide)
  exact ⟨by decide, fun f hf => ⟨(hfiles f hf).1,
      hadvances.reached (by decide) f hf (.inl (hfiles f hf).2)⟩,
    hnext (fun _ f hf => .inl (hfiles f hf).2) (fun _ _ => bob) hafter⟩

open Pcos.Sample Sample in
/-- **In single-device mode no row is inserted**, although one is asked for. -/
theorem not_reaches_single : ¬ ∀ (c : Cluster) (newId : Uuid → Uuid → Uuid) (user : Uuid),
    Keyed c → Fresh newId c user → 1 < (c.onlineDevices user).length → ∀ f ∈ c.files user,
      min (c.target user) (c.onlineDevices user).length ≤
        (c.rebalanceCluster newId user).1.rowCount f.id := by
  intro h
  have hfiles := h single (fun _ dev => dev) alice ⟨by decide, by decide⟩
    ⟨by decide, by decide⟩ (by decide)
  have hfail : ¬ ∀ f ∈ single.files alice,
      min (single.target alice) (single.onlineDevices alice).length ≤
        (single.rebalanceCluster (fun _ dev => dev) alice).1.rowCount f.id := by decide
  exact hfail hfiles

end Pcos.Replicas
