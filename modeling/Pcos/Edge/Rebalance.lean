import Pcos.Edge.Replicas

/-!
# Edge/Rebalance — the nodes that a file is reported on (`cluster/rebalance`)

A rebalance collects the nodes of a file, its own one and those of its rows, online or not.  It goes
through the nodes that are online, and inserts a row for each that is missing, until there are as
many as the mode asks for.  So **every live file is topped up to its target, as far as the nodes go,
and a second call finds nothing to insert** (`rebalance_topsUp`).

It relies on the keys of the tables (`Schema`), which every step keeps (`Schema.step`).
-/

namespace Pcos.Edge.Files

open Foundations Accounts

variable {κ : Type}

/-! ## The keys -/

/-- The keys of the nodes, the files and the replicas, and the foreign keys to nodes and devices.
No id of a node is empty. -/
structure Schema (c : Cluster κ) : Prop where
  nodes : (c.store.nodes.map StorageNode.id).Nodup
  files : (c.store.files.map FileEntry.id).Nodup
  replicas : (c.replicas.map fun r => (r.fileId, r.storageNodeId)).Nodup
  hosts : ∀ r ∈ c.replicas, r.storageNodeId ∈ c.store.nodes.map StorageNode.id
  owners : ∀ n ∈ c.store.nodes, c.devices.any (fun d => d.id = n.deviceId) = true
  named : ∀ n ∈ c.store.nodes, n.id ≠ ""

/-! ## The nodes of a file -/

namespace Cluster

variable (c : Cluster κ)

/-- The nodes that a file is on: its own, if it has one, and those of its rows. -/
def holders (f : FileEntry) : Finset String :=
  ((truthy f.storageNodeId).toList ++
    (c.replicas.filter fun r => r.fileId = f.id).map Replica.storageNodeId).toFinset

/-- The nodes of a user that are online. -/
def onlineIds (user : String) : Finset String := ((c.onlineNodes user).map StorageNode.id).toFinset

end Cluster

/-- What a rebalance with the target `t` does to the nodes of a file, when `O` are online. -/
structure ToppedUp (t : ℕ) (O S S' : Finset String) : Prop where
  kept : S ⊆ S'
  within : S' ⊆ S ∪ O
  card : 1 < t → 1 < O.card → S'.card = max S.card (min t (S ∪ O).card)
  idle : ¬ (1 < t ∧ 1 < O.card) → S' = S

section Rebalance

variable {c : Cluster κ} {user : String} {f : FileEntry} {n : StorageNode} {rows : List Replica}
  {t : ℕ}

theorem mem_holders {id : String} : id ∈ c.holders f ↔
    truthy f.storageNodeId = some id ∨
      ∃ r ∈ c.replicas, r.fileId = f.id ∧ r.storageNodeId = id := by
  simp [Cluster.holders, and_assoc]

theorem truthy_some {text : String} (h : text ≠ "") : truthy (some text) = some text := by
  simp [truthy, h]

/-- The set that is collected is that of the nodes of the file. -/
theorem Schema.existingNodeIds_toFinset (h : Schema c) :
    (c.existingNodeIds f).toFinset = c.holders f := by
  ext id
  rw [List.mem_toFinset, Cluster.existingNodeIds, List.mem_dedup, List.mem_append, mem_holders,
    Option.mem_toList, List.mem_filterMap]
  refine or_congr_right ⟨?_, ?_⟩
  · rintro ⟨r, hr, hid⟩
    obtain ⟨hr, hfile⟩ := List.mem_filter.mp hr
    exact ⟨r, hr, of_decide_eq_true hfile, (Option.filter_eq_some_iff.mp hid).1 |> Option.some.inj⟩
  · rintro ⟨r, hr, hfile, rfl⟩
    obtain ⟨n, hn, hid⟩ := List.mem_map.mp (h.hosts r hr)
    exact ⟨r, List.mem_filter.mpr ⟨hr, decide_eq_true hfile⟩,
      truthy_some (hid ▸ h.named n hn)⟩

theorem Schema.length_existingNodeIds (h : Schema c) :
    (c.existingNodeIds f).length = (c.holders f).card := by
  have hnodup : (c.existingNodeIds f).Nodup := List.nodup_dedup _
  rw [← h.existingNodeIds_toFinset, List.toFinset_card_of_nodup hnodup]

theorem Schema.mem_existingNodeIds (h : Schema c) {id : String} :
    id ∈ c.existingNodeIds f ↔ id ∈ c.holders f := by
  rw [← h.existingNodeIds_toFinset, List.mem_toFinset]

theorem mem_onlineNodes (h : n ∈ c.onlineNodes user) : n ∈ c.store.nodes :=
  List.mem_of_mem_filter h

theorem Schema.nodup_online (h : Schema c) : ((c.onlineNodes user).map StorageNode.id).Nodup :=
  h.nodes.sublist (List.filter_sublist.map _)

theorem Schema.card_onlineIds (h : Schema c) :
    (c.onlineIds user).card = (c.onlineNodes user).length := by
  rw [Cluster.onlineIds, List.toFinset_card_of_nodup h.nodup_online, List.length_map]

/-- **The table takes a row for a node that the file is not on.** -/
theorem Schema.accepts_scheduled (h : Schema c) (hf : f ∈ c.files user)
    (hn : n ∈ c.onlineNodes user) (hnew : n.id ∉ c.holders f) :
    c.accepts (Cluster.scheduled f n) = true := by
  have hrow : (c.replicas.any fun r => r.fileId = (Cluster.scheduled f n).fileId
      && r.storageNodeId = (Cluster.scheduled f n).storageNodeId) = false := by
    rw [List.any_eq_false]
    intro r hr hsame
    obtain ⟨hfile, hnode⟩ := Bool.and_eq_true_iff.mp hsame
    exact hnew (mem_holders.mpr
      (.inr ⟨r, hr, of_decide_eq_true hfile, of_decide_eq_true hnode⟩))
  have hfile : (c.file (Cluster.scheduled f n).fileId).isSome = true :=
    List.find?_isSome.mpr ⟨f, List.mem_of_mem_filter hf, decide_eq_true rfl⟩
  have hnode : (c.store.nodes.any fun m => m.id = (Cluster.scheduled f n).storageNodeId) = true :=
    List.any_eq_true.mpr ⟨n, mem_onlineNodes hn, decide_eq_true rfl⟩
  have howner : (c.devices.any fun d => d.id = (Cluster.scheduled f n).deviceId) = true :=
    h.owners n (mem_onlineNodes hn)
  rw [Cluster.accepts, hrow, hfile, hnode, howner]
  rfl

/-- **The nodes that are due top up those of the file.** -/
theorem Schema.dueFor_ids (h : Schema c) (hf : f ∈ c.files user) :
    (c.dueFor t user f).map StorageNode.id =
      if 1 < t ∧ 1 < (c.onlineIds user).card then
        topUp t (c.holders f) ((c.onlineNodes user).map StorageNode.id)
      else [] := by
  rw [Cluster.dueFor, h.card_onlineIds]
  split
  · have hfilter : ((c.onlineNodes user).filter fun n =>
        n.id ∉ c.existingNodeIds f ∧ c.accepts (Cluster.scheduled f n)) =
          (c.onlineNodes user).filter fun n => n.id ∉ c.holders f := by
      refine List.filter_congr fun n hn => decide_eq_decide.mpr ?_
      rw [h.mem_existingNodeIds]
      exact and_iff_left_of_imp (h.accepts_scheduled hf hn)
    rw [hfilter, h.length_existingNodeIds, topUp, List.map_take, List.filter_map]
    rfl
  · rfl

/-- The rows of a rebalance. -/
def Cluster.dueRows (c : Cluster κ) (t : ℕ) (user : String) : List Replica :=
  (c.files user).flatMap fun f => (c.dueFor t user f).map (Cluster.scheduled f)

theorem Schema.rebalanceTo (h : Schema c) :
    c.rebalanceTo t user = c.addReplicas (c.dueRows t user) :=
  rebalanceTo_eq h.nodes h.files

theorem mem_dueRows {r : Replica} : r ∈ c.dueRows t user ↔
    ∃ f ∈ c.files user, ∃ n ∈ c.dueFor t user f, Cluster.scheduled f n = r := by
  simp [Cluster.dueRows]

theorem Schema.nodup_files (h : Schema c) : ((c.files user).map FileEntry.id).Nodup :=
  h.files.sublist (List.filter_sublist.map _)

/-- A file is on the nodes that are due as well. -/
theorem Schema.holders_rebalanceTo (h : Schema c) (hf : f ∈ c.files user) :
    (c.rebalanceTo t user).holders f =
      c.holders f ∪ ((c.dueFor t user f).map StorageNode.id).toFinset := by
  ext id
  rw [h.rebalanceTo, Finset.mem_union, mem_holders, mem_holders, List.mem_toFinset, or_assoc]
  refine or_congr_right ⟨?_, ?_⟩
  · rintro ⟨r, hr, hfile, rfl⟩
    rcases List.mem_append.mp hr with hr | hr
    · exact .inl ⟨r, hr, hfile, rfl⟩
    · obtain ⟨f', hf', n, hn, rfl⟩ := mem_dueRows.mp hr
      obtain rfl : f' = f := List.inj_on_of_nodup_map h.nodup_files hf' hf hfile
      exact .inr (List.mem_map_of_mem hn)
  · rintro (⟨r, hr, hrest⟩ | hmem)
    · exact ⟨r, List.mem_append_left _ hr, hrest⟩
    · obtain ⟨n, hn, rfl⟩ := List.mem_map.mp hmem
      exact ⟨Cluster.scheduled f n,
        List.mem_append_right _ (mem_dueRows.mpr ⟨f, hf, n, hn, rfl⟩), rfl, rfl⟩

/-- **What one rebalance does to the nodes of a file.** -/
theorem Schema.toppedUp (h : Schema c) (hf : f ∈ c.files user) :
    ToppedUp t (c.onlineIds user) (c.holders f) ((c.rebalanceTo t user).holders f) := by
  rw [h.holders_rebalanceTo hf, h.dueFor_ids hf]
  split
  case isTrue hactive =>
    refine ⟨Finset.subset_union_left, Finset.union_subset_union_right fun n hn => ?_,
      fun _ _ => card_union_topUp h.nodup_online, fun hidle => absurd hactive hidle⟩
    exact List.mem_toFinset.mpr (mem_of_mem_topUp (List.mem_toFinset.mp hn)).1
  case isFalse hidle =>
    simp only [List.toFinset_nil, Finset.union_empty]
    exact ⟨Finset.Subset.refl _, Finset.subset_union_left,
      fun ht hO => absurd ⟨ht, hO⟩ hidle, fun _ => rfl⟩

/-! ## What a rebalance leaves -/

/-- The key of a row. -/
def Replica.key (r : Replica) : String × String := (r.fileId, r.storageNodeId)

theorem Schema.nodup_dueFor (h : Schema c) (hf : f ∈ c.files user) :
    ((c.dueFor t user f).map StorageNode.id).Nodup := by
  rw [h.dueFor_ids hf]
  split
  · exact nodup_topUp h.nodup_online
  · exact List.nodup_nil

/-- A node that is due is online, and the file is not on it. -/
theorem Schema.mem_dueFor (h : Schema c) (hf : f ∈ c.files user) (hn : n ∈ c.dueFor t user f) :
    n ∈ c.store.nodes ∧ n.id ∉ c.holders f := by
  have hid : n.id ∈ (c.dueFor t user f).map StorageNode.id := List.mem_map_of_mem hn
  rw [h.dueFor_ids hf] at hid
  rw [Cluster.dueFor] at hn
  split at hid
  case isTrue hactive =>
    rw [if_pos (h.card_onlineIds ▸ hactive)] at hn
    exact ⟨mem_onlineNodes (List.mem_of_mem_filter (List.mem_of_mem_take hn)),
      (mem_of_mem_topUp hid).2⟩
  case isFalse => exact absurd hid List.not_mem_nil

/-- **No two of the rows are for one file and one node**, and none of them is there already. -/
theorem Schema.nodup_keys (h : Schema c) :
    ((c.replicas ++ c.dueRows t user).map Replica.key).Nodup := by
  refine nodup_visits FileEntry.id _ Replica.key h.replicas h.nodup_files (fun f hf => ?_)
    (fun f _ r hr => ?_) fun f hf r hr r' hr' heq => ?_
  · have hpair := (h.nodup_dueFor (t := t) hf).map (f := fun id => (f.id, id))
      fun _ _ heq => (Prod.mk.inj heq).2
    rwa [List.map_map] at hpair ⊢
  · obtain ⟨n, -, rfl⟩ := List.mem_map.mp hr
    rfl
  · obtain ⟨n, hn, rfl⟩ := List.mem_map.mp hr
    obtain ⟨hfile, hnode⟩ := Prod.mk.inj heq
    exact (h.mem_dueFor hf hn).2 (mem_holders.mpr (.inr ⟨r', hr', hfile, hnode⟩))

theorem Schema.of_rebalanceTo (h : Schema c) : Schema (c.rebalanceTo t user) := by
  rw [h.rebalanceTo]
  refine ⟨h.nodes, h.files, h.nodup_keys, fun r hr => ?_, h.owners, h.named⟩
  rcases List.mem_append.mp hr with hr | hr
  · exact h.hosts r hr
  · obtain ⟨f, hf, n, hn, rfl⟩ := mem_dueRows.mp hr
    exact List.mem_map_of_mem (h.mem_dueFor hf hn).1

/-- **A second call finds nothing to insert.** -/
theorem Schema.rebalanceTo_rebalanceTo (h : Schema c) :
    (c.rebalanceTo t user).rebalanceTo t user = c.rebalanceTo t user := by
  have hfiles : (c.rebalanceTo t user).files user = c.files user := by rw [h.rebalanceTo]; rfl
  have honline : (c.rebalanceTo t user).onlineNodes user = c.onlineNodes user := by
    rw [h.rebalanceTo]; rfl
  have hnone : (c.rebalanceTo t user).dueRows t user = [] := by
    rw [Cluster.dueRows, hfiles, List.flatMap_eq_nil_iff]
    intro f hf
    have hids := h.of_rebalanceTo.dueFor_ids (t := t) (hfiles.symm ▸ hf)
    rw [h.holders_rebalanceTo hf, h.dueFor_ids hf, Cluster.onlineIds, honline,
      ← Cluster.onlineIds] at hids
    have hnil : ((c.rebalanceTo t user).dueFor t user f).map StorageNode.id = [] := by
      rw [hids]
      split
      · exact topUp_topUp _ h.nodup_online
      · rfl
    rw [List.map_eq_nil_iff.mp hnil, List.map_nil]
  rw [h.of_rebalanceTo.rebalanceTo, hnone]
  simp [Cluster.addReplicas]

end Rebalance

/-! ## Runs -/

section Steps

variable {d : Deployment} {p : Platform} {locate : Locate κ} {c : Cluster κ}

/-- The id made for a node is not empty. -/
def NamesNodes : ClusterEvent → Prop
  | .advertises _ _ nodeId _ => nodeId ≠ ""
  | _ => True

/-- The rest of the cluster is free. -/
theorem Schema.frame {c' : Cluster κ} (h : Schema c) (hstore : c'.store = c.store)
    (hdevices : c'.devices = c.devices) (hreplicas : c'.replicas = c.replicas) : Schema c' where
  nodes := hstore ▸ h.nodes
  files := hstore ▸ h.files
  replicas := hreplicas ▸ h.replicas
  hosts := hstore ▸ hreplicas ▸ h.hosts
  owners := hstore ▸ hdevices ▸ h.owners
  named := hstore ▸ h.named

theorem Schema.grown {key : String} {s' : Store} (h : Schema c) (hgrown : Grown key c.store s') :
    Schema { c with store := s' } where
  nodes := hgrown.nodes ▸ h.nodes
  files := hgrown.nodup_files h.files
  replicas := h.replicas
  hosts := hgrown.nodes ▸ h.hosts
  owners := hgrown.nodes ▸ h.owners
  named := hgrown.nodes ▸ h.named

theorem Schema.updateFile (h : Schema c) (id : String) (assign : FileEntry → FileEntry)
    (hassign : ∀ f, (assign f).id = f.id) : Schema (c.updateFile id assign) :=
  ⟨h.nodes, (ids_updateFile hassign).symm ▸ h.files, h.replicas, h.hosts, h.owners, h.named⟩

/-- Rows of nodes go with the replicas on them. -/
theorem Schema.without {nodes : StorageNode → Bool} {devices : String → Bool} (h : Schema c) :
    Schema (c.without nodes devices) where
  nodes := h.nodes.sublist (List.filter_sublist.map _)
  files := h.files
  replicas := h.replicas.sublist (List.filter_sublist.map _)
  hosts r hr := by
    obtain ⟨hr, hstays⟩ := List.mem_filter.mp hr
    obtain ⟨n, hn, hid⟩ := List.mem_map.mp (h.hosts r hr)
    refine List.mem_map.mpr ⟨n, List.mem_filter.mpr ⟨hn, ?_⟩, hid⟩
    simp only [Cluster.Stays, Bool.not_eq_true', Bool.or_eq_false_iff, List.any_eq_false] at hstays
    simpa [hid] using hstays.2 n hn
  owners n hn := h.owners n (List.mem_of_mem_filter hn)
  named n hn := h.named n (List.mem_of_mem_filter hn)

theorem Schema.removeDevice {userId deviceId : String} (h : Schema c) :
    Schema (c.removeDevice userId deviceId) := by
  have hrest : Schema (c.without (c.nodesOf userId deviceId)
    fun id => id = deviceId && c.owns userId deviceId) := h.without
  refine ⟨hrest.nodes, hrest.files, hrest.replicas, hrest.hosts, fun n hn => ?_, hrest.named⟩
  obtain ⟨hn, hstays⟩ := List.mem_filter.mp hn
  obtain ⟨device, hdevice, hid⟩ := List.any_eq_true.mp (h.owners n hn)
  refine List.any_eq_true.mpr ⟨device, List.mem_filter.mpr ⟨hdevice, ?_⟩, hid⟩
  rw [Bool.not_eq_true', Bool.and_eq_false_imp, decide_eq_true_eq, decide_eq_false_iff_not]
  rintro rfl huser
  -- a device that is removed takes its nodes along
  have howns : c.owns userId device.id = true :=
    List.any_eq_true.mpr ⟨device, hdevice, by simp [huser]⟩
  simp [Cluster.nodesOf, ← of_decide_eq_true hid, howns] at hstays

theorem owner_of_owns {userId deviceId : String} (h : c.owns userId deviceId = true) :
    c.devices.any (fun d => d.id = deviceId) = true := by
  obtain ⟨device, hdevice, hid⟩ := List.any_eq_true.mp h
  exact List.any_eq_true.mpr ⟨device, hdevice, (Bool.and_eq_true_iff.mp hid).1⟩

theorem Schema.advertise {userId deviceId nodeId mountPoint : String} (h : Schema c)
    (hid : nodeId ≠ "") : Schema (c.advertise userId deviceId nodeId mountPoint) := by
  unfold Cluster.advertise
  split
  case isTrue => exact h
  case isFalse howns =>
    have howns : c.owns userId deviceId = true := by simpa using howns
    split
    case h_1 => exact h.frame rfl rfl rfl
    case h_2 =>
      split
      case isTrue => exact h
      case isFalse hnew =>
        refine ⟨nodup_addNode h.nodes hnew, h.files, h.replicas, fun r hr => ?_, fun n hn => ?_,
          fun n hn => ?_⟩
        · exact List.map_subset _ (List.subset_append_left _ _) (h.hosts r hr)
        · rcases List.mem_append.mp hn with hn | hn
          · exact h.owners n hn
          · obtain rfl := List.mem_singleton.mp hn
            exact owner_of_owns howns
        · rcases List.mem_append.mp hn with hn | hn
          · exact h.named n hn
          · obtain rfl := List.mem_singleton.mp hn
            exact hid

theorem Schema.step [DecidableEq κ] {e : ClusterEvent} (h : Schema c) (he : NamesNodes e) :
    Schema (clusterStep d p locate c e) := by
  cases e with
  | upload user call form => exact h.grown grown_uploadFile
  | uploadShare call r form => exact h.grown (grown_uploadShare : Grown "" _ _)
  | initResumable user call body => exact h.grown (grown_initResumable : Grown "" _ _)
  | chunk user transferId offset dataBase64 now =>
    simp only [clusterStep, Cluster.chunk]
    split
    · exact (h.updateFile transferId (fun f => { f with updatedAt := now }) fun _ => rfl).frame
        rfl rfl rfl
    · exact h
  | fsWrite user nodeId path offset dataBase64 =>
    simp only [clusterStep, Cluster.fsWrite]
    split
    · exact h.frame rfl rfl rfl
    · exact h
  | performs command fate =>
    simp only [clusterStep]
    split
    · unfold Cluster.perform
      split
      · exact h.frame rfl rfl rfl
      · exact h
    · exact h
  | finalize user transferId sha256Hash now =>
    simp only [clusterStep, Cluster.finalize]
    split
    · exact h.updateFile transferId _ fun _ => rfl
    · exact h
  | registers device =>
    simp only [clusterStep]
    split
    · exact h
    · refine ⟨h.nodes, h.files, h.replicas, h.hosts, fun n hn => ?_, h.named⟩
      exact Bool.or_eq_true_iff.mpr (.inr (h.owners n hn))
  | removesDevice userId deviceId => exact h.removeDevice
  | removesNode userId nodeId => exact h.without
  | advertises userId deviceId nodeId mountPoint => exact h.advertise he
  | heartbeat userId deviceId =>
    simp only [clusterStep, Cluster.heartbeat]
    split
    · exact h.frame rfl rfl rfl
    · exact h
  | updateMode user mode => exact h.frame rfl rfl rfl
  | rebalance user => exact h.of_rebalanceTo

/-- **The keys hold in every state that is reached from one where they do.** -/
theorem Schema.of_run [DecidableEq κ] {es : List ClusterEvent} (h : Schema c)
    (hrun : Along (fun _ => NamesNodes) (clusterStep d p locate) c es) :
    Schema (run (clusterStep d p locate) c es) :=
  hrun.invariant (fun _ _ hs he => hs.step he) h

end Steps

namespace TwoNodes

/-- Alice's nodes, and a file that is in the database. -/
def uploadedFile : Cluster (String × String × String) :=
  run (clusterStep deployment platform locate) start (uploaded.take 1)

theorem schema_uploadedFile : Schema uploadedFile :=
  (⟨by decide, by decide, by decide, by decide, by decide, by decide⟩ : Schema start).of_run
    ⟨trivial, trivial⟩

end TwoNodes

end Pcos.Edge.Files
