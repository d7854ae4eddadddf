import Pcos.Backend.System
import Pcos.Foundations.Replication

/-!
# Backend/Replicas — the copies that the backend reports (`gateway/src/cluster.rs`)

`rebalance_cluster` inserts a row for each file that has too few of them; the row says that the node
of an online device has the file.  No request sends a file to a device: the storage engine writes
below its own base path only.  So the rows are true as long as there are none: `rebalance_nothing`
says when none is inserted, and `not_exist_rebalance` what the first one says.
-/

namespace Pcos.Replicas

open Foundations

/-- A row of `devices`. -/
structure Device where
  id : Uuid
  userId : Uuid
  isOnline : Bool
  deriving DecidableEq

/-- A row of `file_replicas`. -/
structure Replica where
  id : String
  fileId : Uuid
  storageNodeId : String
  deviceId : Uuid
  status : String
  checksum : String
  deriving DecidableEq

/-- The database and the files, with a record of the contents that requests have written on nodes. -/
structure Cluster where
  world : World
  devices : List Device
  /-- `cluster_protection.protection_mode` -/
  modes : Uuid → Option String
  replicas : List Replica
  written : List (String × Bytes)

def targetReplicas (mode : String) : ℕ :=
  if mode = "two_node_protection" ∨ mode = "always_on_nas" then 2
  else if mode = "multi_node_mesh" then 3
  else 1

namespace Cluster

/-- `SELECT … FROM file_entries WHERE user_id = $1 AND is_trashed = false` -/
def files (c : Cluster) (user : Uuid) : List FileEntry :=
  c.world.entries.rows.filter fun f => f.userId = user && !f.isTrashed

/-- `SELECT id FROM devices WHERE user_id = $1 AND is_online = true` -/
def onlineDevices (c : Cluster) (user : Uuid) : List Device :=
  c.devices.filter fun d => d.userId = user && d.isOnline

def target (c : Cluster) (user : Uuid) : ℕ :=
  targetReplicas ((c.modes user).getD "single_device")

/-- `INSERT INTO file_replicas … ON CONFLICT(file_id, storage_node_id) DO NOTHING`; nothing, if no row
is affected. -/
def insertReplica (c : Cluster) (r : Replica) : Option Cluster :=
  if c.replicas.all (fun r' => r'.id ≠ r.id)
      && c.replicas.all (fun r' => !(r'.fileId = r.fileId && r'.storageNodeId = r.storageNodeId))
      && (c.world.entries.find? r.fileId).isSome && c.devices.any (fun d => d.id = r.deviceId) then
    some { c with replicas := c.replicas ++ [r] }
  else none

/-- The row of a file and a device. -/
def scheduled (newId : Uuid → Uuid → Uuid) (file : FileEntry) (dev : Device) : Replica where
  id := "rep_" ++ (newId file.id dev.id).text
  fileId := file.id
  storageNodeId := "node_" ++ dev.id.text
  deviceId := dev.id
  status := "synced"
  checksum := file.sha256Hash.getD "verified"

/-- The loop over the devices, up to the first row that is inserted. -/
def protect (newId : Uuid → Uuid → Uuid) (file : FileEntry) (c : Cluster) : List Device → Cluster
  | [] => c
  | dev :: devices => (c.insertReplica (scheduled newId file dev)).getD (protect newId file c devices)

/-- What the loop over the files does with one of them. -/
def visit (newId : Uuid → Uuid → Uuid) (target : ℕ) (devices : List Device) (c : Cluster)
    (file : FileEntry) : Cluster :=
  if 1 < target ∧ 1 < devices.length ∧ c.replicas.countP (fun r => r.fileId = file.id) < target then
    c.protect newId file devices
  else c

/-- `POST /api/v1/cluster/rebalance` -/
def rebalance (newId : Uuid → Uuid → Uuid) (user : Uuid) (c : Cluster) : Cluster :=
  (c.files user).foldl (visit newId (c.target user) (c.onlineDevices user)) c

/-- The rows whose file and device are still there. -/
def cascade (c : Cluster) : Cluster :=
  { c with replicas := c.replicas.filter fun r =>
      (c.world.entries.find? r.fileId).isSome && c.devices.any fun d => d.id = r.deviceId }

end Cluster

/-- Requests, and what devices do; one that is paired is online at once. -/
inductive ClusterEvent
  | request (e : Event)
  | registers (user device : Uuid) (paired : Bool)
  | heartbeat (user device : Uuid)
  | removes (user device : Uuid)
  | updateMode (user : Uuid) (mode : Option String)
  | rebalance (user : Uuid) (newId : Uuid → Uuid → Uuid)

def clusterStep (env : Env) (c : Cluster) : ClusterEvent → Cluster
  | .request e => { c with world := step env c.world e }.cascade
  | .registers user device paired =>
    if c.devices.any fun d => d.id = device then c
    else { c with devices := c.devices ++ [⟨device, user, paired⟩] }
  | .heartbeat user device =>
    { c with devices := c.devices.map fun d =>
        if d.id = device ∧ d.userId = user then { d with isOnline := true } else d }
  | .removes user device =>
    { c with devices := c.devices.filter fun d => !(d.id = device && d.userId = user) }.cascade
  | .updateMode user mode =>
    { c with modes := fun u => if u = user then some (mode.getD "single_device") else c.modes u }
  | .rebalance user newId => c.rebalance newId user

/-- The content of a file. -/
def Cluster.content (c : Cluster) (file : Uuid) : Option Bytes :=
  (c.world.entries.find? file).bind (contentOf c.world)

/-- The rows that are reported as synced. -/
def Cluster.synced (c : Cluster) : List (Claim Uuid String String) :=
  (c.replicas.filter fun r => r.status = "synced").map fun r => ⟨r.fileId, r.storageNodeId, r.checksum⟩

/-- **Every replica that is reported as synced exists.** -/
def Exist (env : Env) (c : Cluster) : Prop := AllBacked env.sha256 c.content c.written c.synced

/-! ## When nothing is scheduled -/

/-- There is nothing to be protected, nowhere to, or no need. -/
def Cluster.Idle (c : Cluster) (user : Uuid) : Prop :=
  c.target user ≤ 1 ∨ (c.onlineDevices user).length ≤ 1 ∨ c.files user = []

instance (c : Cluster) (user : Uuid) : Decidable (c.Idle user) :=
  inferInstanceAs (Decidable (_ ∨ _ ∨ _))

/-- Rebalancing has nothing to do. -/
def ClusterOk (c : Cluster) : ClusterEvent → Prop
  | .rebalance user _ => c.Idle user
  | _ => True

instance : ∀ c e, Decidable (ClusterOk c e)
  | c, .rebalance user _ => inferInstanceAs (Decidable (c.Idle user))
  | _, .request _ => isTrue trivial
  | _, .registers _ _ _ => isTrue trivial
  | _, .heartbeat _ _ => isTrue trivial
  | _, .removes _ _ => isTrue trivial
  | _, .updateMode _ _ => isTrue trivial

section

variable {env : Env} {c : Cluster} {user : Uuid} {newId : Uuid → Uuid → Uuid}

/-- **An idle rebalance schedules nothing.** -/
theorem rebalance_nothing (h : c.Idle user) : c.rebalance newId user = c := by
  have hvisit : (c.files user).foldl (Cluster.visit newId (c.target user) (c.onlineDevices user)) c
      = (c.files user).foldl (fun c' _ => c') c := by
    rcases h with htarget | hdevices | hfiles
    · refine congrArg (fun f => List.foldl f c (c.files user)) (funext₂ fun c' file => if_neg ?_)
      exact fun hgo => absurd hgo.1 (Nat.not_lt.mpr htarget)
    · refine congrArg (fun f => List.foldl f c (c.files user)) (funext₂ fun c' file => if_neg ?_)
      exact fun hgo => absurd hgo.2.1 (Nat.not_lt.mpr hdevices)
    · rw [hfiles]
      rfl
  rw [Cluster.rebalance, hvisit, List.foldl_fixed]

/-- No other step reports a replica. -/
theorem replicas_step {e : ClusterEvent} (hc : c.replicas = []) (h : ClusterOk c e) :
    (clusterStep env c e).replicas = [] := by
  cases e with
  | request e => simp only [clusterStep, Cluster.cascade, hc, List.filter_nil]
  | registers user device paired =>
    simp only [clusterStep]
    split <;> exact hc
  | heartbeat user device => exact hc
  | removes user device => simp only [clusterStep, Cluster.cascade, hc, List.filter_nil]
  | updateMode user mode => exact hc
  | rebalance user newId =>
    rw [clusterStep, rebalance_nothing h]
    exact hc

/-- **Along a run of idle rebalances no replica is reported.** -/
theorem exist_of_run {es : List ClusterEvent} (hc : c.replicas = [])
    (h : Along ClusterOk (clusterStep env) c es) : Exist env (run (clusterStep env) c es) := by
  have hnil := h.invariant (P := fun c => c.replicas = []) (fun _ _ hc hok => replicas_step hc hok) hc
  intro k hk
  rw [Cluster.synced, hnil] at hk
  exact absurd hk List.not_mem_nil

/-- Trying devices keeps the rows and writes nothing. -/
theorem protect_keeps (file : FileEntry) (c : Cluster) (devices : List Device) :
    c.replicas ⊆ (c.protect newId file devices).replicas
      ∧ (c.protect newId file devices).written = c.written := by
  induction devices with
  | nil => exact ⟨List.Subset.refl _, rfl⟩
  | cons dev devices ih =>
    rw [Cluster.protect, Cluster.insertReplica]
    split
    · exact ⟨List.subset_append_left _ _, rfl⟩
    · exact ih

/-- …and so does going through the files. -/
theorem visits_keep (newId : Uuid → Uuid → Uuid) (target : ℕ) (devices : List Device)
    (fs : List FileEntry) (c : Cluster) :
    c.replicas ⊆ (fs.foldl (Cluster.visit newId target devices) c).replicas
      ∧ (fs.foldl (Cluster.visit newId target devices) c).written = c.written := by
  induction fs generalizing c with
  | nil => exact ⟨List.Subset.refl _, rfl⟩
  | cons f fs ih =>
    rw [List.foldl_cons]
    obtain ⟨hkeep, hsame⟩ := ih (c.visit newId target devices f)
    have hvisit : c.replicas ⊆ (c.visit newId target devices f).replicas
        ∧ (c.visit newId target devices f).written = c.written := by
      unfold Cluster.visit
      split
      · exact protect_keeps f c devices
      · exact ⟨List.Subset.refl _, rfl⟩
    exact ⟨List.Subset.trans hvisit.1 hkeep, hsame.trans hvisit.2⟩

/-- The first device of a file without replicas gets one. -/
theorem protect_reports {file : FileEntry} {dev : Device} {devices : List Device}
    (hc : c.replicas = []) (hfile : file ∈ c.world.entries.rows) (hdev : dev ∈ c.devices) :
    Cluster.scheduled newId file dev ∈ (c.protect newId file (dev :: devices)).replicas := by
  have hfound : (c.world.entries.find? file.id).isSome :=
    Option.isSome_iff_exists.mpr ⟨file, FileTable.find?_eq_some.mpr ⟨hfile, rfl⟩⟩
  have hany : c.devices.any (fun d => d.id = dev.id) = true :=
    List.any_eq_true.mpr ⟨dev, hdev, decide_eq_true rfl⟩
  rw [Cluster.protect, Cluster.insertReplica, if_pos]
  · exact List.mem_append_right _ List.mem_cons_self
  · simp only [hc, List.all_nil, Cluster.scheduled, hfound, Bool.and_true, Bool.true_and]
    exact hany

/-- **The first rebalance that is not idle reports a replica that does not exist.** -/
theorem not_exist_rebalance (hc : c.replicas = []) (hwritten : c.written = [])
    (h : ¬ c.Idle user) : ¬ Exist env (c.rebalance newId user) := by
  obtain ⟨htarget, h⟩ := not_or.mp h
  obtain ⟨hdevices, hfiles⟩ := not_or.mp h
  obtain ⟨file, files, hlist⟩ := List.exists_cons_of_ne_nil hfiles
  obtain ⟨dev, devices, honline⟩ : ∃ dev devices, c.onlineDevices user = dev :: devices :=
    List.exists_cons_of_length_pos (by omega)
  have hfile : file ∈ c.world.entries.rows :=
    List.mem_of_mem_filter (show file ∈ c.files user from hlist ▸ List.mem_cons_self)
  have hdev : dev ∈ c.devices :=
    List.mem_of_mem_filter (show dev ∈ c.onlineDevices user from honline ▸ List.mem_cons_self)
  have hvisit : c.visit newId (c.target user) (c.onlineDevices user) file
      = c.protect newId file (dev :: devices) := by
    rw [Cluster.visit, if_pos, honline]
    rw [hc, List.countP_nil]
    exact ⟨by omega, by omega, by omega⟩
  obtain ⟨hkeep, hsame⟩ := visits_keep newId (c.target user) (c.onlineDevices user) files
    (c.protect newId file (dev :: devices))
  rw [Cluster.rebalance, hlist, List.foldl_cons, hvisit]
  have hclaim : (⟨file.id, "node_" ++ dev.id.text, file.sha256Hash.getD "verified"⟩ :
      Claim Uuid String String) ∈ Cluster.synced (files.foldl
        (Cluster.visit newId (c.target user) (c.onlineDevices user))
          (c.protect newId file (dev :: devices))) :=
    List.mem_map.mpr ⟨_, List.mem_filter.mpr ⟨hkeep (protect_reports hc hfile hdev),
      decide_eq_true rfl⟩, rfl⟩
  intro hexist
  obtain ⟨data, -, -, hmem⟩ := hexist _ hclaim
  rw [hsame, (protect_keeps file c _).2, hwritten] at hmem
  exact absurd hmem List.not_mem_nil

end

end Pcos.Replicas
