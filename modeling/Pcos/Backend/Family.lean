import Pcos.Backend.Resumable
import Pcos.Foundations.Memberships
import Pcos.Foundations.Runs
import Pcos.Foundations.Text
import Pcos.Foundations.Wp

/-!
# Backend/Family — family clouds and the roles of their members (`user/src/family.rs`)

The tables are those of the worker too, so they and what is asked of them are for users of any type.
A cloud is created with its creator as the owner; owners and administrators invite; owners change
roles; a member may always leave.
-/

namespace Pcos.Family

open Foundations

/-! ## Tables -/

/-- A row of `family_clouds`. -/
structure FamilyCloud (υ : Type) where
  id : String
  name : String
  ownerId : υ
  cloudType : String
  createdAt : ℤ
  deriving DecidableEq

/-- A row of `family_members`. -/
structure FamilyMember (υ : Type) where
  id : String
  cloudId : String
  userId : υ
  role : String
  storageQuotaBytes : ℤ
  usedBytes : ℤ
  inviteCode : Option String
  joinedAt : ℤ
  deriving DecidableEq

/-- The two tables, and the ids of the users. -/
structure Families (υ : Type) where
  users : List υ
  clouds : List (FamilyCloud υ)
  members : List (FamilyMember υ)
  pk : (members.map FamilyMember.id).Nodup
  fk : ∀ m ∈ members, m.cloudId ∈ clouds.map FamilyCloud.id

namespace Families

variable {υ : Type} [DecidableEq υ]

/-- `INSERT INTO family_clouds` -/
def insertCloud (h : Families υ) (c : FamilyCloud υ) : Option (Families υ) :=
  if c.id ∉ h.clouds.map FamilyCloud.id ∧ c.ownerId ∈ h.users then
    some { h with
      clouds := h.clouds ++ [c]
      fk m hm := by
        rw [List.map_append]
        exact List.mem_append_left _ (h.fk m hm) }
  else none

/-- `INSERT INTO family_members`, with `UNIQUE(cloud_id, user_id)` -/
def insertMember (h : Families υ) (m : FamilyMember υ) : Option (Families υ) :=
  if hm : (m.id ∉ h.members.map FamilyMember.id ∧ m.cloudId ∈ h.clouds.map FamilyCloud.id) ∧
      m.userId ∈ h.users ∧ ∀ m' ∈ h.members, ¬ (m'.cloudId = m.cloudId ∧ m'.userId = m.userId) then
    some { h with
      members := h.members ++ [m]
      pk := by
        rw [List.map_append, List.map_singleton, List.nodup_append]
        refine ⟨h.pk, List.nodup_singleton _, fun a ha b hb => ?_⟩
        rw [List.mem_singleton.mp hb]
        exact fun heq => hm.1.1 (heq ▸ ha)
      fk m' hm' := by
        rcases List.mem_append.mp hm' with hm' | hm'
        · exact h.fk m' hm'
        · exact List.mem_singleton.mp hm' ▸ hm.1.2 }
  else none

/-- `UPDATE family_members SET … WHERE id = $2` -/
def updateMember (h : Families υ) (id : String) (f : FamilyMember υ → FamilyMember υ)
    (hid : ∀ m, (f m).id = m.id) (hcloud : ∀ m, (f m).cloudId = m.cloudId) : Families υ :=
  { h with
    members := h.members.map fun m => if m.id = id then f m else m
    pk := by
      have hids : (h.members.map fun m => if m.id = id then f m else m).map FamilyMember.id =
          h.members.map FamilyMember.id := by
        rw [List.map_map]
        refine List.map_congr_left fun m _ => ?_
        rw [Function.comp_apply, apply_ite FamilyMember.id, hid, ite_self]
      exact hids ▸ h.pk
    fk m' hm' := by
      obtain ⟨m, hm, rfl⟩ := List.mem_map.mp hm'
      rw [apply_ite FamilyMember.cloudId, hcloud, ite_self]
      exact h.fk m hm }

def setRole (h : Families υ) (id role : String) : Families υ :=
  h.updateMember id (fun m => { m with role := role }) (fun _ => rfl) fun _ => rfl

def setQuota (h : Families υ) (id : String) (bytes : ℤ) : Families υ :=
  h.updateMember id (fun m => { m with storageQuotaBytes := bytes }) (fun _ => rfl) fun _ => rfl

/-- `DELETE FROM family_members WHERE id = $1` -/
def deleteMember (h : Families υ) (id : String) : Families υ :=
  { h with
    members := h.members.filter fun m => m.id ≠ id
    pk := h.pk.sublist (List.filter_sublist.map _)
    fk m hm := h.fk m (List.mem_of_mem_filter hm) }

/-- `SELECT … FROM family_members WHERE id = $1` -/
def member (h : Families υ) (id : String) : Option (FamilyMember υ) := h.members.find? fun m => m.id = id

/-- `SELECT role FROM family_members WHERE cloud_id = $1 AND user_id = $2` -/
def roleIn (h : Families υ) (cloud : String) (user : υ) : Option String :=
  (h.members.find? fun m => m.cloudId = cloud && m.userId = user).map FamilyMember.role

end Families

/-! ## The roles

What both servers do to the tables are steps of a table of members. -/

open Memberships

/-- Every family cloud has a member with the role owner. -/
def EveryCloudOwned {υ : Type} (h : Families υ) : Prop :=
  ∀ c ∈ h.clouds, ∃ m ∈ h.members, m.cloudId = c.id ∧ m.role = "owner"

/-- Where a request has made an owner, the caller was one, or has just created the cloud. -/
def OnlyOwnersGrant {υ : Type} (caller : υ) (h h' : Families υ) : Prop :=
  ∀ m' ∈ h'.members, m'.role = "owner" →
    (∃ m ∈ h.members, m.id = m'.id ∧ m.cloudId = m'.cloudId ∧ m.role = "owner") ∨
    (∃ m ∈ h.members, m.userId = caller ∧ m.cloudId = m'.cloudId ∧ m.role = "owner") ∨
    m'.cloudId ∉ h.clouds.map FamilyCloud.id

instance {υ : Type} (h : Families υ) : Decidable (EveryCloudOwned h) :=
  inferInstanceAs (Decidable (∀ c ∈ h.clouds, ∃ m ∈ h.members, m.cloudId = c.id ∧ m.role = "owner"))

namespace Families

variable {υ : Type}

/-- The cloud of the target has another owner. -/
def HasOther (h : Families υ) (target : FamilyMember υ) : Prop :=
  ∃ m ∈ h.members, m.id ≠ target.id ∧ m.cloudId = target.cloudId ∧ m.role = "owner"

instance (h : Families υ) (target : FamilyMember υ) : Decidable (h.HasOther target) :=
  inferInstanceAs
    (Decidable (∃ m ∈ h.members, m.id ≠ target.id ∧ m.cloudId = target.cloudId ∧ m.role = "owner"))

def toMember (m : FamilyMember υ) : Member String String υ String := ⟨m.id, m.cloudId, m.userId, m.role⟩

/-- The clouds and the roles of their members. -/
def memberships (h : Families υ) : State String String υ String :=
  ⟨h.clouds.map FamilyCloud.id, h.members.map toMember⟩

variable {h h' h'' : Families υ} {caller : υ} {m target : FamilyMember υ} {c : FamilyCloud υ} {id : String}

theorem everyCloudOwned_of_owned (howned : Owned "owner" h.memberships) : EveryCloudOwned h := by
  intro c hc
  obtain ⟨r, hr, hgroup, hrole⟩ := howned c.id (List.mem_map_of_mem hc)
  obtain ⟨m, hm, rfl⟩ := List.mem_map.mp hr
  exact ⟨m, hm, hgroup, hrole⟩

theorem onlyOwnersGrant_of_granted (hgranted : Granted "owner" caller h.memberships h'.memberships) :
    OnlyOwnersGrant caller h h' := by
  intro m' hm' hrole
  rcases hgranted (toMember m') (List.mem_map_of_mem hm') hrole with hbefore | hcaller | hnew
  · obtain ⟨r, hr, hkept⟩ := hbefore
    obtain ⟨m, hm, rfl⟩ := List.mem_map.mp hr
    exact Or.inl ⟨m, hm, hkept⟩
  · obtain ⟨r, hr, howns⟩ := hcaller
    obtain ⟨m, hm, rfl⟩ := List.mem_map.mp hr
    exact Or.inr (Or.inl ⟨m, hm, howns⟩)
  · exact Or.inr (Or.inr hnew)

theorem member_spec (htarget : h.member id = some target) : target ∈ h.members ∧ target.id = id :=
  ⟨List.mem_of_find?_eq_some htarget, by simpa using List.find?_some htarget⟩

/-- Rows with one id are one row. -/
theorem eq_of_id (hm : m ∈ h.members) (htarget : target ∈ h.members) (hid : m.id = target.id) :
    m = target := List.inj_on_of_nodup_map h.pk hm htarget hid

theorem ownedBesides (hother : h.HasOther target) :
    OwnedBesides "owner" h.memberships target.id target.cloudId := by
  obtain ⟨m, hm, hother⟩ := hother
  exact ⟨toMember m, List.mem_map_of_mem hm, hother⟩

theorem memberships_setQuota {bytes : ℤ} : (h.setQuota id bytes).memberships = h.memberships := by
  simp only [memberships, setQuota, updateMember, List.map_map]
  congr 1
  refine List.map_congr_left fun m _ => ?_
  rw [Function.comp_apply, apply_ite toMember]
  exact ite_self _

variable [DecidableEq υ]

theorem roleIn_spec {cloud role : String} (hrole : h.roleIn cloud caller = some role) :
    ∃ m ∈ h.members, m.userId = caller ∧ m.cloudId = cloud ∧ m.role = role := by
  obtain ⟨m, hm, rfl⟩ := Option.map_eq_some_iff.mp hrole
  have hfound := List.find?_some hm
  simp only [Bool.and_eq_true, decide_eq_true_eq] at hfound
  exact ⟨m, List.mem_of_find?_eq_some hm, hfound.2, hfound.1, rfl⟩

theorem owns_of_roleIn {cloud : String} (hrole : h.roleIn cloud caller = some "owner") :
    Owns "owner" h.memberships caller cloud := by
  obtain ⟨m, hm, howns⟩ := roleIn_spec hrole
  exact ⟨toMember m, List.mem_map_of_mem hm, howns⟩

/-- An owner other than the target is another owner. -/
theorem hasOther_of_roleIn (htarget : target ∈ h.members) (huser : target.userId ≠ caller)
    (hrole : h.roleIn target.cloudId caller = some "owner") : h.HasOther target := by
  obtain ⟨m, hm, hcaller, hcloud, howner⟩ := roleIn_spec hrole
  refine ⟨m, hm, fun hid => huser ?_, hcloud, howner⟩
  rw [← eq_of_id hm htarget hid]
  exact hcaller

theorem insertMember_spec (hins : h.insertMember m = some h') :
    h'.clouds = h.clouds ∧ h'.members = h.members ++ [m] := by
  unfold insertMember at hins
  split at hins
  · cases hins
    exact ⟨rfl, rfl⟩
  · cases hins

theorem insertCloud_spec (hins : h.insertCloud c = some h') :
    c.id ∉ h.clouds.map FamilyCloud.id ∧ c.ownerId ∈ h.users ∧ h'.users = h.users ∧
      h'.clouds = h.clouds ++ [c] ∧ h'.members = h.members := by
  unfold insertCloud at hins
  split at hins
  · rename_i hc
    cases hins
    exact ⟨hc.1, hc.2, rfl, rfl, rfl⟩
  · cases hins

/-- The creator's row can be inserted after the cloud's. -/
theorem insertMember_ne_none (hcloud : h.insertCloud c = some h')
    (hid : m.id ∉ h.members.map FamilyMember.id) (hm : m.cloudId = c.id) (huser : m.userId = c.ownerId) :
    h'.insertMember m ≠ none := by
  obtain ⟨hnew, howner, husers, hclouds, hmembers⟩ := insertCloud_spec hcloud
  have hcheck : (m.id ∉ h'.members.map FamilyMember.id ∧ m.cloudId ∈ h'.clouds.map FamilyCloud.id) ∧
      m.userId ∈ h'.users ∧ ∀ m' ∈ h'.members, ¬ (m'.cloudId = m.cloudId ∧ m'.userId = m.userId) := by
    rw [hmembers, hclouds, husers, huser, hm, List.map_append]
    refine ⟨⟨hid, List.mem_append_right _ List.mem_cons_self⟩, howner, fun m' hm' heq => hnew ?_⟩
    exact heq.1 ▸ h.fk m' hm'
  rw [insertMember, dif_pos hcheck]
  exact Option.some_ne_none _

/-- A cloud is created, with its owner. -/
theorem step_found (hcloud : h.insertCloud c = some h') (hins : h'.insertMember m = some h'')
    (hm : m.cloudId = c.id) (hrole : m.role = "owner") :
    Step "owner" caller h.memberships h''.memberships := by
  obtain ⟨hnew, -, -, hclouds, hmembers⟩ := insertCloud_spec hcloud
  obtain ⟨hclouds', hmembers'⟩ := insertMember_spec hins
  have hstep : Step "owner" caller h.memberships
      { groups := h.memberships.groups ++ [m.cloudId], members := h.memberships.members ++ [toMember m] } :=
    .found (m := toMember m) hrole fun hin => hnew (hm ▸ hin)
  refine (congrArg (Step "owner" caller h.memberships) ?_).mp hstep
  simp only [memberships, hmembers', hclouds', hclouds, hmembers, List.map_append, List.map_singleton]
  rw [← hm]

/-- A member is added. -/
theorem step_join (hins : h.insertMember m = some h')
    (hrole : m.role = "owner" → h.roleIn m.cloudId caller = some "owner") :
    Step "owner" caller h.memberships h'.memberships := by
  obtain ⟨hclouds, hmembers⟩ := insertMember_spec hins
  have hstep : Step "owner" caller h.memberships
      { h.memberships with members := h.memberships.members ++ [toMember m] } :=
    .join fun howner => owns_of_roleIn (hrole howner)
  refine (congrArg (Step "owner" caller h.memberships) ?_).mp hstep
  simp only [memberships, hmembers, hclouds, List.map_append, List.map_singleton]

/-- A role is changed by an owner. -/
theorem step_setRole {role : String} (htarget : h.member id = some target)
    (hrole : h.roleIn target.cloudId caller = some "owner")
    (hself : role ≠ "owner" → target.userId = caller → target.role = "owner" → h.HasOther target) :
    Step "owner" caller h.memberships (h.setRole id role).memberships := by
  obtain ⟨hmem, rfl⟩ := member_spec htarget
  have hassign : ∀ m ∈ h.memberships.members, m.id = target.id →
      Owns "owner" h.memberships caller m.group ∧
        (role ≠ "owner" → m.role = "owner" → OwnedBesides "owner" h.memberships target.id m.group) := by
    intro r hr hid
    obtain ⟨m, hm, rfl⟩ := List.mem_map.mp hr
    obtain rfl : m = target := eq_of_id hm hmem hid
    refine ⟨owns_of_roleIn hrole, fun hne howner => ownedBesides ?_⟩
    by_cases huser : m.userId = caller
    · exact hself hne huser howner
    · exact hasOther_of_roleIn hmem huser hrole
  have hstep := Step.assign hassign
  refine (congrArg (Step "owner" caller h.memberships) ?_).mp hstep
  simp only [memberships, setRole, updateMember, assign, List.map_map]
  congr 1
  refine List.map_congr_left fun m _ => ?_
  rw [Function.comp_apply, Function.comp_apply, apply_ite toMember]
  rfl

/-- A member leaves, or is removed by an owner or by an administrator who is above it. -/
theorem step_deleteMember (htarget : h.member id = some target)
    (hself : target.userId = caller → target.role = "owner" → h.HasOther target)
    (hother : target.userId ≠ caller →
      h.roleIn target.cloudId caller = some "owner" ∨ target.role ≠ "owner") :
    Step "owner" caller h.memberships (h.deleteMember id).memberships := by
  obtain ⟨hmem, rfl⟩ := member_spec htarget
  have hleave : ∀ m ∈ h.memberships.members, m.id = target.id → m.role = "owner" →
      OwnedBesides "owner" h.memberships target.id m.group := by
    intro r hr hid howner
    obtain ⟨m, hm, rfl⟩ := List.mem_map.mp hr
    obtain rfl : m = target := eq_of_id hm hmem hid
    refine ownedBesides ?_
    by_cases huser : m.userId = caller
    · exact hself huser howner
    · exact hasOther_of_roleIn hmem huser ((hother huser).resolve_right (not_not.mpr howner))
  have hstep : Step "owner" caller h.memberships { h.memberships with
      members := h.memberships.members.filter fun m => m.id ≠ target.id } := Step.leave hleave
  refine (congrArg (Step "owner" caller h.memberships) ?_).mp hstep
  simp only [memberships, deleteMember, List.filter_map]
  rfl

end Families

/-! ## Requests -/

inductive FamilyError
  | notFound (message : String)
  | forbidden (message : String)
  | validation (message : String)
  | database
  deriving DecidableEq, Repr

/-- The queries of the handlers. -/
inductive FamilyQuery
  | target
  | caller
  | cloud
  | member
  | update
  | delete
  deriving DecidableEq, Repr

/-- A request's time, and the UUIDs that it makes. -/
structure FamilyCall where
  now : ℤ
  cloudUuid : Uuid
  memberUuid : Uuid
  inviteUuid : Uuid
  userUuid : Uuid

structure CreateCloudRequest where
  name : String
  cloudType : Option String

structure InviteMemberRequest where
  cloudId : String
  userId : Option Uuid
  role : Option String
  storageQuotaBytes : Option ℤ

/-- The text fits into a `VARCHAR(n)`. -/
def varchar (n : ℕ) (text : String) : Bool := text.length ≤ n && text.toList.all (· ≠ '\x00')

/-- `fam_inv_`, and twelve digits of a UUID. -/
def inviteCode (id : Uuid) : String :=
  "fam_inv_" ++ String.ofList ((id.text.toList.filter (· ≠ '-')).take 12)

def CreateCloudRequest.cloud (c : FamilyCall) (caller : Uuid) (req : CreateCloudRequest) : FamilyCloud Uuid :=
  ⟨"cld_" ++ c.cloudUuid.text, trim isWhiteSpace req.name, caller, req.cloudType.getD "family", c.now⟩

/-- Creator is owner with 50 GB default quota. -/
def CreateCloudRequest.owner (c : FamilyCall) (caller : Uuid) : FamilyMember Uuid :=
  ⟨"fmem_" ++ c.memberUuid.text, "cld_" ++ c.cloudUuid.text, caller, "owner", 53687091200, 0, none, c.now⟩

def InviteMemberRequest.member (c : FamilyCall) (req : InviteMemberRequest) : FamilyMember Uuid :=
  ⟨"fmem_" ++ c.memberUuid.text, req.cloudId, req.userId.getD c.userUuid, req.role.getD "member",
    req.storageQuotaBytes.getD 21474836480, 0, some (inviteCode c.inviteUuid), c.now⟩

abbrev FamilyHandler := EStateM FamilyError (Families Uuid)

section Handlers

variable (c : FamilyCall) (fails : FamilyQuery → Bool) (caller : Uuid)

/-- Create a family cloud. -/
def createCloud (req : CreateCloudRequest) : FamilyHandler (FamilyCloud Uuid) := do
  ensure (!(trim isWhiteSpace req.name).isEmpty) (.validation "Cloud name is required")
  let cloud := req.cloud c caller
  ensure (!fails .cloud && varchar 255 cloud.name && varchar 32 cloud.cloudType) .database
  let h ← get
  let h ← okOr (h.insertCloud cloud) .database
  set h
  ensure (!fails .member) .database
  let h ← okOr (h.insertMember (CreateCloudRequest.owner c caller)) .database
  set h
  pure cloud

/-- Invite a new member. -/
def inviteMember (req : InviteMemberRequest) : FamilyHandler (FamilyMember Uuid) := do
  ensure (!fails .caller) .database
  let h ← get
  ensure (h.roleIn req.cloudId caller = some "owner" || h.roleIn req.cloudId caller = some "admin")
    (.forbidden "Only family cloud owners or administrators can invite members")
  let member := req.member c
  ensure (!fails .member && varchar 32 member.role) .database
  let h ← okOr (h.insertMember member) .database
  set h
  pure member

/-- The row that a request is about. -/
def target (memberId : String) : FamilyHandler (FamilyMember Uuid) := do
  ensure (!fails .target) .database
  let h ← get
  okOr (h.member memberId) (.notFound "Family member not found")

/-- Update member role. -/
def updateMemberRole (memberId role : String) : FamilyHandler Unit := do
  let target ← target fails memberId
  ensure (!fails .caller) .database
  let h ← get
  ensure (h.roleIn target.cloudId caller = some "owner")
    (.forbidden "Only the family cloud owner can modify member roles")
  ensure (!fails .update && varchar 32 role) .database
  set (h.setRole memberId role)

/-- Update member quota. -/
def updateMemberQuota (memberId : String) (bytes : ℤ) : FamilyHandler Unit := do
  let target ← target fails memberId
  ensure (!fails .caller) .database
  let h ← get
  ensure (h.roleIn target.cloudId caller = some "owner" || h.roleIn target.cloudId caller = some "admin")
    (.forbidden "Only family cloud owners or administrators can modify storage quotas")
  ensure (!fails .update) .database
  set (h.setQuota memberId bytes)

/-- Whether the caller may remove the target. -/
def mayRemove (role : Option String) (target : FamilyMember Uuid) : Bool :=
  role = some "owner" || (role = some "admin" && target.role ≠ "owner")

/-- Remove a member from the cloud. -/
def deleteMember (memberId : String) : FamilyHandler Unit := do
  let target ← target fails memberId
  if target.userId ≠ caller then
    ensure (!fails .caller) .database
    let h ← get
    ensure (mayRemove (h.roleIn target.cloudId caller) target)
      (.forbidden "Insufficient permissions to remove this family member")
  ensure (!fails .delete) .database
  modify fun h => h.deleteMember memberId

end Handlers

/-! ## Runs -/

inductive FamilyRequest
  | createCloud (req : CreateCloudRequest)
  | inviteMember (req : InviteMemberRequest)
  | updateMemberRole (memberId role : String)
  | updateMemberQuota (memberId : String) (bytes : ℤ)
  | deleteMember (memberId : String)

inductive FamilyEvent
  /-- A request of a user, some of whose queries fail. -/
  | request (c : FamilyCall) (fails : FamilyQuery → Bool) (caller : Uuid) (r : FamilyRequest)
  /-- Someone registers. -/
  | register (user : Uuid)

def FamilyRequest.handle (c : FamilyCall) (fails : FamilyQuery → Bool) (caller : Uuid) :
    FamilyRequest → Families Uuid → Families Uuid
  | .createCloud req => leaves (Family.createCloud c fails caller req)
  | .inviteMember req => leaves (Family.inviteMember c fails caller req)
  | .updateMemberRole id role => leaves (Family.updateMemberRole fails caller id role)
  | .updateMemberQuota id bytes => leaves (Family.updateMemberQuota fails caller id bytes)
  | .deleteMember id => leaves (Family.deleteMember fails caller id)

def step (h : Families Uuid) : FamilyEvent → Families Uuid
  | .request c fails caller r => r.handle c fails caller h
  | .register user => { h with users := h.users ++ [user] }

/-- No clouds. -/
def start {υ : Type} : Families υ := ⟨[], [], [], List.nodup_nil, nofun⟩

/-! ## The roles in a run -/

/-- The only owner of a cloud does not leave it or give up the role, an administrator invites no owner,
and the second query of a creation does not fail. -/
def Prudent (h : Families Uuid) : FamilyEvent → Prop
  | .request c fails _ (.createCloud _) =>
    fails .member = false ∧ "fmem_" ++ c.memberUuid.text ∉ h.members.map FamilyMember.id
  | .request _ _ caller (.inviteMember req) =>
    req.role = some "owner" → h.roleIn req.cloudId caller = some "owner"
  | .request _ _ caller (.updateMemberRole id role) => ∀ target ∈ h.member id,
    role ≠ "owner" → target.userId = caller → target.role = "owner" → h.HasOther target
  | .request _ _ caller (.deleteMember id) => ∀ target ∈ h.member id,
    target.userId = caller → target.role = "owner" → h.HasOther target
  | _ => True

instance Prudent.decidable (h : Families Uuid) : ∀ e, Decidable (Prudent h e)
  | .request c fails _ (.createCloud _) => inferInstanceAs (Decidable
    (fails .member = false ∧ "fmem_" ++ c.memberUuid.text ∉ h.members.map FamilyMember.id))
  | .request _ _ caller (.inviteMember req) => inferInstanceAs (Decidable
    (req.role = some "owner" → h.roleIn req.cloudId caller = some "owner"))
  | .request _ _ caller (.updateMemberRole id role) => inferInstanceAs (Decidable (∀ target ∈ h.member id,
    role ≠ "owner" → target.userId = caller → target.role = "owner" → h.HasOther target))
  | .request _ _ caller (.deleteMember id) => inferInstanceAs (Decidable (∀ target ∈ h.member id,
    target.userId = caller → target.role = "owner" → h.HasOther target))
  | .request _ _ _ (.updateMemberQuota _ _) => isTrue trivial
  | .register _ => isTrue trivial

/-- The caller of a request. -/
def FamilyEvent.caller : FamilyEvent → Uuid
  | .request _ _ caller _ => caller
  | .register user => user

section Runs

variable {c : FamilyCall} {fails : FamilyQuery → Bool} {caller : Uuid} {h : Families Uuid} {e : FamilyEvent}

/-- What a request leaves is a step of the memberships. -/
abbrev Steps (caller : Uuid) (h h' : Families Uuid) : Prop :=
  Step "owner" caller h.memberships h'.memberships

theorem createCloud_steps {req : CreateCloudRequest}
    (hprudent : Prudent h (.request c fails caller (.createCloud req))) :
    wp (createCloud c fails caller req) (fun _ => Steps caller h) (fun _ => Steps caller h) h := by
  simp only [createCloud, wp_bind, wp_ensure, wp_get, wp_okOr, wp_set, wp_pure, hprudent.1,
    Bool.not_false, reduceCtorEq, false_imp_iff, and_true, forall_const]
  refine ⟨fun _ => ⟨fun _ => ⟨fun h' hcloud => ⟨fun h'' hins => ?_, fun hnone => ?_⟩, fun _ => ?_⟩,
    fun _ => ?_⟩, fun _ => ?_⟩
  · exact Families.step_found hcloud hins rfl rfl
  · exact absurd hnone (Families.insertMember_ne_none hcloud hprudent.2 rfl rfl)
  all_goals exact .refuse

theorem inviteMember_steps {req : InviteMemberRequest}
    (hprudent : Prudent h (.request c fails caller (.inviteMember req))) :
    wp (inviteMember c fails caller req) (fun _ => Steps caller h) (fun _ => Steps caller h) h := by
  simp only [inviteMember, wp_bind, wp_ensure, wp_get, wp_okOr, wp_set, wp_pure]
  refine ⟨fun _ => ⟨fun _ => ⟨fun _ => ⟨fun h' hins => ?_, fun _ => ?_⟩, fun _ => ?_⟩, fun _ => ?_⟩,
    fun _ => ?_⟩
  · refine Families.step_join hins fun howner => hprudent ?_
    -- without a role the invited is a member
    cases hrole : req.role with
    | none =>
      simp [InviteMemberRequest.member, hrole] at howner
    | some role =>
      simp only [InviteMemberRequest.member, hrole, Option.getD_some] at howner
      rw [howner]
  all_goals exact .refuse

/-- The row that a request is about is found, or it is refused. -/
theorem wp_target {id : String} {Q : FamilyMember Uuid → Families Uuid → Prop}
    {E : FamilyError → Families Uuid → Prop} (hfound : ∀ target, h.member id = some target → Q target h)
    (hrefused : ∀ e, E e h) : wp (target fails id) Q E h := by
  simp only [target, wp_bind, wp_ensure, wp_get, wp_okOr]
  exact ⟨fun _ => ⟨hfound, fun _ => hrefused _⟩, fun _ => hrefused _⟩

theorem updateMemberRole_steps {id role : String}
    (hprudent : Prudent h (.request c fails caller (.updateMemberRole id role))) :
    wp (updateMemberRole fails caller id role) (fun _ => Steps caller h) (fun _ => Steps caller h) h := by
  simp only [updateMemberRole, wp_bind]
  refine wp_target (fun target htarget => ?_) fun _ => .refuse
  simp only [wp_ensure, wp_get, wp_set, decide_eq_true_eq]
  refine ⟨fun _ => ⟨fun hrole => ⟨fun _ => ?_, fun _ => ?_⟩, fun _ => ?_⟩, fun _ => ?_⟩
  · exact Families.step_setRole htarget hrole (hprudent target htarget)
  all_goals exact .refuse

theorem updateMemberQuota_steps {id : String} {bytes : ℤ} :
    wp (updateMemberQuota fails caller id bytes) (fun _ => Steps caller h) (fun _ => Steps caller h) h := by
  simp only [updateMemberQuota, wp_bind]
  refine wp_target (fun target htarget => ?_) fun _ => .refuse
  simp only [wp_ensure, wp_get, wp_set]
  refine ⟨fun _ => ⟨fun hrole => ⟨fun _ => ?_, fun _ => ?_⟩, fun _ => ?_⟩, fun _ => ?_⟩
  · exact (congrArg (Step "owner" caller h.memberships) Families.memberships_setQuota.symm).mp .refuse
  all_goals exact .refuse

theorem mayRemove_spec {role : Option String} {target : FamilyMember Uuid}
    (hmay : mayRemove role target = true) : role = some "owner" ∨ target.role ≠ "owner" := by
  simp only [mayRemove, Bool.or_eq_true, Bool.and_eq_true, decide_eq_true_eq] at hmay
  exact hmay.imp_right And.right

theorem deleteMember_steps {id : String}
    (hprudent : Prudent h (.request c fails caller (.deleteMember id))) :
    wp (deleteMember fails caller id) (fun _ => Steps caller h) (fun _ => Steps caller h) h := by
  simp only [deleteMember, wp_bind]
  refine wp_target (fun target htarget => ?_) fun _ => .refuse
  by_cases huser : target.userId = caller
  · simp only [huser, ne_eq, not_true_eq_false, if_false, wp_bind, wp_ensure, wp_modify]
    refine ⟨fun _ => ?_, fun _ => .refuse⟩
    exact Families.step_deleteMember htarget (hprudent target htarget) fun hne => absurd huser hne
  · simp only [huser, ne_eq, not_false_eq_true, if_true, wp_bind, wp_ensure, wp_get, wp_modify]
    refine ⟨fun _ => ⟨fun hmay => ⟨fun _ => ?_, fun _ => ?_⟩, fun _ => ?_⟩, fun _ => ?_⟩
    · exact Families.step_deleteMember htarget (hprudent target htarget) fun _ => mayRemove_spec hmay
    all_goals exact .refuse

/-- **A prudent request is a step of the memberships.** -/
theorem step_memberships (hprudent : Prudent h e) : Steps e.caller h (step h e) := by
  cases e with
  | register user => exact .refuse
  | request c fails caller r =>
    cases r with
    | createCloud req => exact (createCloud_steps hprudent).leaves
    | inviteMember req => exact (inviteMember_steps hprudent).leaves
    | updateMemberRole id role => exact (updateMemberRole_steps hprudent).leaves
    | updateMemberQuota id bytes => exact updateMemberQuota_steps.leaves
    | deleteMember id => exact (deleteMember_steps hprudent).leaves

/-- **Every cloud has an owner, and only owners make owners**, in a prudent run. -/
theorem owned_of_run {es : List FamilyEvent} (hes : Along Prudent step start es) :
    EveryCloudOwned (run step start es) ∧
      Along (fun h e => OnlyOwnersGrant e.caller h (step h e)) step start es := by
  constructor
  · refine Families.everyCloudOwned_of_owned (Along.invariant
      (P := fun h : Families Uuid => Owned "owner" h.memberships)
      (fun h e howned hprudent => howned.step (step_memberships hprudent)) ?_ hes)
    exact fun g hg => (List.not_mem_nil hg).elim
  · exact hes.mono fun h e hprudent =>
      Families.onlyOwnersGrant_of_granted (step_memberships hprudent).granted

end Runs

end Pcos.Family
