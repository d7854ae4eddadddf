import Pcos.Backend.Family
import Pcos.Edge.Accounts

/-!
# Edge/Family — family clouds and the roles of their members (`index.ts`)

The same tables and requests as in the backend, with `||` for what is missing.  `rolesKept` tells for
both servers when every cloud has an owner and only owners make owners.
-/

namespace Pcos.Edge.Family

open Foundations Memberships Pcos.Family

open Pcos.Edge.Accounts (Refusal thrown)

/-! ## Requests -/

structure CreateCloudBody where
  name : Option String
  cloudType : Option String

structure InviteMemberBody where
  cloudId : Option String
  userId : Option String
  role : Option String
  storageQuotaBytes : Option ℤ

def CreateCloudBody.cloud (c : FamilyCall) (caller name : String) (body : CreateCloudBody) :
    FamilyCloud String :=
  ⟨"cld_" ++ c.cloudUuid.text, trim Accounts.isSpace name, caller,
    (truthy body.cloudType).getD "family", c.now⟩

/-- The creator's row. -/
def CreateCloudBody.owner (c : FamilyCall) (caller : String) : FamilyMember String :=
  ⟨"fmem_" ++ c.memberUuid.text, "cld_" ++ c.cloudUuid.text, caller, "owner", 53687091200, 0, none, c.now⟩

def InviteMemberBody.member (c : FamilyCall) (cloudId : String) (body : InviteMemberBody) :
    FamilyMember String :=
  ⟨"fmem_" ++ c.memberUuid.text, cloudId,
    (truthy body.userId).getD ("usr_invited_" ++ String.ofList (c.userUuid.text.toList.take 8)),
    (truthy body.role).getD "member", body.storageQuotaBytes.getD 21474836480, 0,
    some (inviteCode c.inviteUuid), c.now⟩

abbrev FamilyHandler := EStateM Refusal (Families String)

section Handlers

variable (c : FamilyCall) (fails : FamilyQuery → Bool) (caller : String)

/-- `POST /api/v1/family/clouds` -/
def createCloud (body : CreateCloudBody) : FamilyHandler (FamilyCloud String) := do
  let name ← okOr (truthy body.name) ⟨400, "Cloud name is required"⟩
  let cloud := body.cloud c caller name
  ensure (!fails .cloud) thrown
  let h ← get
  let h ← okOr (h.insertCloud cloud) thrown
  set h
  ensure (!fails .member) thrown
  let h ← okOr (h.insertMember (CreateCloudBody.owner c caller)) thrown
  set h
  pure cloud

/-- `POST /api/v1/family/members/invite` -/
def inviteMember (body : InviteMemberBody) : FamilyHandler (FamilyMember String) := do
  let cloudId ← okOr (truthy body.cloudId) ⟨400, "cloud_id required"⟩
  ensure (!fails .caller) thrown
  let h ← get
  ensure (h.roleIn cloudId caller = some "owner" || h.roleIn cloudId caller = some "admin")
    ⟨403, "Only family cloud owners or administrators can invite members"⟩
  let member := body.member c cloudId
  ensure (!fails .member) thrown
  let h ← okOr (h.insertMember member) thrown
  set h
  pure member

/-- The row that a request is about, and the role that the caller has in its cloud. -/
def target (memberId : String) : FamilyHandler (FamilyMember String × Option String) := do
  ensure (!fails .target) thrown
  let h ← get
  let target ← okOr (h.member memberId) ⟨404, "Family member not found"⟩
  ensure (!fails .caller) thrown
  pure (target, h.roleIn target.cloudId caller)

/-- `PUT /api/v1/family/members/:id/role` -/
def updateMemberRole (memberId : String) (role : Option String) : FamilyHandler Unit := do
  let (_, callerRole) ← target fails caller memberId
  ensure (callerRole = some "owner") ⟨403, "Only the family cloud owner can modify member roles"⟩
  let role ← okOr (truthy role) ⟨400, "role required"⟩
  ensure (!fails .update) thrown
  modify fun h => h.setRole memberId role

/-- `PUT /api/v1/family/members/:id/quota` -/
def updateMemberQuota (memberId : String) (bytes : Option ℤ) : FamilyHandler Unit := do
  let (_, callerRole) ← target fails caller memberId
  ensure (callerRole = some "owner" || callerRole = some "admin")
    ⟨403, "Only family cloud owners or administrators can modify storage quotas"⟩
  let bytes ← okOr bytes ⟨400, "quota required"⟩
  ensure (!fails .update) thrown
  modify fun h => h.setQuota memberId bytes

/-- Whether the caller is not refused. -/
def mayRemove (callerRole : Option String) (target : FamilyMember String) : Bool :=
  callerRole = some "owner" || (callerRole = some "admin" && target.role ≠ "owner")

/-- `DELETE /api/v1/family/members/:id` -/
def deleteMember (memberId : String) : FamilyHandler Unit := do
  let (target, callerRole) ← target fails caller memberId
  ensure (target.userId = caller || mayRemove callerRole target)
    ⟨403, "Insufficient permissions to remove this family member"⟩
  ensure (!fails .delete) thrown
  modify fun h => h.deleteMember memberId

end Handlers

/-! ## Runs -/

inductive FamilyRequest
  | createCloud (body : CreateCloudBody)
  | inviteMember (body : InviteMemberBody)
  | updateMemberRole (memberId : String) (role : Option String)
  | updateMemberQuota (memberId : String) (bytes : Option ℤ)
  | deleteMember (memberId : String)

inductive FamilyEvent
  /-- A request of a user, some of whose queries fail. -/
  | request (c : FamilyCall) (fails : FamilyQuery → Bool) (caller : String) (r : FamilyRequest)
  /-- Someone registers. -/
  | register (user : String)

def FamilyRequest.handle (c : FamilyCall) (fails : FamilyQuery → Bool) (caller : String) :
    FamilyRequest → Families String → Families String
  | .createCloud body => leaves (Family.createCloud c fails caller body)
  | .inviteMember body => leaves (Family.inviteMember c fails caller body)
  | .updateMemberRole id role => leaves (Family.updateMemberRole fails caller id role)
  | .updateMemberQuota id bytes => leaves (Family.updateMemberQuota fails caller id bytes)
  | .deleteMember id => leaves (Family.deleteMember fails caller id)

def step (h : Families String) : FamilyEvent → Families String
  | .request c fails caller r => r.handle c fails caller h
  | .register user => { h with users := h.users ++ [user] }

/-- The only owner of a cloud does not leave it or give up the role, an administrator invites no owner,
and the second query of a creation does not fail. -/
def Prudent (h : Families String) : FamilyEvent → Prop
  | .request c fails _ (.createCloud _) =>
    fails .member = false ∧ "fmem_" ++ c.memberUuid.text ∉ h.members.map FamilyMember.id
  | .request _ _ caller (.inviteMember body) => ∀ cloudId ∈ body.cloudId,
    body.role = some "owner" → h.roleIn cloudId caller = some "owner"
  | .request _ _ caller (.updateMemberRole id role) => ∀ target ∈ h.member id,
    ∀ newRole ∈ truthy role, newRole ≠ "owner" → target.userId = caller → target.role = "owner" → h.HasOther target
  | .request _ _ caller (.deleteMember id) => ∀ target ∈ h.member id,
    target.userId = caller → target.role = "owner" → h.HasOther target
  | _ => True

instance Prudent.decidable (h : Families String) : ∀ e, Decidable (Prudent h e)
  | .request c fails _ (.createCloud _) => inferInstanceAs (Decidable
    (fails .member = false ∧ "fmem_" ++ c.memberUuid.text ∉ h.members.map FamilyMember.id))
  | .request _ _ caller (.inviteMember body) => inferInstanceAs (Decidable (∀ cloudId ∈ body.cloudId,
    body.role = some "owner" → h.roleIn cloudId caller = some "owner"))
  | .request _ _ caller (.updateMemberRole id role) => inferInstanceAs (Decidable (∀ target ∈ h.member id,
    ∀ newRole ∈ truthy role, newRole ≠ "owner" → target.userId = caller → target.role = "owner" →
      h.HasOther target))
  | .request _ _ caller (.deleteMember id) => inferInstanceAs (Decidable (∀ target ∈ h.member id,
    target.userId = caller → target.role = "owner" → h.HasOther target))
  | .request _ _ _ (.updateMemberQuota _ _) => isTrue trivial
  | .register _ => isTrue trivial

/-- The caller of a request. -/
def FamilyEvent.caller : FamilyEvent → String
  | .request _ _ caller _ => caller
  | .register user => user

section Steps

variable {c : FamilyCall} {fails : FamilyQuery → Bool} {caller : String} {h : Families String} {e : FamilyEvent}

/-- What a request leaves is a step of the memberships. -/
abbrev Steps (caller : String) (h h' : Families String) : Prop :=
  Step "owner" caller h.memberships h'.memberships

theorem createCloud_steps {body : CreateCloudBody}
    (hprudent : Prudent h (.request c fails caller (.createCloud body))) :
    wp (createCloud c fails caller body) (fun _ => Steps caller h) (fun _ => Steps caller h) h := by
  simp only [createCloud, wp_bind, wp_ensure, wp_get, wp_okOr, wp_set, wp_pure, hprudent.1,
    Bool.not_false, reduceCtorEq, false_imp_iff, and_true, forall_const]
  refine ⟨fun name _ => ⟨fun _ => ⟨fun h' hcloud => ⟨fun h'' hins => ?_, fun hnone => ?_⟩, fun _ => ?_⟩,
    fun _ => ?_⟩, fun _ => ?_⟩
  · exact Families.step_found hcloud hins rfl rfl
  · exact absurd hnone (Families.insertMember_ne_none hcloud hprudent.2 rfl rfl)
  all_goals exact .refuse

theorem truthy_spec {text : Option String} {s : String} (hs : truthy text = some s) : text = some s :=
  (Option.filter_eq_some_iff.mp hs).1

theorem inviteMember_steps {body : InviteMemberBody}
    (hprudent : Prudent h (.request c fails caller (.inviteMember body))) :
    wp (inviteMember c fails caller body) (fun _ => Steps caller h) (fun _ => Steps caller h) h := by
  simp only [inviteMember, wp_bind, wp_ensure, wp_get, wp_okOr, wp_set, wp_pure]
  refine ⟨fun cloudId hcloud => ⟨fun _ => ⟨fun _ => ⟨fun _ => ⟨fun h' hins => ?_, fun _ => ?_⟩,
    fun _ => ?_⟩, fun _ => ?_⟩, fun _ => ?_⟩, fun _ => ?_⟩
  · refine Families.step_join hins fun howner => hprudent cloudId (truthy_spec hcloud) ?_
    -- without a role the invited is a member
    cases hrole : truthy body.role with
    | none =>
      simp [InviteMemberBody.member, hrole] at howner
    | some role =>
      simp only [InviteMemberBody.member, hrole, Option.getD_some] at howner
      exact howner ▸ truthy_spec hrole
  all_goals exact .refuse

/-- The row that a request is about is found, or it is refused. -/
theorem wp_target {id : String} {Q : FamilyMember String × Option String → Families String → Prop}
    {E : Refusal → Families String → Prop}
    (hfound : ∀ target, h.member id = some target → Q (target, h.roleIn target.cloudId caller) h)
    (hrefused : ∀ e, E e h) : wp (target fails caller id) Q E h := by
  simp only [target, wp_bind, wp_ensure, wp_get, wp_okOr, wp_pure]
  exact ⟨fun _ => ⟨fun target htarget => ⟨fun _ => hfound target htarget, fun _ => hrefused _⟩,
    fun _ => hrefused _⟩, fun _ => hrefused _⟩

theorem updateMemberRole_steps {id : String} {role : Option String}
    (hprudent : Prudent h (.request c fails caller (.updateMemberRole id role))) :
    wp (updateMemberRole fails caller id role) (fun _ => Steps caller h) (fun _ => Steps caller h) h := by
  simp only [updateMemberRole, wp_bind]
  refine wp_target (fun target htarget => ?_) fun _ => .refuse
  simp only [wp_ensure, wp_okOr, wp_modify, decide_eq_true_eq]
  refine ⟨fun hcaller => ⟨fun role hrole => ⟨fun _ => ?_, fun _ => ?_⟩, fun _ => ?_⟩, fun _ => ?_⟩
  · exact Families.step_setRole htarget hcaller (hprudent target htarget role hrole)
  all_goals exact .refuse

theorem updateMemberQuota_steps {id : String} {bytes : Option ℤ} :
    wp (updateMemberQuota fails caller id bytes) (fun _ => Steps caller h) (fun _ => Steps caller h) h := by
  simp only [updateMemberQuota, wp_bind]
  refine wp_target (fun target htarget => ?_) fun _ => .refuse
  simp only [wp_ensure, wp_okOr, wp_modify]
  refine ⟨fun hcaller => ⟨fun bytes hbytes => ⟨fun _ => ?_, fun _ => ?_⟩, fun _ => ?_⟩, fun _ => ?_⟩
  · exact (congrArg (Step "owner" caller h.memberships) Families.memberships_setQuota.symm).mp .refuse
  all_goals exact .refuse

theorem mayRemove_spec {callerRole : Option String} {target : FamilyMember String}
    (hmay : mayRemove callerRole target = true) : callerRole = some "owner" ∨ target.role ≠ "owner" := by
  simp only [mayRemove, Bool.or_eq_true, Bool.and_eq_true, decide_eq_true_eq] at hmay
  exact hmay.imp_right And.right

theorem deleteMember_steps {id : String}
    (hprudent : Prudent h (.request c fails caller (.deleteMember id))) :
    wp (deleteMember fails caller id) (fun _ => Steps caller h) (fun _ => Steps caller h) h := by
  simp only [deleteMember, wp_bind]
  refine wp_target (fun target htarget => ?_) fun _ => .refuse
  simp only [wp_ensure, wp_modify, Bool.or_eq_true, decide_eq_true_eq]
  refine ⟨fun hmay => ⟨fun _ => ?_, fun _ => ?_⟩, fun _ => ?_⟩
  · exact Families.step_deleteMember htarget (hprudent target htarget) fun hne =>
      mayRemove_spec (hmay.resolve_left hne)
  all_goals exact .refuse

/-- **A prudent request is a step of the memberships.** -/
theorem step_memberships (hprudent : Prudent h e) : Steps e.caller h (step h e) := by
  cases e with
  | register user => exact .refuse
  | request c fails caller r =>
    cases r with
    | createCloud body => exact (createCloud_steps hprudent).leaves
    | inviteMember body => exact (inviteMember_steps hprudent).leaves
    | updateMemberRole id role => exact (updateMemberRole_steps hprudent).leaves
    | updateMemberQuota id bytes => exact updateMemberQuota_steps.leaves
    | deleteMember id => exact (deleteMember_steps hprudent).leaves

/-- Every cloud has an owner, and only owners make owners, in a prudent run. -/
theorem owned_of_run {es : List FamilyEvent} (hes : Along Prudent step start es) :
    EveryCloudOwned (run step start es) ∧
      Along (fun h e => OnlyOwnersGrant e.caller h (step h e)) step start es := by
  constructor
  · refine Families.everyCloudOwned_of_owned (Along.invariant
      (P := fun h : Families String => Owned "owner" h.memberships)
      (fun h e howned hprudent => howned.step (step_memberships hprudent)) ?_ hes)
    exact fun g hg => (List.not_mem_nil hg).elim
  · exact hes.mono fun h e hprudent =>
      Families.onlyOwnersGrant_of_granted (step_memberships hprudent).granted

end Steps

/-! ## Both servers -/

open Pcos.Sample

/-- A request of noon, with the id of the row that it makes. -/
def atNoon (member : Uuid) : FamilyCall := ⟨1700000000, id1, member, id3, tmp⟩

def noFailure (_ : FamilyQuery) : Bool := false

/-- Alice creates a cloud, and invites Bob as an administrator… -/
def household : List FamilyEvent :=
  [.register "alice", .register "bob", .register "eve",
    .request (atNoon id1) noFailure "alice" (.createCloud ⟨some "Home", none⟩),
    .request (atNoon id2) noFailure "alice"
      (.inviteMember ⟨some ("cld_" ++ id1.text), some "bob", some "admin", none⟩)]

def authHousehold : List Pcos.Family.FamilyEvent :=
  [.register alice, .register bob, .register tmp,
    .request (atNoon id1) noFailure alice (.createCloud ⟨"Home", none⟩),
    .request (atNoon id2) noFailure alice (.inviteMember ⟨"cld_" ++ id1.text, some bob, some "admin", none⟩)]

/-- …who makes a third an owner. -/
def promotion : FamilyEvent :=
  .request (atNoon id3) noFailure "bob"
    (.inviteMember ⟨some ("cld_" ++ id1.text), some "eve", some "owner", none⟩)

def authPromotion : Pcos.Family.FamilyEvent :=
  .request (atNoon id3) noFailure bob (.inviteMember ⟨"cld_" ++ id1.text, some tmp, some "owner", none⟩)

/-- A member leaves. -/
def departure (caller : String) (member : Uuid) : FamilyEvent :=
  .request (atNoon id3) noFailure caller (.deleteMember ("fmem_" ++ member.text))

def authDeparture (caller member : Uuid) : Pcos.Family.FamilyEvent :=
  .request (atNoon id3) noFailure caller (.deleteMember ("fmem_" ++ member.text))

end Pcos.Edge.Family
