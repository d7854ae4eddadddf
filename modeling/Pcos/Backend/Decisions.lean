import Pcos.Backend.SingleUse

/-!
# Backend/Decisions — the owner decides, and it stays decided

A claim overwrites the candidate and the status of its session whatever they are, so a decision is
final only in a run that takes no such step.  `Decisive` rules out, at each section, the branch that
would overwrite a decision; `SessionStep` says what a section can then do to a session, and
`DecisionKept` follows for any two states of the run.
-/

namespace Pcos

open Foundations

/-- The call carries out an approval. -/
def Provisioning.approves (p : Provisioning) : Bool :=
  match p.purpose with
  | .approve _ _ _ => true
  | .redeem _ => false

/-- The session has been approved or rejected. -/
def PairingSession.decided (s : PairingSession) : Bool :=
  s.status = .approved || s.status = .rejected

namespace PairingService

/-- The session filed under the id. -/
abbrev session? (s : PairingService) (id : Uuid) : Option PairingSession := s.store.sessions.get id

/-- **The decision is final and about the device shown**, from an earlier state of a run to a later
one. -/
structure DecisionKept (s s' : PairingService) : Prop where
  /-- A rejected session leads to no device and to no token. -/
  rejected : ∀ id sess, s.session? id = some sess → sess.status = .rejected →
    s'.devicesOf id = s.devicesOf id ∧ s'.tokensOf id = s.tokensOf id
  /-- The candidate of a decided session stays, and its status, unless the owner rejects it. -/
  stays : ∀ id sess sess', s.session? id = some sess → sess.decided → s'.session? id = some sess' →
    sess'.candidateDevice = sess.candidateDevice
      ∧ (sess'.status = sess.status ∨ sess'.status = .rejected)
  /-- An approval provisions the candidate that was on record when it was asked for. -/
  provisioned : ∀ row ∈ s'.devices, ∀ n, row.origin = .approval n →
    ∃ candidate, s'.approvals[n]? = some (row.session, some candidate)
      ∧ row.info = candidate.info
  /-- An approved session shows the device that was provisioned for it. -/
  shown : ∀ id sess, s'.session? id = some sess → sess.status = .approved →
    ∃ candidate result n, sess.candidateDevice = some candidate ∧ sess.redeemResult = some result
      ∧ result.session = id ∧ result.device.info = candidate.info
      ∧ result.device.origin = .approval n

/-- `Uuid::new_v4` gives a session an id that none has had. -/
def NewId (s : PairingService) : PairingAction → Prop
  | .create _ _ _ _ id _ _ => id ∉ s.created
  | _ => True

instance (s : PairingService) : ∀ a, Decidable (s.NewId a)
  | .create _ _ _ _ id _ _ => inferInstanceAs (Decidable (id ∉ s.created))
  | .claim _ _ _ => inferInstanceAs (Decidable True)
  | .approve _ _ _ _ => inferInstanceAs (Decidable True)
  | .status _ _ _ => inferInstanceAs (Decidable True)
  | .redeem _ _ _ => inferInstanceAs (Decidable True)
  | .insertDevice _ _ _ => inferInstanceAs (Decidable True)
  | .insertToken _ _ _ _ _ => inferInstanceAs (Decidable True)
  | .finish _ _ => inferInstanceAs (Decidable True)

/-- No claim reaches a session that is decided or being approved, no approval one that is rejected,
no rejection one that is being provisioned, and the key of an approval that finishes does not lead
to another session by now. -/
def Decisive (s : PairingService) : PairingAction → Prop
  | .claim now _ req => ∀ sess ∈ s.store.named now req.key,
      sess.decided = false ∧ ∀ p ∈ s.inFlight, p.session.id = sess.id → p.approves = false
  | .approve now userId key approved => ∀ sess ∈ s.store.named now key, sess.userId = userId →
      if approved then sess.status ≠ .rejected
      else ∀ p ∈ s.inFlight, p.session.id ≠ sess.id
  | .finish p _ =>
    match p.purpose with
    | .approve key _ _ => ∀ sess ∈ s.store.getByKey key, sess.id = p.session.id
    | .redeem _ => True
  | _ => True

instance (s : PairingService) : ∀ a, Decidable (s.Decisive a)
  | .claim now _ req => inferInstanceAs <| Decidable <| ∀ sess ∈ s.store.named now req.key,
      sess.decided = false ∧ ∀ p ∈ s.inFlight, p.session.id = sess.id → p.approves = false
  | .approve now userId key approved => inferInstanceAs <| Decidable <|
      ∀ sess ∈ s.store.named now key, sess.userId = userId →
        if approved then sess.status ≠ .rejected
        else ∀ p ∈ s.inFlight, p.session.id ≠ sess.id
  | .finish ⟨_, session, .approve key _ _, _⟩ _ => inferInstanceAs <| Decidable <|
      ∀ sess ∈ s.store.getByKey key, sess.id = session.id
  | .finish ⟨_, _, .redeem _, _⟩ _ => inferInstanceAs (Decidable True)
  | .create _ _ _ _ _ _ _ => inferInstanceAs (Decidable True)
  | .status _ _ _ => inferInstanceAs (Decidable True)
  | .redeem _ _ _ => inferInstanceAs (Decidable True)
  | .insertDevice _ _ _ => inferInstanceAs (Decidable True)
  | .insertToken _ _ _ _ _ => inferInstanceAs (Decidable True)

/-! ## What a section can do to a session -/

/-- How the session filed under `id` can come out of a section that has put the ids `created` in
use. -/
inductive SessionStep (s : PairingService) (created : List Uuid) (id : Uuid) :
    PairingSession → Prop
  | same {sess} (h : s.session? id = some sess) : SessionStep s created id sess
  | opened {sess} (hid : id ∉ s.created) (hcreated : id ∈ created)
      (hstatus : sess.status = .pendingRedeem) : SessionStep s created id sess
  | claimed {sess candidate} (h : s.session? id = some sess) (hopen : sess.decided = false)
      (hfree : ∀ p ∈ s.inFlight, p.session.id = id → p.approves = false) :
      SessionStep s created id
        { sess with candidateDevice := some candidate, status := .pendingApproval }
  | rejected {sess} (h : s.session? id = some sess) (hfree : ∀ p ∈ s.inFlight, p.session.id ≠ id) :
      SessionStep s created id { sess with status := .rejected }
  | approved {sess p result} (h : s.session? id = some sess) (hp : p ∈ s.inFlight)
      (happroves : p.approves = true) (hid : p.session.id = id) (hstage : p.stage = .finish result) :
      SessionStep s created id { sess with status := .approved, redeemResult := some result }

variable {s : PairingService} {created : List Uuid} {id : Uuid}

theorem SessionStep.of_remove {i : Uuid} {sess : PairingSession}
    (h : (s.store.remove i).sessions.get id = some sess) : SessionStep s created id sess := by
  rw [PairingStore.get_remove] at h
  split at h
  · cases h
  · exact .same h

/-- A session that changes, and the others. -/
theorem SessionStep.of_modify {new sess : PairingSession}
    (h : (s.store.modify new).sessions.get id = some sess)
    (hnew : id = new.id → SessionStep s created id new) : SessionStep s created id sess := by
  rw [PairingStore.sessions_modify, Dict.get_set] at h
  split at h
  · rename_i hid
    exact Option.some.inj h ▸ hnew hid
  · exact .same h

theorem SessionStep.of_finish {p : Provisioning} {result : RedeemPairingResponse}
    (hp : p ∈ s.inFlight) (hstage : p.stage = .finish result) (hok : s.Decisive (.finish p result))
    {sess : PairingSession} (h : (s.store.finish p result).sessions.get id = some sess) :
    SessionStep s created id sess := by
  unfold PairingStore.finish at h
  unfold Decisive at hok
  dsimp only at hok
  cases hpurpose : p.purpose with
  | approve key candidate number =>
    rw [hpurpose] at h hok
    dsimp only at h hok
    cases hget : s.store.getByKey key with
    | none =>
      rw [hget] at h
      exact .same h
    | some found =>
      rw [hget] at h
      have hfiled : s.store.sessions.get found.id = some found := PairingStore.get_of_getByKey hget
      refine .of_modify h ?_
      rintro rfl
      exact .approved hfiled hp (by simp [Provisioning.approves, hpurpose]) (hok found hget).symm
        hstage
  | redeem req =>
    rw [hpurpose] at h
    exact .of_remove h

/-- Every section takes one of these steps. -/
theorem sessionStep {a : PairingAction} (hnew : s.NewId a) (hok : s.Decisive a)
    {sess : PairingSession} (h : (s.step a).session? id = some sess) :
    SessionStep s (s.step a).created id sess := by
  cases a with
  | create now userId email ttl i code token =>
    cases email with
    | none => exact .same h
    | some email =>
      change ((s.store.cleanupExpired now).insert _).sessions.get id = some sess at h
      rw [PairingStore.sessions_insert, Dict.get_set] at h
      split at h
      · rename_i hid
        refine .opened (hid ▸ hnew) (hid ▸ List.mem_cons_self) ?_
        rw [← Option.some.inj h]
      · exact .same (PairingStore.get_cleanupExpired h)
  | claim now caller req =>
    change (s.store.claim now req).1.sessions.get id = some sess at h
    obtain ⟨e, heq⟩ | ⟨i, e, heq⟩ | ⟨found, r, hnamed, -, heq⟩ := s.store.claim_cases now req
    · rw [heq] at h
      exact .same h
    · rw [heq] at h
      exact .of_remove h
    · rw [heq] at h
      refine .of_modify h ?_
      rintro rfl
      exact .claimed (PairingStore.get_of_named hnamed) (hok found hnamed).1 (hok found hnamed).2
  | approve now userId key approved =>
    rw [PairingService.step] at h ⊢
    obtain ⟨r, -, heq⟩ | ⟨found, r, hnamed, huser, happ, -, heq⟩ | ⟨found, k, c, -, -, -, -, -, heq⟩ :=
      s.store.approve_cases now userId key approved s.approvals.length
    · rw [heq] at h
      exact .same h
    · rw [heq] at h
      refine .of_modify h ?_
      rintro rfl
      have hfree := hok found hnamed huser
      rw [happ, if_neg Bool.false_ne_true] at hfree
      exact .rejected (PairingStore.get_of_named hnamed) hfree
    · rw [heq] at h
      exact .same h
  | status now caller key => exact .same h
  | redeem now caller req =>
    rw [PairingService.step] at h ⊢
    obtain ⟨e, heq⟩ | ⟨found, result, -, -, -, heq⟩ | ⟨found, -, -, heq⟩ :=
      s.store.redeem_cases now req
    · rw [heq] at h
      exact .same h
    · rw [heq] at h
      exact .of_remove h
    · rw [heq] at h
      exact .same h
  | insertDevice p deviceId stored =>
    rw [PairingService.step] at h ⊢
    split at h
    · split at h
      · exact .same h
      · exact .same h
    · exact .same h
  | insertToken p device accessToken refreshToken stored =>
    rw [PairingService.step] at h ⊢
    split at h
    · split at h
      · exact .same h
      · exact .same h
    · exact .same h
  | finish p result =>
    rw [PairingService.step] at h ⊢
    split at h
    · rename_i hp
      exact .of_finish hp.1 hp.2 hok h
    · exact .same h

/-! ## What a section can do to a call, and to the tables -/

/-- The row is the one the call inserts. -/
structure RowOf (p : Provisioning) (row : DeviceRow) : Prop where
  info : row.info = p.purpose.info
  origin : row.origin = p.purpose.origin
  session : row.session = p.session.id

/-- How a call in flight can come out of a section. -/
inductive CallStep (s s' : PairingService) : Provisioning → Prop
  | same {p} (hp : p ∈ s.inFlight) : CallStep s s' p
  | begun {caller sess purpose} (h : s.session? sess.id = some sess)
      (hstore : s'.store = s.store) (hstatus : sess.status ≠ .rejected)
      (happrove : ∀ key candidate n, purpose = .approve key candidate n →
        sess.candidateDevice = some candidate
          ∧ s'.approvals[n]? = some (sess.id, some candidate)) :
      CallStep s s' ⟨caller, sess, purpose, .device⟩
  | device (p row) (hp : p ∈ s.inFlight) (hrow : RowOf p row) :
      CallStep s s' { p with stage := .token row }
  | token (p result) (hp : p ∈ s.inFlight) (hstage : p.stage = .token result.device)
      (hsession : result.session = p.session.id) :
      CallStep s s' { p with stage := .finish result }

/-- What a section adds to the tables: at most a device, or a token, of a call in flight. -/
structure TableStep (s s' : PairingService) : Prop where
  devices : s'.devices = s.devices
    ∨ ∃ p ∈ s.inFlight, ∃ row, RowOf p row ∧ s'.devices = s.devices ++ [row]
  tokens : s'.refreshTokens = s.refreshTokens
    ∨ ∃ p ∈ s.inFlight, ∃ row : RefreshTokenRow, row.session = p.session.id
      ∧ s'.refreshTokens = s.refreshTokens ++ [row]
  approvals : s.approvals <+: s'.approvals
  created : s.created ⊆ s'.created

/-- A section that leaves the tables alone. -/
theorem TableStep.quiet {s' : PairingService} (hd : s'.devices = s.devices)
    (ht : s'.refreshTokens = s.refreshTokens) (ha : s.approvals <+: s'.approvals)
    (hc : s.created ⊆ s'.created) : TableStep s s' :=
  ⟨Or.inl hd, Or.inl ht, ha, hc⟩

/-- What is on record stays there. -/
theorem TableStep.approvals_get {s' : PairingService} (h : TableStep s s') {n : ℕ}
    {x : Uuid × Option CandidateDevice} (hn : s.approvals[n]? = some x) :
    s'.approvals[n]? = some x := by
  obtain ⟨more, hmore⟩ := h.approvals
  rw [← hmore, List.getElem?_append_left (List.getElem?_eq_some_iff.mp hn).1, hn]

theorem callStep_of_erase {s' : PairingService} {p q : Provisioning}
    (hq : q ∈ s.inFlight.erase p) : CallStep s s' q :=
  .same (List.mem_of_mem_erase hq)

/-- Every call in flight after a section has come out of one of these steps. -/
theorem callStep {a : PairingAction} (hok : s.Decisive a) {q : Provisioning}
    (hq : q ∈ (s.step a).inFlight) : CallStep s (s.step a) q := by
  cases a with
  | create now userId email ttl i code token => cases email <;> exact .same hq
  | claim now caller req => exact .same hq
  | approve now userId key approved =>
    rw [PairingService.step] at hq ⊢
    obtain ⟨r, -, heq⟩ | ⟨found, r, -, -, -, -, heq⟩ | ⟨found, k, c, hnamed, -, huser, happ, hc, heq⟩ :=
      s.store.approve_cases now userId key approved s.approvals.length
    · rw [heq] at hq
      exact .same hq
    · rw [heq] at hq
      exact .same hq
    · have hfiled : s.session? found.id = some found := PairingStore.get_of_named hnamed
      have hstatus := hok found hnamed huser
      rw [happ, if_pos rfl] at hstatus
      rw [heq] at hq ⊢
      rcases List.mem_cons.mp hq with rfl | hq
      · refine .begun hfiled rfl hstatus ?_
        rintro _ _ _ ⟨⟩
        refine ⟨hc, ?_⟩
        change (s.approvals ++ [(found.id, (s.session? found.id).bind _)])[s.approvals.length]? = _
        rw [List.getElem?_concat_length, hfiled, Option.bind_some, hc]
      · exact .same hq
  | status now caller key => exact .same hq
  | redeem now caller req =>
    rw [PairingService.step] at hq ⊢
    obtain ⟨e, heq⟩ | ⟨found, result, -, -, -, heq⟩ | ⟨found, hnamed, hstatus, heq⟩ :=
      s.store.redeem_cases now req
    · rw [heq] at hq
      exact .same hq
    · rw [heq] at hq
      exact .same hq
    · rw [heq] at hq ⊢
      rcases List.mem_cons.mp hq with rfl | hq
      · refine .begun (PairingStore.get_of_named hnamed) rfl hstatus ?_
        rintro _ _ _ ⟨⟩
      · exact .same hq
  | insertDevice p deviceId stored =>
    rw [PairingService.step] at hq ⊢
    split at hq
    · rename_i hp
      split at hq
      · rcases List.mem_cons.mp hq with rfl | hq
        · exact .device p _ hp.1 ⟨rfl, rfl, rfl⟩
        · exact callStep_of_erase hq
      · exact callStep_of_erase hq
    · exact .same hq
  | insertToken p device accessToken refreshToken stored =>
    rw [PairingService.step] at hq ⊢
    split at hq
    · rename_i hp
      split at hq
      · rcases List.mem_cons.mp hq with rfl | hq
        · exact .token p _ hp.1 hp.2 rfl
        · exact callStep_of_erase hq
      · exact callStep_of_erase hq
    · exact .same hq
  | finish p result =>
    rw [PairingService.step] at hq ⊢
    split at hq
    · exact callStep_of_erase hq
    · exact .same hq

/-- Every section changes the tables by one of these steps. -/
theorem tableStep (s : PairingService) (a : PairingAction) : TableStep s (s.step a) := by
  have hpre : s.approvals <+: s.approvals := List.prefix_refl _
  have hsub : s.created ⊆ s.created := List.Subset.refl _
  cases a with
  | create now userId email ttl i code token =>
    cases email with
    | none => exact .quiet rfl rfl hpre hsub
    | some email => exact .quiet rfl rfl hpre (List.subset_cons_self _ _)
  | claim now caller req => exact .quiet rfl rfl hpre hsub
  | approve now userId key approved =>
    rw [PairingService.step]
    obtain ⟨r, -, heq⟩ | ⟨found, r, -, -, -, -, heq⟩ | ⟨found, k, c, -, -, -, -, -, heq⟩ :=
      s.store.approve_cases now userId key approved s.approvals.length
    · rw [heq]
      exact .quiet rfl rfl hpre hsub
    · rw [heq]
      exact .quiet rfl rfl hpre hsub
    · rw [heq]
      exact .quiet rfl rfl (List.prefix_append _ _) hsub
  | status now caller key => exact .quiet rfl rfl hpre hsub
  | redeem now caller req =>
    rw [PairingService.step]
    obtain ⟨e, heq⟩ | ⟨found, result, -, -, -, heq⟩ | ⟨found, -, -, heq⟩ :=
      s.store.redeem_cases now req
    · rw [heq]
      exact .quiet rfl rfl hpre hsub
    · rw [heq]
      exact .quiet rfl rfl hpre hsub
    · rw [heq]
      exact .quiet rfl rfl hpre hsub
  | insertDevice p deviceId stored =>
    rw [PairingService.step]
    split
    · rename_i hp
      split
      · exact ⟨Or.inr ⟨p, hp.1, _, ⟨rfl, rfl, rfl⟩, rfl⟩, Or.inl rfl, hpre, hsub⟩
      · exact .quiet rfl rfl hpre hsub
    · exact .quiet rfl rfl hpre hsub
  | insertToken p device accessToken refreshToken stored =>
    rw [PairingService.step]
    split
    · rename_i hp
      split
      · exact ⟨Or.inl rfl, Or.inr ⟨p, hp.1, _, rfl, rfl⟩, hpre, hsub⟩
      · exact .quiet rfl rfl hpre hsub
    · exact .quiet rfl rfl hpre hsub
  | finish p result =>
    rw [PairingService.step]
    split
    · exact .quiet rfl rfl hpre hsub
    · exact .quiet rfl rfl hpre hsub

/-! ## What holds in every state -/

/-- The ids in use, what is known of the calls in flight and of the device rows, and what an
approved session shows. -/
structure Sound (s : PairingService) : Prop where
  known : ∀ id sess, s.session? id = some sess → id ∈ s.created
  flying : ∀ p ∈ s.inFlight, p.session.id ∈ s.created
  /-- A rejected session has no call in flight. -/
  open_ : ∀ p ∈ s.inFlight, ∀ sess, s.session? p.session.id = some sess → sess.status ≠ .rejected
  approving : ∀ p ∈ s.inFlight, ∀ key candidate n, p.purpose = .approve key candidate n →
    s.approvals[n]? = some (p.session.id, some candidate)
      ∧ ∀ sess, s.session? p.session.id = some sess → sess.candidateDevice = some candidate
  holdsDevice : ∀ p ∈ s.inFlight, ∀ row, p.stage = .token row → RowOf p row
  holdsTokens : ∀ p ∈ s.inFlight, ∀ result, p.stage = .finish result →
    RowOf p result.device ∧ result.session = p.session.id
  provisioned : ∀ row ∈ s.devices, ∀ n, row.origin = .approval n →
    ∃ candidate, s.approvals[n]? = some (row.session, some candidate) ∧ row.info = candidate.info
  shown : ∀ id sess, s.session? id = some sess → sess.status = .approved →
    ∃ candidate result n, sess.candidateDevice = some candidate ∧ sess.redeemResult = some result
      ∧ result.session = id ∧ result.device.info = candidate.info
      ∧ result.device.origin = .approval n

theorem sound_start : start.Sound where
  known _ _ h := nomatch h
  flying _ hp := nomatch hp
  open_ _ hp := nomatch hp
  approving _ hp := nomatch hp
  holdsDevice _ hp := nomatch hp
  holdsTokens _ hp := nomatch hp
  provisioned _ hrow := nomatch hrow
  shown _ _ h := nomatch h

/-- Only an approval inserts a row of an approval. -/
theorem purpose_of_origin {p : Provisioning} {n : ℕ} (h : p.purpose.origin = .approval n) :
    ∃ key candidate, p.purpose = .approve key candidate n := by
  cases hp : p.purpose with
  | approve key candidate m =>
    rw [hp] at h
    obtain rfl : m = n := Origin.approval.inj h
    exact ⟨key, candidate, rfl⟩
  | redeem req => rw [hp] at h; cases h

theorem purpose_of_approves {p : Provisioning} (h : p.approves = true) :
    ∃ key candidate n, p.purpose = .approve key candidate n := by
  unfold Provisioning.approves at h
  split at h
  · rename_i key candidate n hp
    exact ⟨key, candidate, n, hp⟩
  · cases h

section Step

variable {s' : PairingService} (hs : s.Sound)
  (hsession : ∀ {id sess}, s'.session? id = some sess → SessionStep s s'.created id sess)
  (hcall : ∀ {q}, q ∈ s'.inFlight → CallStep s s' q) (htable : TableStep s s')

include hs hsession

/-- A call that was in flight finds its session neither rejected nor, if it approves, claimed by
another device. -/
theorem Sound.session_of_flying {p : Provisioning} (hp : p ∈ s.inFlight) {sess : PairingSession}
    (hget : s'.session? p.session.id = some sess) :
    sess.status ≠ .rejected ∧ ∀ key candidate n, p.purpose = .approve key candidate n →
      sess.candidateDevice = some candidate := by
  have hcand := fun key candidate n hpurpose => (hs.approving p hp key candidate n hpurpose).2
  cases hsession hget with
  | same h => exact ⟨hs.open_ p hp _ h, fun key candidate n hpurpose =>
      hcand key candidate n hpurpose _ h⟩
  | opened hid hcreated hstatus => exact absurd (hs.flying p hp) hid
  | claimed h hopen hfree =>
    refine ⟨nofun, fun key candidate n hpurpose => ?_⟩
    have := hfree p hp rfl
    simp [Provisioning.approves, hpurpose] at this
  | rejected h hfree => exact absurd rfl (hfree p hp)
  | approved h hq happroves hid hstage =>
    refine ⟨nofun, fun key candidate n hpurpose => ?_⟩
    have := hcand key candidate n hpurpose _ h
    exact this

include htable

/-- An approval in flight stays on record, and its session shows its candidate. -/
theorem Sound.approving_of_flying {p : Provisioning} (hp : p ∈ s.inFlight) {key : String}
    {candidate : CandidateDevice} {n : ℕ} (hpurpose : p.purpose = .approve key candidate n) :
    s'.approvals[n]? = some (p.session.id, some candidate)
      ∧ ∀ sess, s'.session? p.session.id = some sess → sess.candidateDevice = some candidate :=
  ⟨htable.approvals_get (hs.approving p hp key candidate n hpurpose).1,
    fun _ hget => (hs.session_of_flying hsession hp hget).2 key candidate n hpurpose⟩

include hcall

theorem Sound.of_steps : s'.Sound where
  known id sess hget := by
    cases hsession hget with
    | same h => exact htable.created (hs.known _ _ h)
    | opened hid hcreated hstatus => exact hcreated
    | claimed h hopen hfree => exact htable.created (hs.known _ _ h)
    | rejected h hfree => exact htable.created (hs.known _ _ h)
    | approved h hp happroves hid hstage => exact htable.created (hs.known _ _ h)
  flying q hq := by
    cases hcall hq with
    | same hp => exact htable.created (hs.flying _ hp)
    | begun h hstore hstatus happrove => exact htable.created (hs.known _ _ h)
    | device p row hp hrow => exact htable.created (hs.flying p hp)
    | token p result hp hstage hsess => exact htable.created (hs.flying p hp)
  open_ q hq sess hget := by
    cases hcall hq with
    | same hp => exact (hs.session_of_flying hsession hp hget).1
    | begun h hstore hstatus happrove =>
      rw [session?, hstore] at hget
      exact Option.some.inj (h.symm.trans hget) ▸ hstatus
    | device p row hp hrow => exact (hs.session_of_flying hsession hp hget).1
    | token p result hp hstage hsess =>
      exact (hs.session_of_flying hsession hp hget).1
  approving q hq key candidate n hpurpose := by
    cases hcall hq with
    | same hp => exact hs.approving_of_flying hsession htable hp hpurpose
    | begun h hstore hstatus happrove =>
      refine ⟨(happrove key candidate n hpurpose).2, fun sess hget => ?_⟩
      rw [session?, hstore] at hget
      exact Option.some.inj (h.symm.trans hget) ▸ (happrove key candidate n hpurpose).1
    | device p row hp hrow => exact hs.approving_of_flying hsession htable hp hpurpose
    | token p result hp hstage hsess =>
      exact hs.approving_of_flying hsession htable hp hpurpose
  holdsDevice q hq row hstage := by
    cases hcall hq with
    | same hp => exact hs.holdsDevice _ hp row hstage
    | begun h hstore hstatus happrove => cases hstage
    | device p row' hp hrow => exact Stage.token.inj hstage ▸ ⟨hrow.info, hrow.origin, hrow.session⟩
    | token p result hp hstage' hsess => cases hstage
  holdsTokens q hq result hstage := by
    cases hcall hq with
    | same hp => exact hs.holdsTokens _ hp result hstage
    | begun h hstore hstatus happrove => cases hstage
    | device p row hp hrow => cases hstage
    | token p result' hp hstage' hsess =>
      obtain rfl := Stage.finish.inj hstage
      have hrow := hs.holdsDevice p hp _ hstage'
      exact ⟨⟨hrow.info, hrow.origin, hrow.session⟩, hsess⟩
  provisioned row hrow n horigin := by
    have hold : row ∈ s.devices → ∃ candidate,
        s'.approvals[n]? = some (row.session, some candidate) ∧ row.info = candidate.info := by
      intro hrow
      obtain ⟨candidate, happ, hinfo⟩ := hs.provisioned row hrow n horigin
      exact ⟨candidate, htable.approvals_get happ, hinfo⟩
    rcases htable.devices with heq | ⟨p, hp, row', hrow', heq⟩
    · exact hold (heq ▸ hrow)
    · rw [heq, List.mem_append, List.mem_singleton] at hrow
      rcases hrow with hrow | rfl
      · exact hold hrow
      · obtain ⟨key, candidate, hpurpose⟩ := purpose_of_origin (hrow'.origin ▸ horigin)
        refine ⟨candidate, ?_, ?_⟩
        · rw [hrow'.session]
          exact (hs.approving_of_flying hsession htable hp hpurpose).1
        · rw [hrow'.info, hpurpose]
          rfl
  shown id sess hget hstatus := by
    cases hsession hget with
    | same h => exact hs.shown _ _ h hstatus
    | opened hid hcreated hpending => rw [hpending] at hstatus; cases hstatus
    | claimed h hopen hfree => cases hstatus
    | rejected h hfree => cases hstatus
    | approved h hp happroves hid hstage =>
      obtain ⟨key, candidate, n, hpurpose⟩ := purpose_of_approves happroves
      obtain ⟨hrow, hsess⟩ := hs.holdsTokens _ hp _ hstage
      refine ⟨candidate, _, n, ?_, rfl, hsess.trans hid, ?_, ?_⟩
      · have := (hs.approving _ hp key candidate n hpurpose).2 _ (hid ▸ h)
        exact this
      · rw [hrow.info, hpurpose]
        rfl
      · rw [hrow.origin, hpurpose]
        rfl

end Step

theorem Sound.step (hs : s.Sound) {a : PairingAction} (hnew : s.NewId a) (hok : s.Decisive a) :
    (s.step a).Sound :=
  hs.of_steps (sessionStep hnew hok) (callStep hok) (tableStep s a)

/-! ## From an earlier state to a later one -/

/-- The session was rejected: nothing more is provisioned for it. -/
structure Closed (s : PairingService) (id : Uuid) : Prop where
  created : id ∈ s.created
  quiet : ∀ p ∈ s.inFlight, p.session.id ≠ id
  rejected : ∀ sess, s.session? id = some sess → sess.status = .rejected

theorem Closed.step (h : s.Closed id) {a : PairingAction} (hnew : s.NewId a)
    (hok : s.Decisive a) : (s.step a).Closed id where
  created := (tableStep s a).created h.created
  quiet q hq := by
    cases callStep hok hq with
    | same hp => exact h.quiet _ hp
    | begun hfiled hstore hstatus happrove =>
      rintro rfl
      exact hstatus (h.rejected _ hfiled)
    | device p row hp hrow => exact h.quiet p hp
    | token p result hp hstage hsess => exact h.quiet p hp
  rejected sess hget := by
    cases sessionStep hnew hok hget with
    | same hold => exact h.rejected _ hold
    | opened hid hcreated hstatus => exact absurd h.created hid
    | claimed hold hopen hfree =>
      have hrejected := h.rejected _ hold
      simp [PairingSession.decided, hrejected] at hopen
    | rejected hold hfree => rfl
    | approved hold hp happroves hid hstage => exact absurd hid (h.quiet _ hp)

/-- Nothing is inserted for a session without calls. -/
theorem Closed.rows (h : s.Closed id) (a : PairingAction) :
    (s.step a).devicesOf id = s.devicesOf id ∧ (s.step a).tokensOf id = s.tokensOf id := by
  have htable := tableStep s a
  constructor
  · rcases htable.devices with heq | ⟨p, hp, row, hrow, heq⟩
    · rw [devicesOf, heq, devicesOf]
    · have hne : row.session ≠ id := hrow.session ▸ h.quiet p hp
      rw [devicesOf, heq, List.filter_append, List.filter_cons_of_neg (by simpa using hne),
        List.filter_nil, List.append_nil, devicesOf]
  · rcases htable.tokens with heq | ⟨p, hp, row, hrow, heq⟩
    · rw [tokensOf, heq, tokensOf]
    · have hne : row.session ≠ id := hrow ▸ h.quiet p hp
      rw [tokensOf, heq, List.filter_append, List.filter_cons_of_neg (by simpa using hne),
        List.filter_nil, List.append_nil, tokensOf]

/-- The session was decided about a candidate, and possibly rejected since. -/
structure Settled (s : PairingService) (id : Uuid) (candidate : Option CandidateDevice)
    (status : PairingStatus) : Prop where
  created : id ∈ s.created
  shown : ∀ sess, s.session? id = some sess → sess.candidateDevice = candidate
    ∧ (sess.status = status ∨ sess.status = .rejected)

theorem Settled.step (hs : s.Sound) {candidate : Option CandidateDevice} {status : PairingStatus}
    (hstatus : status = .approved ∨ status = .rejected) (h : s.Settled id candidate status)
    {a : PairingAction} (hnew : s.NewId a) (hok : s.Decisive a) :
    (s.step a).Settled id candidate status where
  created := (tableStep s a).created h.created
  shown sess hget := by
    cases sessionStep hnew hok hget with
    | same hold => exact h.shown _ hold
    | opened hid hcreated hstatus => exact absurd h.created hid
    | claimed hold hopen hfree =>
      rcases (h.shown _ hold).2 with heq | heq
      · rcases hstatus with rfl | rfl <;> simp [PairingSession.decided, heq] at hopen
      · simp [PairingSession.decided, heq] at hopen
    | rejected hold hfree => exact ⟨(h.shown _ hold).1, Or.inr rfl⟩
    | approved hold hp happroves hid hstage =>
      refine ⟨(h.shown _ hold).1, ?_⟩
      have hopen := hs.open_ _ hp _ (hid ▸ hold)
      rcases hstatus with rfl | rfl
      · exact Or.inl rfl
      · exact absurd (or_self_iff.mp (h.shown _ hold).2) hopen

/-- **A decision is kept**, from any state of a run to any later one, as long as every section is
decisive and the ids are new. -/
theorem decisionKept_of_run {as bs : List PairingAction}
    (h : Along (fun s a => s.NewId a ∧ s.Decisive a) step start (as ++ bs)) :
    DecisionKept (run step start as) (run step start (as ++ bs)) := by
  obtain ⟨has, hbs⟩ := Along.append_iff.mp h
  have hstep : ∀ (s : PairingService) a, s.Sound → s.NewId a ∧ s.Decisive a → (s.step a).Sound :=
    fun s a hs hok => hs.step hok.1 hok.2
  have hmid : (run step start as).Sound := has.invariant hstep sound_start
  have hend : (run step start (as ++ bs)).Sound := h.invariant hstep sound_start
  rw [run_append] at hend ⊢
  generalize run step start as = s at hmid hbs hend ⊢
  refine ⟨?_, ?_, hend.provisioned, hend.shown⟩
  · intro id sess hget hrejected
    have hclosed : s.Closed id := by
      refine ⟨hmid.known id sess hget, ?_, ?_⟩
      · rintro p hp rfl
        exact hmid.open_ p hp sess hget hrejected
      · intro sess' hget'
        rw [← Option.some.inj (hget.symm.trans hget'), hrejected]
    have hinv := hbs.invariant
      (P := fun t : PairingService => t.Closed id ∧ t.devicesOf id = s.devicesOf id
        ∧ t.tokensOf id = s.tokensOf id)
      (fun t a ht hok => ⟨ht.1.step hok.1 hok.2, (ht.1.rows a).1.trans ht.2.1,
        (ht.1.rows a).2.trans ht.2.2⟩)
      ⟨hclosed, rfl, rfl⟩
    exact hinv.2
  · intro id sess sess' hget hdecided hget'
    have hstatus : sess.status = .approved ∨ sess.status = .rejected := by
      simpa [PairingSession.decided] using hdecided
    have hsettled : s.Settled id sess.candidateDevice sess.status := by
      refine ⟨hmid.known id sess hget, fun sess₀ hget₀ => ?_⟩
      rw [← Option.some.inj (hget.symm.trans hget₀)]
      exact ⟨rfl, Or.inl rfl⟩
    have hinv := hbs.invariant
      (P := fun t : PairingService => t.Sound ∧ t.Settled id sess.candidateDevice sess.status)
      (fun t a ht hok => ⟨ht.1.step hok.1 hok.2, ht.2.step ht.1 hstatus hok.1 hok.2⟩)
      ⟨hmid, hsettled⟩
    exact hinv.2.shown sess' hget'

end PairingService

end Pcos
