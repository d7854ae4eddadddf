import Pcos.Backend.Decisions
import Pcos.Edge.Agreement

/-!
# Edge/Decisions — the owner decides, at the edge as in the backend

At the edge a decision is written to D1 and then to the hub, and so is a claim, the other way round;
neither looks at what is there.  `Decisive` rules out, section by section, what would overwrite a
decision or slip a candidate in between (`Backend/Decisions` does so for the backend).  A rejected
session is then closed for good (`Closed`), and an approval in flight keeps the candidate it was
asked for on record in both stores (`Approving`).
-/

namespace Pcos.Edge

open Foundations

/-- The candidate on record in D1. -/
def PairingRow.recorded (row : PairingRow) : Option Candidate :=
  row.candidateDeviceJson.map (·.candidate)

theorem candidate_of_recorded {row : PairingRow} {candidate : Candidate}
    (h : row.recorded = some candidate) : row.candidate = candidate := by
  rw [PairingRow.candidate, show row.candidateDeviceJson.map (·.candidate) = _ from h]
  rfl

/-- The request approves, or is about to insert a device or a token. -/
def Stage.provisions (stage : Stage) : Bool :=
  stage.approves || stage.starts stage.session || stage.holds stage.session

/-- The request is about to open or to decide a session in the hub. -/
def Stage.tellsHub : Stage → Bool
  | .pairCreate _ _ => true
  | .rejectHub _ _ => true
  | .approveHub _ _ _ => true
  | _ => false

/-- The request is about to open the session in the hub. -/
def Stage.creates (id : String) : Stage → Bool
  | .pairCreate row _ => row.id = id
  | _ => false

namespace EdgeState

variable {s s' : EdgeState} {a : EdgeAction} {id : String} {c : Call} {d : Draw}

/-- A claim of the session has reached the hub, and not D1. -/
def Claiming (s : EdgeState) (id : String) : Prop :=
  ∃ c ∈ s.inFlight, c.stage.claims = true ∧ c.stage.session = id

/-- **The decision is final and about the device shown**, from an earlier state of a run to a later
one. -/
structure DecisionKept (s s' : EdgeState) : Prop where
  /-- A session rejected in either store leads to no device and to no token. -/
  rejected : ∀ id, (∃ row ∈ s.rows, row.id = id ∧ row.status = .rejected)
      ∨ (∃ g, s.hub.sessions.get id = some g ∧ g.status = .rejected) →
    s'.devicesOf id = s.devicesOf id ∧ s'.tokensOf id = s.tokensOf id
  /-- The candidate of a decided row stays, and its status, unless the owner rejects it. -/
  stays : ∀ row ∈ s.rows, row.status.decided = true → ∀ row' ∈ s'.rows, row'.id = row.id →
    row'.recorded = row.recorded ∧ (row'.status = row.status ∨ row'.status = .rejected)
  /-- So it is in the hub. -/
  staysHub : ∀ i g g', s.hub.sessions.get i = some g → g.status.decided = true →
    s'.hub.sessions.get i = some g' →
      g'.candidateDevice = g.candidateDevice ∧ (g'.status = g.status ∨ g'.status = .rejected)
  /-- An approval provisions the candidate that was on record when it was asked for. -/
  provisioned : ∀ row ∈ s'.devices, ∀ n, row.origin = .approval n → ∃ approval ∈ s'.approvals,
    ∃ candidate, approval.number = n ∧ approval.session = row.session
      ∧ approval.row = some candidate ∧ (∀ shown ∈ approval.hub, shown = candidate)
      ∧ row.info = candidate.info
  /-- An approved row shows the device that was provisioned for it. -/
  shown : ∀ row ∈ s'.rows, row.status = .approved → ∃ candidate result device,
    row.candidateDeviceJson = some ⟨candidate, some result⟩ ∧ device ∈ s'.devices
      ∧ device.session = row.id ∧ device.id = result.deviceId ∧ device.info = candidate.info
  /-- So does an approved session of the hub. -/
  shownHub : ∀ i g, s'.hub.sessions.get i = some g → g.status = .approved →
    ∃ candidate, ∃ device ∈ s'.devices, g.candidateDevice = some candidate
      ∧ device.session = i ∧ device.info = candidate.info

/-- `crypto.randomUUID` gives a session an id that none has had. -/
def NewId (s : EdgeState) : EdgeAction → Prop
  | .begin (.pair _ _) d => ∀ row ∈ s.opened, row.id ≠ d.keys.id
  | _ => True

instance (s : EdgeState) : ∀ a, Decidable (s.NewId a)
  | .begin (.pair _ _) d => inferInstanceAs (Decidable (∀ row ∈ s.opened, row.id ≠ d.keys.id))
  | .begin (.claim _ _) _ => inferInstanceAs (Decidable True)
  | .begin (.approve _ _ _ _) _ => inferInstanceAs (Decidable True)
  | .begin (.redeem _) _ => inferInstanceAs (Decidable True)
  | .resume _ _ => inferInstanceAs (Decidable True)

/-- The session a claim finds in the hub is undecided, and not being approved. -/
def ClaimOpen (s : EdgeState) (ip : Option String) (body : DeviceBody) (d : Draw) : Prop :=
  (s.hub.cleanupExpired d.now).blockedFor d.now (clientIp (some (ip.getD "")) none) = none →
    ∀ key ∈ bodyKey body.enrollmentToken body.pairingCode,
      ∀ e ∈ (s.hub.cleanupExpired d.now).find key, e.2.status.decided = false
        ∧ ∀ c ∈ s.inFlight, c.stage.session = e.1 → c.stage.approves = false

/-- The row a claim is recorded in is that of its session and undecided, and the hub has no later
candidate, unless that is on its way. -/
def RecordOpen (s : EdgeState) (c : Call) (key : String) (candidate : Candidate)
    (session : HubSession) : Prop :=
  (∀ row ∈ s.rows, row.named key = true ↔ row.id = session.id)
    ∧ (∀ row ∈ s.rows, row.named key = true → row.status.decided = false)
    ∧ ∀ g ∈ s.hub.sessions.get session.id, g.candidateDevice = some candidate
      ∨ ∃ c' ∈ s.inFlight.erase c, c'.stage.claims = true ∧ c'.stage.session = session.id

/-- The row that an approval finds is not rejected, and holds a candidate that no claim is about to
replace. -/
def ApprovalOpen (s : EdgeState) (user token code : Option String) : Prop :=
  ∀ key ∈ bodyKey token code, ∀ row ∈ s.select key, user = some row.userId →
    row.status ≠ .rejected ∧ row.candidateDeviceJson ≠ none
      ∧ ∀ c ∈ s.inFlight, c.stage.claims = true → c.stage.session ≠ row.id

/-- No claim touches what is decided or being approved, no approval what is rejected or being
claimed, no rejection what is being provisioned, and a decision reaches no other session. -/
def Decisive (s : EdgeState) : EdgeAction → Prop
  | .begin (.claim ip body) d => s.ClaimOpen ip body d
  | .begin (.approve user token code true) _ => s.ApprovalOpen user token code
  | .resume ⟨n, request, .claimRecord key candidate session⟩ _ =>
    s.RecordOpen ⟨n, request, .claimRecord key candidate session⟩ key candidate session
  | .resume ⟨_, _, .rejectRow _ row⟩ _ =>
    ∀ c ∈ s.inFlight, c.stage.session = row.id → c.stage.provisions = false
  | .resume ⟨_, _, .rejectHub key row⟩ d =>
    ∀ e ∈ (s.hub.cleanupExpired d.now).find key, e.1 = row.id
  | .resume ⟨_, _, .approveHub key row _⟩ d =>
    ∀ e ∈ (s.hub.cleanupExpired d.now).find key, e.1 = row.id
  | _ => True

instance (s : EdgeState) : ∀ a, Decidable (s.Decisive a)
  | .begin (.claim ip body) d => inferInstanceAs <| Decidable <|
    (s.hub.cleanupExpired d.now).blockedFor d.now (clientIp (some (ip.getD "")) none) = none →
      ∀ key ∈ bodyKey body.enrollmentToken body.pairingCode,
        ∀ e ∈ (s.hub.cleanupExpired d.now).find key, e.2.status.decided = false
          ∧ ∀ c ∈ s.inFlight, c.stage.session = e.1 → c.stage.approves = false
  | .begin (.approve user token code true) _ => inferInstanceAs <| Decidable <|
    ∀ key ∈ bodyKey token code, ∀ row ∈ s.select key, user = some row.userId →
      row.status ≠ .rejected ∧ row.candidateDeviceJson ≠ none
        ∧ ∀ c ∈ s.inFlight, c.stage.claims = true → c.stage.session ≠ row.id
  | .resume ⟨n, request, .claimRecord key candidate session⟩ _ => inferInstanceAs <| Decidable <|
    (∀ row ∈ s.rows, row.named key = true ↔ row.id = session.id)
      ∧ (∀ row ∈ s.rows, row.named key = true → row.status.decided = false)
      ∧ ∀ g ∈ s.hub.sessions.get session.id, g.candidateDevice = some candidate
        ∨ ∃ c' ∈ s.inFlight.erase ⟨n, request, .claimRecord key candidate session⟩,
          c'.stage.claims = true ∧ c'.stage.session = session.id
  | .resume ⟨_, _, .rejectRow _ row⟩ _ => inferInstanceAs <| Decidable <|
    ∀ c ∈ s.inFlight, c.stage.session = row.id → c.stage.provisions = false
  | .resume ⟨_, _, .rejectHub key row⟩ d => inferInstanceAs <| Decidable <|
    ∀ e ∈ (s.hub.cleanupExpired d.now).find key, e.1 = row.id
  | .resume ⟨_, _, .approveHub key row _⟩ d => inferInstanceAs <| Decidable <|
    ∀ e ∈ (s.hub.cleanupExpired d.now).find key, e.1 = row.id
  | .begin (.approve _ _ _ false) _ => inferInstanceAs (Decidable True)
  | .begin (.pair _ _) _ => inferInstanceAs (Decidable True)
  | .begin (.redeem _) _ => inferInstanceAs (Decidable True)
  | .resume ⟨_, _, .pairCreate _ _⟩ _ => inferInstanceAs (Decidable True)
  | .resume ⟨_, _, .approveDevice _ _⟩ _ => inferInstanceAs (Decidable True)
  | .resume ⟨_, _, .approveToken _ _ _⟩ _ => inferInstanceAs (Decidable True)
  | .resume ⟨_, _, .approveRow _ _ _⟩ _ => inferInstanceAs (Decidable True)
  | .resume ⟨_, _, .redeemDelete _ _ _ _⟩ _ => inferInstanceAs (Decidable True)
  | .resume ⟨_, _, .redeemConsume _ _ _ _⟩ _ => inferInstanceAs (Decidable True)
  | .resume ⟨_, _, .redeemDevice _ _⟩ _ => inferInstanceAs (Decidable True)
  | .resume ⟨_, _, .redeemToken _ _ _⟩ _ => inferInstanceAs (Decidable True)

/-! ## What stays from one section to the next -/

/-- A session with this id has been opened. -/
def Opened (s : EdgeState) (id : String) : Prop := ∃ row ∈ s.opened, row.id = id

theorem Opened.step (h : s.Opened id) (a : EdgeAction) : (s.step a).Opened id := by
  obtain ⟨row, hrow, hid⟩ := h
  cases a with
  | begin request d => exact ⟨row, (entered s request d).opened.subset hrow, hid⟩
  | resume c d =>
    by_cases hc : c ∈ s.inFlight
    · obtain ⟨next, ds, ts, hr⟩ := resumed hc d
      exact ⟨row, hr.opened ▸ hrow, hid⟩
    · rw [step_resume_of_notMem hc]
      exact ⟨row, hrow, hid⟩

/-- An id in use is not drawn again. -/
theorem Opened.not_new (h : s.Opened id) (hnew : s.NewId a) {user : Option String}
    {expires : Option ℤ} (ha : a = .begin (.pair user expires) d) : id ≠ d.keys.id := by
  subst ha
  obtain ⟨row, hrow, rfl⟩ := h
  exact hnew row hrow

theorem approvals_step {approval : Approval} (h : approval ∈ s.approvals) (a : EdgeAction) :
    approval ∈ (s.step a).approvals := by
  cases a with
  | begin request d => exact (entered s request d).approvals.subset h
  | resume c d =>
    by_cases hc : c ∈ s.inFlight
    · obtain ⟨next, ds, ts, hr⟩ := resumed hc d
      exact hr.approvals ▸ h
    · rwa [step_resume_of_notMem hc]

theorem devices_step {device : DeviceRow} (h : device ∈ s.devices) (a : EdgeAction) :
    device ∈ (s.step a).devices := by
  cases a with
  | begin request d => exact (entered s request d).devices ▸ h
  | resume c d =>
    by_cases hc : c ∈ s.inFlight
    · obtain ⟨next, ds, ts, hr⟩ := resumed hc d
      exact hr.devices ▸ List.mem_append_left _ h
    · rwa [step_resume_of_notMem hc]

/-- A call stays in flight until it is resumed. -/
theorem stays_inFlight (hc : c ∈ s.inFlight) (ha : ∀ d, a ≠ .resume c d) :
    c ∈ (s.step a).inFlight := by
  cases a with
  | begin request d =>
    rcases (entered s request d).outcome with ⟨stage, hflight, -⟩ | ⟨r, hflight, -⟩
    · exact hflight ▸ List.mem_cons_of_mem _ hc
    · exact hflight ▸ hc
  | resume c' d =>
    by_cases hc' : c' ∈ s.inFlight
    · obtain ⟨next, ds, ts, hr⟩ := resumed hc' d
      rw [hr.inFlight]
      refine List.mem_append_right _ ((List.mem_erase_of_ne ?_).mpr hc)
      rintro rfl
      exact ha d rfl
    · rwa [step_resume_of_notMem hc']

theorem Next.not_claims {n : ℕ} {stage stage' : Stage} {ds : List DeviceRow} {ts : List TokenRow}
    (h : Next n stage (some stage') ds ts) : stage'.claims = false := by
  cases h <;> rfl

theorem Next.row_eq {n : ℕ} {stage stage' : Stage} {ds : List DeviceRow} {ts : List TokenRow}
    (h : Next n stage (some stage') ds ts) : stage'.row? = stage.row? := by
  cases h <;> rfl

/-- What provisions has provisioned, or was about to. -/
theorem Next.provisions_of {n : ℕ} {stage stage' : Stage} {ds : List DeviceRow}
    {ts : List TokenRow} (h : Next n stage (some stage') ds ts) (hp : stage.provisions = false) :
    stage'.provisions = false := by
  cases h with
  | deleted => simpa [Stage.provisions, Stage.approves, Stage.starts, Stage.holds, Stage.session]
      using hp
  | again hresult => simp [Stage.provisions, Stage.starts, Stage.session, hresult] at hp
  | consumed => simp [Stage.provisions, Stage.starts, Stage.session] at hp
  | enrolled => simp [Stage.provisions, Stage.starts, Stage.session] at hp
  | _ => first | rfl | cases hp

theorem Stage.starts_of_ne {stage : Stage} (h : stage.session ≠ id) : stage.starts id = false := by
  cases stage with
  | approveDevice key row => exact decide_eq_false h
  | redeemDelete key row body approved =>
    rw [Stage.starts, decide_eq_false (p := row.id = id) h, Bool.false_and]
  | redeemConsume key row body approved =>
    rw [Stage.starts, decide_eq_false (p := row.id = id) h, Bool.false_and]
  | redeemDevice row body => exact decide_eq_false h
  | _ => rfl

theorem Stage.holds_of_ne {stage : Stage} (h : stage.session ≠ id) : stage.holds id = false := by
  cases stage with
  | approveToken key row device => exact decide_eq_false h
  | redeemToken row body device => exact decide_eq_false h
  | _ => rfl

theorem Stage.session_of_row {stage : Stage} {row : PairingRow} (h : row ∈ stage.row?) :
    stage.session = row.id := by
  cases stage <;> cases h <;> rfl

/-- The rows that an UPDATE picks have all been changed. -/
theorem exists_of_mem_updateRows {p : PairingRow → Bool} {f : PairingRow → PairingRow}
    {row : PairingRow} (h : row ∈ (s.updateRows p f).rows) (hp : p row = true) :
    ∃ r ∈ s.rows, row = f r := by
  rcases mem_updateRows h with ⟨-, hno⟩ | ⟨r, hr, -, heq⟩
  · cases hp.symm.trans hno
  · exact ⟨r, hr, heq⟩

theorem rows_of_claimRecord {key : String} {candidate : Candidate} {session : HubSession}
    {row : PairingRow} (hc : c ∈ s.inFlight) (hstage : c.stage = .claimRecord key candidate session)
    (hrow : row ∈ (s.step (.resume c d)).rows) (hkey : row.named key = true) :
    row.recorded = some candidate := by
  rw [step, if_pos hc, resume, hstage] at hrow
  obtain ⟨r, -, rfl⟩ := exists_of_mem_updateRows hrow hkey
  rfl

theorem rows_of_rejectRow {key : String} {r row : PairingRow} (hc : c ∈ s.inFlight)
    (hstage : c.stage = .rejectRow key r) (hrow : row ∈ (s.step (.resume c d)).rows)
    (hid : row.id = r.id) : row.status = .rejected := by
  rw [step, if_pos hc, resume, hstage] at hrow
  obtain ⟨r', -, rfl⟩ := exists_of_mem_updateRows hrow (decide_eq_true hid)
  rfl

/-- The ids of the rows stay distinct. -/
theorem nodup_rows (h : (s.rows.map PairingRow.id).Nodup) (a : EdgeAction) :
    ((s.step a).rows.map PairingRow.id).Nodup := by
  have hupdate : ∀ (t : EdgeState) (p : PairingRow → Bool) (f : PairingRow → PairingRow),
      (∀ r, (f r).id = r.id) → (t.updateRows p f).rows.map PairingRow.id
        = t.rows.map PairingRow.id := by
    intro t p f hf
    rw [updateRows, List.map_map]
    refine List.map_congr_left fun r _ => ?_
    rw [Function.comp_apply]
    split
    · exact hf r
    · rfl
  cases a with
  | begin request d =>
    have hbegun := begun s request d
    change ((s.begin request d).rows.map PairingRow.id).Nodup
    generalize s.begin request d = s' at hbegun
    cases hbegun with
    | @paired userId expires ttl row hrow hnew =>
      change ((s.rows ++ [row]).map PairingRow.id).Nodup
      rw [List.map_append, List.map_singleton, List.nodup_append]
      refine ⟨h, List.nodup_singleton _, fun i hi j hj => ?_⟩
      obtain ⟨r, hr, rfl⟩ := List.mem_map.mp hi
      rw [List.mem_singleton.mp hj]
      exact (hnew r hr).1
    | _ => exact h
  | resume c d =>
    rw [step]
    split
    · obtain ⟨n, request, stage⟩ := c
      cases stage with
      | claimRecord key candidate session =>
        change ((s.updateRows _ _).rows.map PairingRow.id).Nodup
        rwa [hupdate]
        exact fun _ => rfl
      | rejectRow key row =>
        change ((s.updateRows _ _).rows.map PairingRow.id).Nodup
        rwa [hupdate]
        exact fun _ => rfl
      | approveRow key row result =>
        change ((s.updateRows _ _).rows.map PairingRow.id).Nodup
        rwa [hupdate]
        exact fun _ => rfl
      | redeemDelete key row body approved => exact h.sublist (List.filter_sublist.map _)
      | redeemConsume key row body approved =>
        rw [resume]
        cases approved with
        | true =>
          dsimp only
          rw [if_pos rfl]
          split <;> exact h
        | false => exact h
      | _ => exact h
    · exact h

/-! ## What holds in every state -/

/-- What an approval in flight was asked for is on record, in both stores and for good. -/
structure Approving (s : EdgeState) (n : ℕ) (row : PairingRow) (candidate : Candidate) :
    Prop where
  snapshot : row.recorded = some candidate
  approval : ∃ approval ∈ s.approvals, approval.number = n ∧ approval.session = row.id
    ∧ approval.row = some candidate ∧ ∀ shown ∈ approval.hub, shown = candidate
  rows : ∀ r ∈ s.rows, r.id = row.id → r.recorded = some candidate
  hub : ∀ g, s.hub.sessions.get row.id = some g → g.candidateDevice = some candidate
  quiet : ¬ s.Claiming row.id

/-- A session that is yet to be opened in the hub is untouched. -/
structure Creating (s : EdgeState) (id : String) : Prop where
  hub : s.hub.sessions.get id = none
  quiet : ¬ s.Claiming id
  rows : ∀ r ∈ s.rows, r.id = id → r.candidateDeviceJson = none
  idle : ∀ c ∈ s.inFlight, c.stage.session = id → c.stage.approves = false
  once : s.inFlight.countP (·.stage.creates id) ≤ 1

/-- The session was rejected: nothing more is provisioned for it. -/
structure Closed (s : EdgeState) (id : String) : Prop where
  opened : s.Opened id
  quiet : ∀ c ∈ s.inFlight, c.stage.session = id → c.stage.provisions = false
  rejected : ∀ row ∈ s.rows, row.id = id → row.status = .rejected

/-- The device that an approval has inserted. -/
def Inserted (s : EdgeState) : Stage → Prop
  | .approveToken _ row device => device ∈ s.devices ∧ device.session = row.id
    ∧ device.info = row.candidate.info
  | .approveRow _ row result => ∃ device ∈ s.devices, device.session = row.id
    ∧ device.id = result.deviceId ∧ device.info = row.candidate.info
  | .approveHub _ row result => ∃ device ∈ s.devices, device.session = row.id
    ∧ device.id = result.deviceId ∧ device.info = row.candidate.info
  | _ => True

/-- The row shows the device that was provisioned for it. -/
def Shows (s : EdgeState) (row : PairingRow) : Prop :=
  ∃ candidate result device, row.candidateDeviceJson = some ⟨candidate, some result⟩
    ∧ device ∈ s.devices ∧ device.session = row.id ∧ device.id = result.deviceId
    ∧ device.info = candidate.info

/-- The device row is that of an approval on record. -/
def OnRecord (s : EdgeState) (row : DeviceRow) (n : ℕ) : Prop :=
  ∃ approval ∈ s.approvals, ∃ candidate, approval.number = n ∧ approval.session = row.session
    ∧ approval.row = some candidate ∧ (∀ shown ∈ approval.hub, shown = candidate)
    ∧ row.info = candidate.info

structure Sound (s : EdgeState) : Prop where
  keyed : ∀ i g, s.hub.sessions.get i = some g → g.id = i
  nodup : (s.rows.map PairingRow.id).Nodup
  rowsOpened : ∀ row ∈ s.rows, s.Opened row.id
  hubOpened : ∀ i g, s.hub.sessions.get i = some g → s.Opened i
  callsOpened : ∀ c ∈ s.inFlight, s.Opened c.stage.session
  creating : ∀ c ∈ s.inFlight, ∀ row ttl, c.stage = .pairCreate row ttl → s.Creating row.id
  agree : ∀ row ∈ s.rows, ∀ g, s.hub.sessions.get row.id = some g → ¬ s.Claiming row.id →
    g.candidateDevice = row.recorded
  approving : ∀ c ∈ s.inFlight, c.stage.approves = true → ∀ row ∈ c.stage.row?,
    ∃ candidate, s.Approving c.number row candidate
  inserted : ∀ c ∈ s.inFlight, s.Inserted c.stage
  provisioned : ∀ row ∈ s.devices, ∀ n, row.origin = .approval n → s.OnRecord row n
  shown : ∀ row ∈ s.rows, row.status = .approved → s.Shows row
  shownHub : ∀ i g, s.hub.sessions.get i = some g → g.status = .approved →
    ∃ candidate, ∃ device ∈ s.devices, g.candidateDevice = some candidate
      ∧ device.session = i ∧ device.info = candidate.info
  closedRow : ∀ row ∈ s.rows, row.status = .rejected → s.Closed row.id
  closedHub : ∀ i g, s.hub.sessions.get i = some g → g.status = .rejected → s.Closed i
  closing : ∀ c ∈ s.inFlight, ∀ key row, c.stage = .rejectHub key row → s.Closed row.id

theorem sound_start : start.Sound where
  keyed i g h := by simp [start, Hub.new] at h
  nodup := List.nodup_nil
  rowsOpened _ h := nomatch h
  hubOpened i g h := by simp [start, Hub.new] at h
  callsOpened _ h := nomatch h
  creating _ h := nomatch h
  agree _ h := nomatch h
  approving _ h := nomatch h
  inserted _ h := nomatch h
  provisioned _ h := nomatch h
  shown _ h := nomatch h
  shownHub i g h := by simp [start, Hub.new] at h
  closedRow _ h := nomatch h
  closedHub i g h := by simp [start, Hub.new] at h
  closing _ h := nomatch h

section Step

variable (hs : s.Sound) (hok : s.Decisive a)

include hs

/-- A key leads in the hub to a session filed under its id. -/
theorem Sound.id_of_find {now : ℤ} {key : String} {g : HubSession}
    (hfind : (s.hub.cleanupExpired now).find key = some (id, g)) : g.id = id :=
  hs.keyed id g (Hub.get_of_find_cleanupExpired hfind)

/-- A claim under way was so before, or has just found its session. -/
theorem Sound.claiming_of_step (h : (s.step a).Claiming id) :
    s.Claiming id ∨ ∃ ip body d key g, a = .begin (.claim ip body) d
      ∧ (s.hub.cleanupExpired d.now).blockedFor d.now (clientIp (some (ip.getD "")) none) = none
      ∧ bodyKey body.enrollmentToken body.pairingCode = some key
      ∧ (s.hub.cleanupExpired d.now).find key = some (id, g) := by
  obtain ⟨c, hc, hclaims, rfl⟩ := h
  cases callStep hc with
  | same hc => exact Or.inl ⟨_, hc, hclaims, rfl⟩
  | claiming ha hfree hfind hkey =>
    obtain rfl := hs.id_of_find hfind
    exact Or.inr ⟨_, _, _, _, _, ha, hfree, hkey, hfind⟩
  | next ha hc hnext => cases hnext.not_claims.symm.trans hclaims
  | _ => cases hclaims

omit hs
include hok

/-- Where a claim is recorded. -/
theorem recordOpen_of_stage {key : String} {candidate : Candidate} {session : HubSession}
    (ha : a = .resume c d) (hstage : c.stage = .claimRecord key candidate session) :
    s.RecordOpen c key candidate session := by
  subst ha
  obtain ⟨n, request, stage⟩ := c
  obtain rfl : stage = _ := hstage
  exact hok

theorem quiet_of_rejectRow {key : String} {row : PairingRow} (ha : a = .resume c d)
    (hstage : c.stage = .rejectRow key row) :
    ∀ q ∈ s.inFlight, q.stage.session = row.id → q.stage.provisions = false := by
  subst ha
  obtain ⟨n, request, stage⟩ := c
  obtain rfl : stage = _ := hstage
  exact hok

theorem id_of_rejectHub {key : String} {row : PairingRow} {g : HubSession} (ha : a = .resume c d)
    (hstage : c.stage = .rejectHub key row)
    (hfind : (s.hub.cleanupExpired d.now).find key = some (id, g)) : id = row.id := by
  subst ha
  obtain ⟨n, request, stage⟩ := c
  obtain rfl : stage = _ := hstage
  exact hok (id, g) hfind

theorem id_of_approveHub {key : String} {row : PairingRow} {result : RedeemResult} {g : HubSession}
    (ha : a = .resume c d) (hstage : c.stage = .approveHub key row result)
    (hfind : (s.hub.cleanupExpired d.now).find key = some (id, g)) : id = row.id := by
  subst ha
  obtain ⟨n, request, stage⟩ := c
  obtain rfl : stage = _ := hstage
  exact hok (id, g) hfind

theorem claimOpen_of_begin {ip : Option String} {body : DeviceBody} {key : String} {g : HubSession}
    (ha : a = .begin (.claim ip body) d)
    (hfree : (s.hub.cleanupExpired d.now).blockedFor d.now (clientIp (some (ip.getD "")) none)
      = none)
    (hkey : bodyKey body.enrollmentToken body.pairingCode = some key)
    (hfind : (s.hub.cleanupExpired d.now).find key = some (id, g)) :
    g.status.decided = false ∧ ∀ c ∈ s.inFlight, c.stage.session = id → c.stage.approves = false := by
  subst ha
  exact hok hfree key hkey (id, g) hfind

theorem approvalOpen_of_begin {token code : Option String} {key : String} {row : PairingRow}
    (ha : a = .begin (.approve (some row.userId) token code true) d)
    (hkey : bodyKey token code = some key) (hselect : s.select key = some row) :
    row.status ≠ .rejected ∧ row.candidateDeviceJson ≠ none
      ∧ ∀ c ∈ s.inFlight, c.stage.claims = true → c.stage.session ≠ row.id := by
  subst ha
  exact hok key hkey row hselect rfl

end Step

/-! ### Rejected for good -/

section Step

variable (hs : s.Sound) (hnew : s.NewId a) (hok : s.Decisive a)

include hnew hok

theorem Closed.step (h : s.Closed id) : (s.step a).Closed id where
  opened := h.opened.step a
  quiet q hq hid := by
    cases callStep hq with
    | same hq => exact h.quiet _ hq hid
    | approving ha hkey hselect happrovals =>
      have hrow := List.mem_of_find?_eq_some hselect
      exact absurd (h.rejected _ hrow hid) (approvalOpen_of_begin hok ha hkey hselect).1
    | @redeeming body d key row approved ha hkey hselect hstatus =>
      have hrow := List.mem_of_find?_eq_some hselect
      rw [h.rejected row hrow hid] at hstatus
      cases approved <;> cases hstatus
    | next ha hc hnext => exact hnext.provisions_of (h.quiet _ hc (hnext.session_eq ▸ hid))
    | _ => rfl
  rejected row hrow hid := by
    cases rowStep hrow with
    | same hold => exact h.rejected row hold hid
    | opened ha hkeys hrows hopened hstatus hjson =>
      exact absurd (hid.symm.trans (congrArg SessionKeys.id hkeys)) (h.opened.not_new hnew ha)
    | claimed hold ha hc hstage hkey hclaimed =>
      have hopen := (recordOpen_of_stage hok ha hstage).2.1 _ hold hkey
      rw [h.rejected _ hold hid] at hopen
      cases hopen
    | rejected hold ha hc hstage hid' => rfl
    | approved hold ha hc hstage hid' =>
      have hquiet := h.quiet _ hc (by rw [hstage]; exact hid'.symm.trans hid)
      rw [hstage] at hquiet
      cases hquiet

omit hnew
include hs

/-- A session is closed when its row is rejected. -/
theorem Sound.closed_of_rejectRow {key : String} {r : PairingRow} (ha : a = .resume c d)
    (hc : c ∈ s.inFlight) (hstage : c.stage = .rejectRow key r) : (s.step a).Closed r.id where
  opened := by
    have := hs.callsOpened c hc
    rw [hstage] at this
    exact this.step a
  quiet q hq hid := by
    have hquiet := quiet_of_rejectRow hok ha hstage
    cases callStep hq with
    | same hq => exact hquiet _ hq hid
    | next ha' hc' hnext => exact hnext.provisions_of (hquiet _ hc' (hnext.session_eq ▸ hid))
    | redeeming ha' => cases ha.symm.trans ha'
    | approving ha' => cases ha.symm.trans ha'
    | _ => rfl
  rejected row hrow hid := by
    subst ha
    exact rows_of_rejectRow hc hstage hrow hid

end Step

/-! ### Approvals in flight -/

section Step

variable (hs : s.Sound) (hnew : s.NewId a) (hok : s.Decisive a)

include hs hok

/-- No claim begins on a session that is being approved. -/
theorem Sound.quiet_of_approves (hc : c ∈ s.inFlight) (happroves : c.stage.approves = true)
    (hquiet : ¬ s.Claiming c.stage.session) : ¬ (s.step a).Claiming c.stage.session := by
  intro h
  rcases hs.claiming_of_step h with h | ⟨ip, body, d, key, g, ha, hfree, hkey, hfind⟩
  · exact hquiet h
  · have := (claimOpen_of_begin hok ha hfree hkey hfind).2 c hc rfl
    cases this.symm.trans happroves

include hnew

/-- An approval in flight stays on record, and no candidate comes in between. -/
theorem Sound.approving_step {row : PairingRow} {candidate : Candidate} (hc : c ∈ s.inFlight)
    (happroves : c.stage.approves = true) (hrow : row ∈ c.stage.row?)
    (h : s.Approving c.number row candidate) : (s.step a).Approving c.number row candidate := by
  have hsession := Stage.session_of_row hrow
  have hopened := hs.callsOpened c hc
  have hquiet := hs.quiet_of_approves hok hc happroves (hsession ▸ h.quiet)
  rw [hsession] at hopened hquiet
  refine ⟨h.snapshot, ?_, ?_, ?_, hquiet⟩
  · obtain ⟨approval, happroval, hrest⟩ := h.approval
    exact ⟨approval, approvals_step happroval a, hrest⟩
  · intro r hr hid
    cases rowStep hr with
    | same hold => exact h.rows r hold hid
    | opened ha hkeys hrows hopened' hstatus hjson =>
      exact absurd (hid.symm.trans (congrArg SessionKeys.id hkeys)) (hopened.not_new hnew ha)
    | claimed hold ha hc' hstage hkey hclaimed =>
      have hsame := ((recordOpen_of_stage hok ha hstage).1 _ hold).mp hkey
      refine absurd ⟨_, hc', by rw [hstage]; rfl, ?_⟩ h.quiet
      rw [hstage]
      exact hsame.symm.trans hid
    | rejected hold ha hc' hstage hid' =>
      have hrecorded := h.rows _ hold hid
      exact hrecorded
    | @approved r₀ c' d key r' result hold ha hc' hstage hid' =>
      obtain ⟨candidate', h'⟩ := hs.approving c' hc' (by rw [hstage]; rfl) r' (by rw [hstage]; rfl)
      change some r'.candidate = some candidate
      rw [candidate_of_recorded h'.snapshot]
      exact (h'.rows r₀ hold hid').symm.trans (h.rows r₀ hold hid)
  · intro g hget
    cases hubStep hget with
    | same hget => exact h.hub g hget
    | created ha hc' hstage hid =>
      have hidle := (hs.creating _ hc' _ _ hstage).idle c hc (hsession.trans hid.symm)
      cases hidle.symm.trans happroves
    | claimed ha hfree hfind hkey hentered =>
      have := (claimOpen_of_begin hok ha hfree hkey hfind).2 c hc hsession
      cases this.symm.trans happroves
    | rejected ha hc' hstage hfind =>
      have hcandidate := h.hub _ (Hub.get_of_find_cleanupExpired hfind)
      exact hcandidate
    | approved ha hc' hstage hfind =>
      have hcandidate := h.hub _ (Hub.get_of_find_cleanupExpired hfind)
      exact hcandidate

omit hnew

/-- An approval begins with the candidate that both stores have on record. -/
theorem Sound.approving_begin {token code : Option String} {key : String} {row : PairingRow}
    (ha : a = .begin (.approve (some row.userId) token code true) d)
    (hkey : bodyKey token code = some key) (hselect : s.select key = some row)
    (happrovals : (s.step a).approvals = s.approvals ++
      [(⟨s.requests, row.id, row.recorded, (s.hub.sessions.get row.id).bind (·.candidateDevice)⟩
        : Approval)]) : ∃ candidate, (s.step a).Approving s.requests row candidate := by
  have hrow := List.mem_of_find?_eq_some hselect
  obtain ⟨-, hjson, hclaims⟩ := approvalOpen_of_begin hok ha hkey hselect
  have hquiet : ¬ s.Claiming row.id := by
    rintro ⟨c, hc, hclaim, hid⟩
    exact hclaims c hc hclaim hid
  obtain ⟨json, hsome⟩ := Option.ne_none_iff_exists'.mp hjson
  have hrecorded : row.recorded = some json.candidate := by rw [PairingRow.recorded, hsome]; rfl
  refine ⟨json.candidate, hrecorded, ⟨_, happrovals ▸ List.mem_append_right _
    (List.mem_singleton_self _), rfl, rfl, hrecorded, ?_⟩, ?_, ?_, ?_⟩
  · intro shown hshown
    obtain ⟨g, hget, hcandidate⟩ := Option.bind_eq_some_iff.mp hshown
    rw [hs.agree row hrow g hget hquiet, hrecorded] at hcandidate
    exact (Option.some.inj hcandidate).symm
  · intro r hr hid
    cases rowStep hr with
    | same hold => rw [List.inj_on_of_nodup_map hs.nodup hold hrow hid, hrecorded]
    | opened ha' => cases ha.symm.trans ha'
    | claimed hold ha' => cases ha.symm.trans ha'
    | rejected hold ha' => cases ha.symm.trans ha'
    | approved hold ha' => cases ha.symm.trans ha'
  · intro g hget
    cases hubStep hget with
    | same hget => rw [hs.agree row hrow g hget hquiet, hrecorded]
    | created ha' => cases ha.symm.trans ha'
    | claimed ha' => cases ha.symm.trans ha'
    | rejected ha' => cases ha.symm.trans ha'
    | approved ha' => cases ha.symm.trans ha'
  · intro h
    rcases hs.claiming_of_step h with h | ⟨_, _, _, _, _, ha', -⟩
    · exact hquiet h
    · cases ha.symm.trans ha'

end Step

/-! ### Sessions that are yet to be opened in the hub -/

theorem Next.not_creates {n : ℕ} {stage stage' : Stage} {ds : List DeviceRow} {ts : List TokenRow}
    (h : Next n stage (some stage') ds ts) (id : String) : stage'.creates id = false := by
  cases h <;> rfl

theorem creates_of_stage {row : PairingRow} {ttl : ℤ} (hstage : c.stage = .pairCreate row ttl) :
    c.stage.creates row.id = true := by
  rw [hstage]
  exact decide_eq_true rfl

/-- A new call opens no session in the hub but that of a new row. -/
theorem not_creates_of_entered {request : EdgeRequest} {stage : Stage}
    (hflight : (s.step (.begin request d)).inFlight = ⟨s.requests, request, stage⟩ :: s.inFlight)
    (hnew : ∀ user expires, request = .pair user expires → d.keys.id ≠ id) :
    stage.creates id = false := by
  have hbegun := begun s request d
  change (s.begin request d).inFlight = _ at hflight
  generalize s.begin request d = s' at hflight hbegun
  cases hbegun with
  | @paired userId expires ttl row hrow =>
    obtain rfl : _ = stage := (Call.mk.inj (List.cons.inj hflight).1).2.2
    rw [Stage.creates, hrow]
    exact decide_eq_false (hnew _ _ rfl)
  | claiming hkey hask => obtain rfl : _ = stage := (Call.mk.inj (List.cons.inj hflight).1).2.2; rfl
  | rejecting hkey hselect =>
    obtain rfl : _ = stage := (Call.mk.inj (List.cons.inj hflight).1).2.2; rfl
  | approving hkey hselect =>
    obtain rfl : _ = stage := (Call.mk.inj (List.cons.inj hflight).1).2.2; rfl
  | redeeming hkey hselect hunexpired hstatus =>
    obtain rfl : _ = stage := (Call.mk.inj (List.cons.inj hflight).1).2.2; rfl
  | refused status message => exact absurd hflight.symm (List.cons_ne_self _ _)
  | turnedAway hkey hask hr => exact absurd hflight.symm (List.cons_ne_self _ _)

/-- The calls that open a session in the hub become no more, and one less with each that does. -/
theorem countP_creates_begin {request : EdgeRequest}
    (hnew : ∀ user expires, request = .pair user expires → d.keys.id ≠ id) :
    (s.step (.begin request d)).inFlight.countP (·.stage.creates id)
      = s.inFlight.countP (·.stage.creates id) := by
  rcases (entered s request d).outcome with ⟨stage, hflight, -⟩ | ⟨r, hflight, -⟩
  · rw [hflight, List.countP_cons_of_neg]
    rw [not_creates_of_entered hflight hnew]
    exact Bool.false_ne_true
  · rw [hflight]

theorem countP_creates_resume (hc : c ∈ s.inFlight) (d : Draw) (id : String) :
    (s.step (.resume c d)).inFlight.countP (·.stage.creates id)
        + (if c.stage.creates id then 1 else 0)
      = s.inFlight.countP (·.stage.creates id) := by
  obtain ⟨next, ds, ts, hr⟩ := resumed hc d
  rw [hr.inFlight, List.countP_append, (List.perm_cons_erase hc).countP_eq, List.countP_cons]
  have hnext : (next.map fun stage => ({ c with stage := stage } : Call)).toList.countP
      (·.stage.creates id) = 0 := by
    cases next with
    | none => rfl
    | some stage => simp [hr.stage.not_creates id]
  omega

section Step

variable (hs : s.Sound) (hnew : s.NewId a)

include hs hnew

/-- The call waits on, and its session stays untouched. -/
theorem Sound.creating_step (hok : s.Decisive a) {row : PairingRow} {ttl : ℤ} (hc : c ∈ s.inFlight)
    (hc' : c ∈ (s.step a).inFlight) (hstage : c.stage = .pairCreate row ttl) :
    (s.step a).Creating row.id := by
  have h := hs.creating c hc row ttl hstage
  have hopened : s.Opened row.id := by
    have := hs.callsOpened c hc
    rwa [hstage] at this
  refine ⟨?_, ?_, ?_, ?_, ?_⟩
  · by_contra hne
    obtain ⟨g, hget⟩ := Option.ne_none_iff_exists'.mp hne
    have hno : ∀ {now key g}, (s.hub.cleanupExpired now).find key ≠ some (row.id, g) := by
      intro now key g hfind
      have := Hub.get_of_find_cleanupExpired hfind
      rw [h.hub] at this
      cases this
    cases hubStep hget with
    | same hget => cases h.hub.symm.trans hget
    | @created q d row' ttl' ha hq hstage' hid =>
      -- the call that has just opened it was the only one
      subst ha
      have hcount := countP_creates_resume hq d row.id
      rw [← hid, creates_of_stage hstage', if_pos rfl, hid] at hcount
      have hpos : 0 < (s.step (.resume q d)).inFlight.countP (·.stage.creates row.id) :=
        List.countP_pos_iff.mpr ⟨c, hc', creates_of_stage hstage⟩
      have := h.once
      omega
    | claimed ha hfree hfind hkey hentered => exact hno hfind
    | rejected ha hq hstage' hfind => exact hno hfind
    | approved ha hq hstage' hfind => exact hno hfind
  · intro hclaiming
    rcases hs.claiming_of_step hclaiming with hold | ⟨_, _, _, _, g, -, -, -, hfind⟩
    · exact h.quiet hold
    · cases h.hub.symm.trans (Hub.get_of_find_cleanupExpired hfind)
  · intro r hr hid
    cases rowStep hr with
    | same hold => exact h.rows r hold hid
    | opened ha hkeys hrows hopened' hstatus hjson => exact hjson
    | claimed hold ha hq hstage' hkey hclaimed =>
      have hsame := ((recordOpen_of_stage hok ha hstage').1 _ hold).mp hkey
      refine absurd ⟨_, hq, by rw [hstage']; rfl, ?_⟩ h.quiet
      rw [hstage']
      exact hsame.symm.trans hid
    | rejected hold ha hq hstage' hid' =>
      have hjson := h.rows _ hold hid
      exact hjson
    | approved hold ha hq hstage' hid' =>
      have := h.idle _ hq (by rw [hstage']; exact hid'.symm.trans hid)
      rw [hstage'] at this
      cases this
  · intro q hq hid
    cases callStep hq with
    | same hold => exact h.idle q hold hid
    | approving ha hkey hselect happrovals =>
      have hjson := h.rows _ (List.mem_of_find?_eq_some hselect) hid
      exact absurd hjson (approvalOpen_of_begin hok ha hkey hselect).2.1
    | next ha hold hnext =>
      exact hnext.approves_eq.trans (h.idle _ hold (hnext.session_eq ▸ hid))
    | _ => rfl
  · cases a with
    | begin request d =>
      rw [countP_creates_begin]
      · exact h.once
      · rintro user expires rfl
        exact (hopened.not_new hnew rfl).symm
    | resume q d =>
      by_cases hq : q ∈ s.inFlight
      · have := countP_creates_resume hq d row.id
        have := h.once
        omega
      · rw [step_resume_of_notMem hq]
        exact h.once

/-- A session is opened in D1 first, and untouched. -/
theorem Sound.creating_begin {user : Option String} {expires : Option ℤ} {row : PairingRow}
    (ha : a = .begin (.pair user expires) d) (hkeys : row.keys = d.keys) {ttl : ℤ}
    {request : EdgeRequest}
    (hc : ⟨s.requests, request, .pairCreate row ttl⟩ ∈ (s.step a).inFlight) :
    (s.step a).Creating row.id := by
  have hfresh : ∀ {i}, s.Opened i → i ≠ row.id := by
    intro i hi
    rw [PairingRow.id, hkeys]
    exact hi.not_new hnew ha
  refine ⟨?_, ?_, ?_, ?_, ?_⟩
  · by_contra hne
    obtain ⟨g, hget⟩ := Option.ne_none_iff_exists'.mp hne
    cases hubStep hget with
    | same hget => exact hfresh (hs.hubOpened _ _ hget) rfl
    | created ha' => cases ha.symm.trans ha'
    | claimed ha' => cases ha.symm.trans ha'
    | rejected ha' => cases ha.symm.trans ha'
    | approved ha' => cases ha.symm.trans ha'
  · intro hclaiming
    rcases hs.claiming_of_step hclaiming with ⟨c, hc, -, hid⟩ | ⟨_, _, _, _, _, ha', -⟩
    · exact hfresh (hs.callsOpened c hc) hid
    · cases ha.symm.trans ha'
  · intro r hr hid
    cases rowStep hr with
    | same hold => exact absurd hid (hfresh (hs.rowsOpened r hold))
    | opened ha' hkeys' hrows hopened hstatus hjson => exact hjson
    | claimed hold ha' => cases ha.symm.trans ha'
    | rejected hold ha' => cases ha.symm.trans ha'
    | approved hold ha' => cases ha.symm.trans ha'
  · intro q hq hid
    cases callStep hq with
    | same hold => exact absurd hid (hfresh (hs.callsOpened q hold))
    | approving ha' => cases ha.symm.trans ha'
    | next ha' => cases ha.symm.trans ha'
    | _ => rfl
  · subst ha
    rcases (entered s (.pair user expires) d).outcome with ⟨stage, hflight, -⟩ | ⟨r, hflight, -⟩
    · have hzero : s.inFlight.countP (·.stage.creates row.id) = 0 := by
        refine List.countP_eq_zero.mpr fun q hq hcreates => ?_
        have hopened := hs.callsOpened q hq
        cases hstage : q.stage with
        | pairCreate row' ttl' =>
          rw [hstage] at hcreates hopened
          exact hfresh hopened (of_decide_eq_true hcreates)
        | _ => rw [hstage] at hcreates; cases hcreates
      rw [hflight, List.countP_cons, hzero]
      split
      · exact Nat.le_refl 1
      · exact Nat.zero_le 1
    · rw [hflight] at hc ⊢
      exact absurd rfl (hfresh (hs.callsOpened _ hc))

end Step

/-! ### Devices -/

theorem Inserted.mono {stage : Stage} (h : s.Inserted stage)
    (hdevices : ∀ device ∈ s.devices, device ∈ s'.devices) : s'.Inserted stage := by
  cases stage with
  | approveToken key row device => exact ⟨hdevices _ h.1, h.2⟩
  | approveRow key row result =>
    obtain ⟨device, hdevice, hrest⟩ := h
    exact ⟨device, hdevices _ hdevice, hrest⟩
  | approveHub key row result =>
    obtain ⟨device, hdevice, hrest⟩ := h
    exact ⟨device, hdevices _ hdevice, hrest⟩
  | _ => trivial

theorem Inserted.next {n : ℕ} {stage stage' : Stage} {ds : List DeviceRow} {ts : List TokenRow}
    (h : s.Inserted stage) (hnext : Next n stage (some stage') ds ts)
    (hdevices : s'.devices = s.devices ++ ds) : s'.Inserted stage' := by
  have hmono : ∀ device ∈ s.devices, device ∈ s'.devices :=
    fun device hdevice => hdevices ▸ List.mem_append_left _ hdevice
  cases hnext with
  | device hinfo hsession horigin =>
    exact ⟨hdevices ▸ List.mem_append_right _ (List.mem_singleton_self _), hsession, hinfo⟩
  | token hid hsession horigin =>
    exact ⟨_, hmono _ h.1, h.2.1, hid.symm, h.2.2⟩
  | approved => exact @Inserted.mono _ _ (.approveHub _ _ _) h hmono
  | _ => trivial

theorem Shows.mono {row : PairingRow} (h : s.Shows row) (a : EdgeAction) : (s.step a).Shows row := by
  obtain ⟨candidate, result, device, hjson, hdevice, hrest⟩ := h
  exact ⟨candidate, result, device, hjson, devices_step hdevice a, hrest⟩

theorem OnRecord.mono {row : DeviceRow} {n : ℕ} (h : s.OnRecord row n) (a : EdgeAction) :
    (s.step a).OnRecord row n := by
  obtain ⟨approval, happroval, hrest⟩ := h
  exact ⟨approval, approvals_step happroval a, hrest⟩

section Step

variable (hs : s.Sound)

include hs

/-- A device that an approval inserts is that of the candidate on record. -/
theorem Sound.onRecord_step {row : DeviceRow} (hrow : row ∈ (s.step a).devices) {n : ℕ}
    (horigin : row.origin = .approval n) : (s.step a).OnRecord row n := by
  rcases mem_devices_step hrow with hold | ⟨c, hc, d, next, ds, ts, ha, hnext, hds⟩
  · exact (hs.provisioned row hold n horigin).mono a
  · generalize hstage : c.stage = stage at hnext
    cases hnext with
    | @device key r device hinfo hsession hnumber =>
      obtain rfl := List.mem_singleton.mp hds
      obtain rfl : c.number = n := Origin.approval.inj (hnumber.symm.trans horigin)
      obtain ⟨candidate, happroving⟩ := hs.approving c hc (by rw [hstage]; rfl) r (by rw [hstage]; rfl)
      obtain ⟨approval, happroval, hn, hsess, hrecord, hshown⟩ := happroving.approval
      refine ⟨approval, approvals_step happroval a, candidate, hn, hsess.trans hsession.symm, hrecord,
        hshown, ?_⟩
      rw [hinfo, candidate_of_recorded happroving.snapshot]
    | enrolled hsession hredeemed =>
      obtain rfl := List.mem_singleton.mp hds
      cases hredeemed.symm.trans horigin
    | _ => cases hds

/-- A session that the hub approves shows the device of the candidate on record. -/
theorem Sound.shownHub_step (hok : s.Decisive a) {g : HubSession}
    (hget : (s.step a).hub.sessions.get id = some g) (hstatus : g.status = .approved) :
    ∃ candidate, ∃ device ∈ (s.step a).devices, g.candidateDevice = some candidate
      ∧ device.session = id ∧ device.info = candidate.info := by
  cases hubStep hget with
  | same hget =>
    obtain ⟨candidate, device, hdevice, hrest⟩ := hs.shownHub id g hget hstatus
    exact ⟨candidate, device, devices_step hdevice a, hrest⟩
  | created ha hc hstage hid => cases hstatus
  | claimed ha hfree hfind hkey hentered => cases hstatus
  | rejected ha hc hstage hfind => cases hstatus
  | @approved g₀ c d key row result ha hc hstage hfind =>
    obtain rfl := id_of_approveHub hok ha hstage hfind
    obtain ⟨candidate, happroving⟩ :=
      hs.approving c hc (by rw [hstage]; rfl) row (by rw [hstage]; rfl)
    have hinserted := hs.inserted c hc
    rw [hstage] at hinserted
    obtain ⟨device, hdevice, hsession, -, hinfo⟩ := hinserted
    refine ⟨candidate, device, devices_step hdevice a,
      happroving.hub g₀ (Hub.get_of_find_cleanupExpired hfind), hsession, ?_⟩
    rw [hinfo, candidate_of_recorded happroving.snapshot]

theorem Sound.shown_step {row : PairingRow} (hrow : row ∈ (s.step a).rows)
    (hstatus : row.status = .approved) : (s.step a).Shows row := by
  cases rowStep hrow with
  | same hold => exact (hs.shown row hold hstatus).mono a
  | opened ha hkeys hrows hopened hpending hjson => cases hpending.symm.trans hstatus
  | claimed hold ha hc hstage hkey hclaimed => cases hstatus
  | rejected hold ha hc hstage hid => cases hstatus
  | @approved r₀ c d key r result hold ha hc hstage hid =>
    have hinserted := hs.inserted c hc
    rw [hstage] at hinserted
    obtain ⟨device, hdevice, hsession, hresult, hinfo⟩ := hinserted
    exact ⟨r.candidate, result, device, rfl, devices_step hdevice a, hsession.trans hid.symm,
      hresult, hinfo⟩

omit hs

/-- The section does not speak to the hub, but to forget a session. -/
theorem get_of_quietHub (ha : a = .resume c d) (hstage : c.stage.tellsHub = false) {g : HubSession}
    (hget : (s.step a).hub.sessions.get id = some g) : s.hub.sessions.get id = some g := by
  cases hubStep hget with
  | same hget => exact hget
  | created ha' hc' hstage' hid =>
    cases ha.symm.trans ha'
    rw [hstage'] at hstage
    cases hstage
  | claimed ha' => cases ha.symm.trans ha'
  | rejected ha' hc' hstage' hfind =>
    cases ha.symm.trans ha'
    rw [hstage'] at hstage
    cases hstage
  | approved ha' hc' hstage' hfind =>
    cases ha.symm.trans ha'
    rw [hstage'] at hstage
    cases hstage

/-- The rows keep their keys. -/
theorem keys_of_resume {row : PairingRow} (hrow : row ∈ (s.step (.resume c d)).rows) :
    ∃ r ∈ s.rows, r.keys = row.keys := by
  cases rowStep hrow with
  | same hold => exact ⟨_, hold, rfl⟩
  | opened ha => cases ha
  | claimed hold => exact ⟨_, hold, rfl⟩
  | rejected hold => exact ⟨_, hold, rfl⟩
  | approved hold => exact ⟨_, hold, rfl⟩

/-- The last claim under way leaves its candidate in both stores. -/
theorem recorded_of_claimRecord (hok : s.Decisive a) (ha : a = .resume c d) (hc : c ∈ s.inFlight)
    (hclaims : c.stage.claims = true) {row : PairingRow} (hid : row.id = c.stage.session)
    (hrow : row ∈ (s.step a).rows) {g : HubSession} (hget : s.hub.sessions.get row.id = some g)
    (hquiet : ¬ (s.step a).Claiming row.id) : g.candidateDevice = row.recorded := by
  cases hstage : c.stage with
  | claimRecord key candidate session =>
    rw [hstage] at hid
    change row.id = session.id at hid
    obtain ⟨hnamed, -, hlast⟩ := recordOpen_of_stage hok ha hstage
    subst ha
    have hkey : row.named key = true := by
      obtain ⟨r, hr, hkeys⟩ := keys_of_resume hrow
      rw [PairingRow.named, ← hkeys]
      refine (hnamed r hr).mpr ?_
      rw [PairingRow.id, hkeys]
      exact hid
    rw [rows_of_claimRecord hc hstage hrow hkey]
    rcases hlast g (hid ▸ hget) with hcandidate | ⟨q, hq, hqclaims, hqid⟩
    · exact hcandidate
    · refine absurd ⟨q, ?_, hqclaims, hqid.trans hid.symm⟩ hquiet
      obtain ⟨next, ds, ts, hr⟩ := resumed hc d
      exact hr.inFlight ▸ List.mem_append_right _ hq
  | _ => rw [hstage] at hclaims; cases hclaims

include hs

/-! ### The two stores -/

/-- The stores have one candidate for a session that no claim is under way for. -/
theorem Sound.agree_step (hnew : s.NewId a) (hok : s.Decisive a) {row : PairingRow}
    (hrow : row ∈ (s.step a).rows) {g : HubSession}
    (hget : (s.step a).hub.sessions.get row.id = some g) (hquiet : ¬ (s.step a).Claiming row.id) :
    g.candidateDevice = row.recorded := by
  -- where no claim has just been recorded, none was under way before
  have hbefore : (∀ c d, a = .resume c d → c.stage.claims = true → c ∉ s.inFlight) →
      ¬ s.Claiming row.id := by
    rintro hno ⟨c, hc, hclaims, hid⟩
    refine hquiet ⟨c, stays_inFlight hc fun d ha => ?_, hclaims, hid⟩
    exact hno c d ha hclaims hc
  cases rowStep hrow with
  | same hold =>
    cases hubStep hget with
    | same hget =>
      by_cases hclaiming : s.Claiming row.id
      · obtain ⟨c, hc, hclaims, hid⟩ := hclaiming
        by_cases ha : ∃ d, a = .resume c d
        · obtain ⟨d, ha⟩ := ha
          exact recorded_of_claimRecord hok ha hc hclaims hid.symm hrow hget hquiet
        · refine absurd ⟨c, stays_inFlight hc fun d hd => ha ⟨d, hd⟩, hclaims, hid⟩ hquiet
      · exact hs.agree row hold g hget hclaiming
    | created ha hc hstage hid =>
      have := (hs.creating _ hc _ _ hstage).rows row hold hid.symm
      rw [PairingRow.recorded, this]
      rfl
    | claimed ha hfree hfind hkey hentered =>
      have hid := hs.id_of_find hfind
      exact absurd ⟨_, hentered, rfl, hid⟩ hquiet
    | rejected ha hc hstage hfind =>
      have := hs.agree row hold _ (Hub.get_of_find_cleanupExpired hfind) (hbefore ?_)
      · exact this
      · rintro c' d' ha' hclaims
        cases ha.symm.trans ha'
        rw [hstage] at hclaims
        cases hclaims
    | approved ha hc hstage hfind =>
      have := hs.agree row hold _ (Hub.get_of_find_cleanupExpired hfind) (hbefore ?_)
      · exact this
      · rintro c' d' ha' hclaims
        cases ha.symm.trans ha'
        rw [hstage] at hclaims
        cases hclaims
  | opened ha hkeys hrows hopened hpending hjson =>
    cases hubStep hget with
    | same hget =>
      exact absurd (congrArg SessionKeys.id hkeys) ((hs.hubOpened _ _ hget).not_new hnew ha)
    | created ha' => cases ha.symm.trans ha'
    | claimed ha' => cases ha.symm.trans ha'
    | rejected ha' => cases ha.symm.trans ha'
    | approved ha' => cases ha.symm.trans ha'
  | claimed hold ha hc hstage hkey hclaimed =>
    have hid := ((recordOpen_of_stage hok ha hstage).1 _ hold).mp hkey
    have hold := get_of_quietHub ha (by rw [hstage]; rfl) hget
    refine recorded_of_claimRecord hok ha hc ?_ ?_ hrow hold hquiet
    · rw [hstage]
      rfl
    · rw [hstage]
      exact hid
  | rejected hold ha hc hstage hid =>
    have hget := get_of_quietHub ha (by rw [hstage]; rfl) hget
    have := hs.agree _ hold g hget (hbefore ?_)
    · exact this
    · rintro c' d' ha' hclaims
      cases ha.symm.trans ha'
      rw [hstage] at hclaims
      cases hclaims
  | @approved r₀ c d key r result hold ha hc hstage hid =>
    have hget := get_of_quietHub ha (by rw [hstage]; rfl) hget
    obtain ⟨candidate, happroving⟩ := hs.approving c hc (by rw [hstage]; rfl) r (by rw [hstage]; rfl)
    change _ = some r.candidate
    rw [candidate_of_recorded happroving.snapshot]
    refine happroving.hub g ?_
    rw [← hid]
    exact hget

end Step

/-! ### Every section -/

section Step

variable (hs : s.Sound) (hnew : s.NewId a) (hok : s.Decisive a)

include hs

theorem Sound.keyed_step {g : HubSession} (hget : (s.step a).hub.sessions.get id = some g) :
    g.id = id := by
  cases hubStep hget with
  | same hget => exact hs.keyed id g hget
  | created ha hc hstage hid => exact hid
  | claimed ha hfree hfind hkey hentered =>
    have hid := hs.id_of_find hfind
    exact hid
  | rejected ha hc hstage hfind =>
    have hid := hs.id_of_find hfind
    exact hid
  | approved ha hc hstage hfind =>
    have hid := hs.id_of_find hfind
    exact hid

theorem Sound.rowsOpened_step {row : PairingRow} (hrow : row ∈ (s.step a).rows) :
    (s.step a).Opened row.id := by
  cases rowStep hrow with
  | same hold => exact (hs.rowsOpened row hold).step a
  | opened ha hkeys hrows hopened hstatus hjson =>
    exact ⟨row, hopened ▸ List.mem_append_right _ (List.mem_singleton_self _), rfl⟩
  | claimed hold => exact (hs.rowsOpened _ hold).step a
  | rejected hold => exact (hs.rowsOpened _ hold).step a
  | approved hold => exact (hs.rowsOpened _ hold).step a

theorem Sound.hubOpened_step {g : HubSession} (hget : (s.step a).hub.sessions.get id = some g) :
    (s.step a).Opened id := by
  cases hubStep hget with
  | same hget => exact (hs.hubOpened id g hget).step a
  | created ha hc hstage hid =>
    have := hs.callsOpened _ hc
    rw [hstage] at this
    exact hid ▸ this.step a
  | claimed ha hfree hfind => exact (hs.hubOpened _ _ (Hub.get_of_find_cleanupExpired hfind)).step a
  | rejected ha hc hstage hfind =>
    exact (hs.hubOpened _ _ (Hub.get_of_find_cleanupExpired hfind)).step a
  | approved ha hc hstage hfind =>
    exact (hs.hubOpened _ _ (Hub.get_of_find_cleanupExpired hfind)).step a

theorem Sound.callsOpened_step (hc : c ∈ (s.step a).inFlight) :
    (s.step a).Opened c.stage.session := by
  cases callStep hc with
  | same hold => exact (hs.callsOpened c hold).step a
  | paired ha hkeys hrows hopened hstatus =>
    exact ⟨_, hopened ▸ List.mem_append_right _ (List.mem_singleton_self _), rfl⟩
  | claiming ha hfree hfind hkey =>
    have hopened := hs.hubOpened _ _ (Hub.get_of_find_cleanupExpired hfind)
    rw [← hs.id_of_find hfind] at hopened
    exact hopened.step a
  | rejecting ha hkey hselect =>
    exact (hs.rowsOpened _ (List.mem_of_find?_eq_some hselect)).step a
  | approving ha hkey hselect happrovals =>
    exact (hs.rowsOpened _ (List.mem_of_find?_eq_some hselect)).step a
  | redeeming ha hkey hselect hstatus =>
    exact (hs.rowsOpened _ (List.mem_of_find?_eq_some hselect)).step a
  | next ha hold hnext hdevices =>
    rw [hnext.session_eq]
    exact (hs.callsOpened _ hold).step a

theorem Sound.inserted_step (hc : c ∈ (s.step a).inFlight) : (s.step a).Inserted c.stage := by
  cases callStep hc with
  | same hold => exact (hs.inserted c hold).mono fun device h => devices_step h a
  | next ha hold hnext hdevices => exact (hs.inserted _ hold).next hnext hdevices
  | _ => trivial

include hnew hok

theorem Sound.creatingAll_step (hc : c ∈ (s.step a).inFlight) {row : PairingRow} {ttl : ℤ}
    (hstage : c.stage = .pairCreate row ttl) : (s.step a).Creating row.id := by
  cases callStep hc with
  | same hold => exact hs.creating_step hnew hok hold hc hstage
  | paired ha hkeys hrows hopened hstatus =>
    obtain ⟨rfl, -⟩ := Stage.pairCreate.inj hstage
    exact hs.creating_begin hnew ha hkeys hc
  | next ha hold hnext hdevices =>
    have := hnext.not_creates row.id
    rw [creates_of_stage hstage] at this
    cases this
  | _ => cases hstage

theorem Sound.approvingAll_step (hc : c ∈ (s.step a).inFlight) (happroves : c.stage.approves = true)
    {row : PairingRow} (hrow : row ∈ c.stage.row?) :
    ∃ candidate, (s.step a).Approving c.number row candidate := by
  cases callStep hc with
  | same hold =>
    obtain ⟨candidate, h⟩ := hs.approving c hold happroves row hrow
    exact ⟨candidate, hs.approving_step hnew hok hold happroves hrow h⟩
  | approving ha hkey hselect happrovals =>
    obtain rfl := Option.some.inj hrow
    exact hs.approving_begin hok ha hkey hselect happrovals
  | @next c' _ stage _ _ ha hold hnext hdevices =>
    change stage.approves = true at happroves
    change row ∈ stage.row? at hrow
    rw [hnext.approves_eq] at happroves
    rw [hnext.row_eq] at hrow
    obtain ⟨candidate, h⟩ := hs.approving c' hold happroves row hrow
    have hstep := hs.approving_step hnew hok hold happroves hrow h
    exact ⟨candidate, hstep⟩
  | _ => cases happroves

theorem Sound.closedRow_step {row : PairingRow} (hrow : row ∈ (s.step a).rows)
    (hrejected : row.status = .rejected) : (s.step a).Closed row.id := by
  cases rowStep hrow with
  | same hold => exact (hs.closedRow row hold hrejected).step hnew hok
  | opened ha hkeys hrows hopened hpending hjson => cases hpending.symm.trans hrejected
  | claimed hold ha hc hstage hkey hclaimed => cases hrejected
  | rejected hold ha hc hstage hid =>
    have := hs.closed_of_rejectRow hok ha hc hstage
    rw [← hid] at this
    exact this
  | approved hold ha hc hstage hid => cases hrejected

theorem Sound.closing_step (hc : c ∈ (s.step a).inFlight) {key : String} {row : PairingRow}
    (hstage : c.stage = .rejectHub key row) : (s.step a).Closed row.id := by
  cases callStep hc with
  | same hold => exact (hs.closing c hold key row hstage).step hnew hok
  | @next c' d stage ds ts ha hold hnext hdevices =>
    obtain rfl : stage = _ := hstage
    generalize hstage' : c'.stage = stage' at hnext
    cases hnext
    exact hs.closed_of_rejectRow hok ha hold hstage'
  | _ => cases hstage

theorem Sound.closedHub_step {g : HubSession} (hget : (s.step a).hub.sessions.get id = some g)
    (hrejected : g.status = .rejected) : (s.step a).Closed id := by
  cases hubStep hget with
  | same hget => exact (hs.closedHub id g hget hrejected).step hnew hok
  | created ha hc hstage hid => cases hrejected
  | claimed ha hfree hfind hkey hentered => cases hrejected
  | rejected ha hc hstage hfind =>
    rw [id_of_rejectHub hok ha hstage hfind]
    exact (hs.closing _ hc _ _ hstage).step hnew hok
  | approved ha hc hstage hfind => cases hrejected

/-- **One section keeps the stores sound.** -/
theorem Sound.step : (s.step a).Sound where
  keyed _ _ hget := hs.keyed_step hget
  nodup := nodup_rows hs.nodup a
  rowsOpened _ hrow := hs.rowsOpened_step hrow
  hubOpened _ _ hget := hs.hubOpened_step hget
  callsOpened _ hc := hs.callsOpened_step hc
  creating _ hc _ _ hstage := hs.creatingAll_step hnew hok hc hstage
  agree _ hrow _ hget hquiet := hs.agree_step hnew hok hrow hget hquiet
  approving _ hc happroves _ hrow := hs.approvingAll_step hnew hok hc happroves hrow
  inserted _ hc := hs.inserted_step hc
  provisioned _ hrow _ horigin := hs.onRecord_step hrow horigin
  shown _ hrow hstatus := hs.shown_step hrow hstatus
  shownHub _ _ hget hstatus := hs.shownHub_step hok hget hstatus
  closedRow _ hrow hrejected := hs.closedRow_step hnew hok hrow hrejected
  closedHub _ _ hget hrejected := hs.closedHub_step hnew hok hget hrejected
  closing _ hc _ _ hstage := hs.closing_step hnew hok hc hstage

end Step

/-! ## From an earlier state to a later one -/

/-- Nothing is inserted for a session that is closed. -/
theorem Closed.tables (h : s.Closed id) (a : EdgeAction) :
    (s.step a).devicesOf id = s.devicesOf id ∧ (s.step a).tokensOf id = s.tokensOf id := by
  cases a with
  | begin request d =>
    have he := entered s request d
    exact ⟨by rw [devicesOf, he.devices, devicesOf], by rw [tokensOf, he.tokens, tokensOf]⟩
  | resume c d =>
    by_cases hc : c ∈ s.inFlight
    · obtain ⟨next, ds, ts, hr⟩ := resumed hc d
      have hstarts := hr.stage.starts_le id
      have hholds := hr.stage.holds_le id
      have hquiet : c.stage.starts id = false ∧ c.stage.holds id = false := by
        by_cases hid : c.stage.session = id
        · have := h.quiet c hc hid
          simp only [Stage.provisions, Bool.or_eq_false_iff] at this
          rw [← hid]
          exact ⟨this.1.2, this.2⟩
        · exact ⟨Stage.starts_of_ne hid, Stage.holds_of_ne hid⟩
      rw [hquiet.1] at hstarts
      rw [hquiet.2] at hholds
      simp only [Bool.false_eq_true, if_false] at hstarts hholds
      have hds : ds.filter (·.session = id) = [] := List.eq_nil_of_length_eq_zero (by omega)
      have hts : ts.filter (·.session = id) = [] := List.eq_nil_of_length_eq_zero (by omega)
      constructor
      · rw [devicesOf, hr.devices, List.filter_append, hds, List.append_nil, devicesOf]
      · rw [tokensOf, hr.tokens, List.filter_append, hts, List.append_nil, tokensOf]
    · rw [step_resume_of_notMem hc]
      exact ⟨rfl, rfl⟩

/-- The row was decided about a candidate, and possibly rejected since. -/
structure Settled (s : EdgeState) (id : String) (candidate : Option Candidate)
    (status : PairingStatus) : Prop where
  opened : s.Opened id
  rows : ∀ row ∈ s.rows, row.id = id → row.recorded = candidate
    ∧ (row.status = status ∨ row.status = .rejected)

theorem Settled.step (hs : s.Sound) (hnew : s.NewId a) (hok : s.Decisive a)
    {candidate : Option Candidate} {status : PairingStatus} (hdecided : status.decided = true)
    (h : s.Settled id candidate status) : (s.step a).Settled id candidate status where
  opened := h.opened.step a
  rows row hrow hid := by
    cases rowStep hrow with
    | same hold => exact h.rows row hold hid
    | opened ha hkeys hrows hopened hpending hjson =>
      exact absurd (hid.symm.trans (congrArg SessionKeys.id hkeys)) (h.opened.not_new hnew ha)
    | claimed hold ha hc hstage hkey hclaimed =>
      have hopen := (recordOpen_of_stage hok ha hstage).2.1 _ hold hkey
      rcases (h.rows _ hold hid).2 with heq | heq
      · rw [heq, hdecided] at hopen
        cases hopen
      · rw [heq] at hopen
        cases hopen
    | rejected hold ha hc hstage hid' =>
      have hrecorded := (h.rows _ hold hid).1
      exact ⟨hrecorded, Or.inr rfl⟩
    | @approved r₀ c d key r result hold ha hc hstage hid' =>
      obtain ⟨candidate', happroving⟩ :=
        hs.approving c hc (by rw [hstage]; rfl) r (by rw [hstage]; rfl)
      have hopen : r₀.status ≠ .rejected := by
        intro hrejected
        have := (hs.closedRow r₀ hold hrejected).quiet c hc (by rw [hstage]; exact hid'.symm)
        rw [hstage] at this
        cases this
      refine ⟨?_, Or.inl ?_⟩
      · change some r.candidate = candidate
        rw [candidate_of_recorded happroving.snapshot, ← happroving.rows r₀ hold hid']
        exact (h.rows r₀ hold hid).1
      · rcases (h.rows r₀ hold hid).2 with heq | heq
        · cases status with
          | approved => rfl
          | rejected => exact absurd heq hopen
          | _ => cases hdecided
        · exact absurd heq hopen

/-- So was the session of the hub. -/
structure SettledHub (s : EdgeState) (id : String) (candidate : Option Candidate)
    (status : PairingStatus) : Prop where
  opened : s.Opened id
  created : ∀ c ∈ s.inFlight, c.stage.creates id = false
  hub : ∀ g, s.hub.sessions.get id = some g → g.candidateDevice = candidate
    ∧ (g.status = status ∨ g.status = .rejected)

theorem SettledHub.step (hs : s.Sound) (hnew : s.NewId a) (hok : s.Decisive a)
    {candidate : Option Candidate} {status : PairingStatus} (hdecided : status.decided = true)
    (h : s.SettledHub id candidate status) : (s.step a).SettledHub id candidate status where
  opened := h.opened.step a
  created c hc := by
    cases callStep hc with
    | same hold => exact h.created c hold
    | paired ha hkeys hrows hopened hstatus =>
      refine decide_eq_false fun hid => ?_
      exact absurd (hid.symm.trans (congrArg SessionKeys.id hkeys)) (h.opened.not_new hnew ha)
    | next ha hold hnext hdevices => exact hnext.not_creates id
    | _ => rfl
  hub g hget := by
    cases hubStep hget with
    | same hget => exact h.hub g hget
    | created ha hc hstage hid =>
      have := h.created _ hc
      rw [hstage] at this
      exact absurd hid (of_decide_eq_false this)
    | claimed ha hfree hfind hkey hentered =>
      have hopen := (claimOpen_of_begin hok ha hfree hkey hfind).1
      rcases (h.hub _ (Hub.get_of_find_cleanupExpired hfind)).2 with heq | heq
      · rw [heq, hdecided] at hopen
        cases hopen
      · rw [heq] at hopen
        cases hopen
    | rejected ha hc hstage hfind =>
      have hcandidate := (h.hub _ (Hub.get_of_find_cleanupExpired hfind)).1
      exact ⟨hcandidate, Or.inr rfl⟩
    | @approved g₀ c d key row result ha hc hstage hfind =>
      have hget₀ := Hub.get_of_find_cleanupExpired hfind
      have hcandidate := (h.hub g₀ hget₀).1
      have hid := id_of_approveHub hok ha hstage hfind
      have hopen : g₀.status ≠ .rejected := by
        intro hrejected
        have := (hs.closedHub id g₀ hget₀ hrejected).quiet c hc (by rw [hstage]; exact hid.symm)
        rw [hstage] at this
        cases this
      refine ⟨hcandidate, Or.inl ?_⟩
      rcases (h.hub g₀ hget₀).2 with heq | heq
      · cases status with
        | approved => rfl
        | rejected => exact absurd heq hopen
        | _ => cases hdecided
      · exact absurd heq hopen

/-- **A decision is kept at the edge**, from any state of a run to any later one, as long as every
section is decisive and the ids are new. -/
theorem decisionKept_of_run {as bs : List EdgeAction}
    (h : Along (fun s a => s.NewId a ∧ s.Decisive a) step start (as ++ bs)) :
    DecisionKept (run step start as) (run step start (as ++ bs)) := by
  obtain ⟨has, hbs⟩ := Along.append_iff.mp h
  have hstep : ∀ (s : EdgeState) a, s.Sound → s.NewId a ∧ s.Decisive a → (s.step a).Sound :=
    fun s a hs hok => hs.step hok.1 hok.2
  have hmid : (run step start as).Sound := has.invariant hstep sound_start
  have hend : (run step start (as ++ bs)).Sound := h.invariant hstep sound_start
  rw [run_append] at hend ⊢
  generalize run step start as = s at hmid hbs hend ⊢
  refine ⟨?_, ?_, ?_, hend.provisioned, hend.shown, hend.shownHub⟩
  · intro id hrejected
    have hclosed : s.Closed id := by
      rcases hrejected with ⟨row, hrow, rfl, hstatus⟩ | ⟨g, hget, hstatus⟩
      · exact hmid.closedRow row hrow hstatus
      · exact hmid.closedHub id g hget hstatus
    have hinv := hbs.invariant
      (P := fun t : EdgeState => t.Closed id ∧ t.devicesOf id = s.devicesOf id
        ∧ t.tokensOf id = s.tokensOf id)
      (fun t a ht hok => ⟨ht.1.step hok.1 hok.2, (ht.1.tables a).1.trans ht.2.1,
        (ht.1.tables a).2.trans ht.2.2⟩)
      ⟨hclosed, rfl, rfl⟩
    exact hinv.2
  · intro row hrow hdecided row' hrow' hid
    have hsettled : s.Settled row.id row.recorded row.status := by
      refine ⟨hmid.rowsOpened row hrow, fun r hr hid => ?_⟩
      rw [List.inj_on_of_nodup_map hmid.nodup hr hrow hid]
      exact ⟨rfl, Or.inl rfl⟩
    have hinv := hbs.invariant
      (P := fun t : EdgeState => t.Sound ∧ t.Settled row.id row.recorded row.status)
      (fun t a ht hok => ⟨ht.1.step hok.1 hok.2, ht.2.step ht.1 hok.1 hok.2 hdecided⟩)
      ⟨hmid, hsettled⟩
    exact hinv.2.rows row' hrow' hid
  · intro i g g' hget hdecided hget'
    have hsettled : s.SettledHub i g.candidateDevice g.status := by
      refine ⟨hmid.hubOpened i g hget, fun c hc => ?_, fun g₀ hget₀ => ?_⟩
      · cases hstage : c.stage with
        | pairCreate row ttl =>
          refine decide_eq_false fun hid => ?_
          have hnone := (hmid.creating c hc row ttl hstage).hub
          rw [hid, hget] at hnone
          cases hnone
        | _ => rfl
      · rw [← Option.some.inj (hget.symm.trans hget₀)]
        exact ⟨rfl, Or.inl rfl⟩
    have hinv := hbs.invariant
      (P := fun t : EdgeState => t.Sound ∧ t.SettledHub i g.candidateDevice g.status)
      (fun t a ht hok => ⟨ht.1.step hok.1 hok.2, ht.2.step ht.1 hok.1 hok.2 hdecided⟩)
      ⟨hmid, hsettled⟩
    exact hinv.2.hub g' hget'

namespace Sample

/-- Alice turns the phone down… -/
def declined : List EdgeAction :=
  further 2000 2
    (claimed ++ [.begin (.approve (some "alice") none (some "123456") false) (draw 2000)])

/-- …the phone claims the session again, and Alice approves it. -/
def reclaimed : List EdgeAction :=
  further 4000 4
    (further 3000 1 (declined ++ [.begin (.claim (some "10.0.0.1") phone) (draw 3000)])
      ++ [.begin (.approve (some "alice") none (some "123456") true) (draw 4000)])

end Sample

end EdgeState

end Pcos.Edge

/-! ## Backend and edge -/

namespace Pcos

open Foundations

/-- **The owner's decision is final and about the device shown**, in the backend and at the edge. -/
theorem decisionKept_of_runs {as bs : List PairingAction} {es fs : List Edge.EdgeAction}
    (hbackend : Along (fun s a => s.NewId a ∧ s.Decisive a) PairingService.step PairingService.start
      (as ++ bs))
    (hedge : Along (fun s a => s.NewId a ∧ s.Decisive a) Edge.EdgeState.step Edge.EdgeState.start
      (es ++ fs)) :
    PairingService.DecisionKept (run PairingService.step PairingService.start as)
        (run PairingService.step PairingService.start (as ++ bs))
      ∧ Edge.EdgeState.DecisionKept (run Edge.EdgeState.step Edge.EdgeState.start es)
        (run Edge.EdgeState.step Edge.EdgeState.start (es ++ fs)) :=
  ⟨PairingService.decisionKept_of_run hbackend, Edge.EdgeState.decisionKept_of_run hedge⟩

namespace Sample

/-- The approval of the phone, as it is asked for. -/
def approval : Provisioning :=
  ⟨alice, claimed id1 alice, .approve "123456" (phone.candidate 1000) 0, .device⟩

/-- Alice approves the phone. -/
def approving : List PairingAction :=
  .approve 3000 alice phone.key true :: provision id2 approval ++ [finishing id2 approval]

/-- Alice turns the phone down. -/
def declined : List PairingAction :=
  [opening id1 alice, .claim 1000 bob phone, .approve 2000 alice phone.key false]

end Sample

open Sample Edge.EdgeState.Sample in
/-- The phone claims, the owner approves, and the phone redeems, on both sides. -/
theorem decisionKept_approved :
    PairingService.DecisionKept
        (run PairingService.step PairingService.start
          ([opening id1 alice, .claim 1000 bob Sample.phone] ++ approving))
        (run PairingService.step PairingService.start
          (([opening id1 alice, .claim 1000 bob Sample.phone] ++ approving)
            ++ [.redeem 4000 bob Sample.phone]))
      ∧ Edge.EdgeState.DecisionKept (run Edge.EdgeState.step Edge.EdgeState.start approved)
        (run Edge.EdgeState.step Edge.EdgeState.start (approved
          ++ [.begin (.redeem Edge.EdgeState.Sample.phone) (draw 3000)])) :=
  decisionKept_of_runs (by decide) (by decide)

open Sample in
/-- A claim turns a rejected session into one that can be approved, on either side. -/
theorem not_decisionKept_reclaimed :
    (¬ ∀ as bs, Along PairingService.NewId PairingService.step PairingService.start (as ++ bs) →
        PairingService.DecisionKept (run PairingService.step PairingService.start as)
          (run PairingService.step PairingService.start (as ++ bs)))
      ∧ ¬ ∀ es fs, Along Edge.EdgeState.NewId Edge.EdgeState.step Edge.EdgeState.start (es ++ fs) →
        Edge.EdgeState.DecisionKept (run Edge.EdgeState.step Edge.EdgeState.start es)
          (run Edge.EdgeState.step Edge.EdgeState.start (es ++ fs)) := by
  constructor
  · intro h
    have hkept := (h declined (.claim 1000 bob phone :: approving) (by decide)).rejected id1
      { claimed id1 alice with status := .rejected } (by decide) rfl
    exact absurd hkept.1 (by decide)
  · intro h
    have hkept := (h Edge.EdgeState.Sample.declined
      (Edge.EdgeState.Sample.reclaimed.drop Edge.EdgeState.Sample.declined.length)
      (by decide)).rejected "session" (by decide)
    exact absurd hkept.1 (by decide)

end Pcos
