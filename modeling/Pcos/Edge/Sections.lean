import Pcos.Edge.Pairing

/-!
# Edge/Sections — what one section of a pairing request can do

The first section of a request is refused, or leaves the state in one of six ways (`Begun`); the
others follow the stages.  They touch the rows of D1, the sessions of the hub, the calls in flight
and the tables.  For each of the four this module says once what can become of it (`RowStep`,
`HubStep`, `CallStep`, `TableStep`); the invariants of the edge are case splits over these, not over
the handlers.
-/

namespace Pcos.Edge

open Foundations

/-! ## Stages -/

namespace Stage

/-- The row the request works on, a claim's apart. -/
def row? : Stage → Option PairingRow
  | .pairCreate row _ => some row
  | .claimRecord _ _ _ => none
  | .rejectRow _ row => some row
  | .rejectHub _ row => some row
  | .approveDevice _ row => some row
  | .approveToken _ row _ => some row
  | .approveRow _ row _ => some row
  | .approveHub _ row _ => some row
  | .redeemDelete _ row _ _ => some row
  | .redeemConsume _ row _ _ => some row
  | .redeemDevice row _ => some row
  | .redeemToken row _ _ => some row

/-- The session the request is about. -/
def session : Stage → String
  | .claimRecord _ _ session => session.id
  | .pairCreate row _ => row.id
  | .rejectRow _ row => row.id
  | .rejectHub _ row => row.id
  | .approveDevice _ row => row.id
  | .approveToken _ row _ => row.id
  | .approveRow _ row _ => row.id
  | .approveHub _ row _ => row.id
  | .redeemDelete _ row _ _ => row.id
  | .redeemConsume _ row _ _ => row.id
  | .redeemDevice row _ => row.id
  | .redeemToken row _ _ => row.id

def claims : Stage → Bool
  | .claimRecord _ _ _ => true
  | _ => false

def approves : Stage → Bool
  | .approveDevice _ _ => true
  | .approveToken _ _ _ => true
  | .approveRow _ _ _ => true
  | .approveHub _ _ _ => true
  | _ => false

def redeems : Stage → Bool
  | .redeemDelete _ _ _ _ => true
  | .redeemConsume _ _ _ _ => true
  | .redeemDevice _ _ => true
  | .redeemToken _ _ _ => true
  | _ => false

end Stage

/-- A decision has been taken. -/
def PairingStatus.decided : PairingStatus → Bool
  | .approved => true
  | .rejected => true
  | _ => false

namespace EdgeState

variable {s : EdgeState} {a : EdgeAction}

/-! ## How a request begins -/

/-- What the first section of a request makes of the state. -/
inductive Begun (s : EdgeState) (d : Draw) : EdgeRequest → EdgeState → Prop
  | refused {request} (status message) : Begun s d request (s.refuse request status message)
  | paired {userId expires ttl} {row : PairingRow}
      (hrow : row = ⟨d.keys, userId, .pendingRedeem, none, d.now + ttl * 1000⟩)
      (hnew : ∀ r ∈ s.rows, r.id ≠ row.id ∧ r.keys.pairingCode ≠ row.keys.pairingCode
        ∧ r.keys.enrollmentToken ≠ row.keys.enrollmentToken) :
      Begun s d (.pair (some userId) expires)
        ({ s with rows := s.rows ++ [row], opened := s.opened ++ [row] }.enter
          (.pair (some userId) expires) (.pairCreate row ttl))
  | turnedAway {clientIp body key r}
      (hkey : bodyKey body.enrollmentToken body.pairingCode = some key)
      (hask : (s.askHub d.now (.claim (some (clientIp.getD "")) none key (body.candidate d.now))).2
        = r)
      (hr : ∀ session, r ≠ .session session) :
      Begun s d (.claim clientIp body)
        { (s.askHub d.now (.claim (some (clientIp.getD "")) none key
            (body.candidate d.now))).1.answer s.requests (.claim clientIp body) (.hub r) with
          requests := s.requests + 1 }
  | claiming {clientIp body key session}
      (hkey : bodyKey body.enrollmentToken body.pairingCode = some key)
      (hask : (s.askHub d.now (.claim (some (clientIp.getD "")) none key (body.candidate d.now))).2
        = .session session) :
      Begun s d (.claim clientIp body)
        ((s.askHub d.now (.claim (some (clientIp.getD "")) none key (body.candidate d.now))).1.enter
          (.claim clientIp body) (.claimRecord key (body.candidate d.now) session))
  | rejecting {token code key row} (hkey : bodyKey token code = some key)
      (hselect : s.select key = some row) :
      Begun s d (.approve (some row.userId) token code false)
        (s.enter (.approve (some row.userId) token code false) (.rejectRow key row))
  | approving {token code key} {row : PairingRow} (hkey : bodyKey token code = some key)
      (hselect : s.select key = some row) :
      Begun s d (.approve (some row.userId) token code true)
        ({ s with approvals := s.approvals ++
            [(⟨s.requests, row.id, row.candidateDeviceJson.map CandidateJson.candidate,
              (s.hub.sessions.get row.id).bind (·.candidateDevice)⟩ : Approval)] }.enter
          (.approve (some row.userId) token code true) (.approveDevice key row))
  | redeeming {body key row approved}
      (hkey : bodyKey body.enrollmentToken body.pairingCode = some key)
      (hselect : s.select key = some row) (hunexpired : d.now < row.expiresAt)
      (hstatus : row.status = if approved then .approved else .pendingRedeem) :
      Begun s d (.redeem body) (s.enter (.redeem body) (.redeemDelete key row body approved))

theorem begun_pair (s : EdgeState) (user : Option String) (expires : Option ℤ) (d : Draw) :
    Begun s d (.pair user expires) (s.begin (.pair user expires) d) := by
  rw [begin]
  unfold beginPair
  split
  · exact .refused _ _
  · dsimp only
    split
    · exact .refused _ _
    · rename_i huserId hnew
      refine .paired rfl fun r hr => ?_
      simp only [List.any_eq_true, not_exists, not_and] at hnew
      have := hnew r hr
      simp only [Bool.or_eq_true, decide_eq_true_eq, not_or] at this
      exact ⟨this.1.1, this.1.2, this.2⟩

theorem begun_claim (s : EdgeState) (ip : Option String) (body : DeviceBody) (d : Draw) :
    Begun s d (.claim ip body) (s.begin (.claim ip body) d) := by
  rw [begin, beginClaim]
  split
  · exact .refused _ _
  · rename_i key hkey
    dsimp only
    split
    · rename_i session heq
      have hfst := congrArg Prod.fst heq
      have hsnd := congrArg Prod.snd heq
      subst hfst
      exact .claiming hkey hsnd
    · rename_i hub r hr heq
      have hfst := congrArg Prod.fst heq
      have hsnd := congrArg Prod.snd heq
      subst hfst
      exact .turnedAway hkey hsnd fun session hsession => hr session hsession

theorem begun_approve (s : EdgeState) (user token code : Option String) (approved : Bool)
    (d : Draw) : Begun s d (.approve user token code approved)
      (s.begin (.approve user token code approved) d) := by
  rw [begin]
  unfold beginApprove
  split
  · exact .refused _ _
  split
  · exact .refused _ _
  split
  · exact .refused _ _
  rename_i _ userId _ key hkey _ row hown
  obtain ⟨hselect, huser⟩ := Option.filter_eq_some_iff.mp hown
  obtain rfl : row.userId = userId := of_decide_eq_true huser
  cases approved with
  | false => exact .rejecting hkey hselect
  | true => exact .approving hkey hselect

theorem begun_redeem (s : EdgeState) (body : DeviceBody) (d : Draw) :
    Begun s d (.redeem body) (s.begin (.redeem body) d) := by
  rw [begin, beginRedeem]
  split
  · exact .refused _ _
  rename_i key hkey
  split
  · exact .refused _ _
  rename_i row hselect
  split
  · exact .refused _ _
  rename_i hexpired
  split
  · exact .refused _ _
  · exact .refused _ _
  · rename_i hstatus
    exact @Begun.redeeming _ _ _ _ _ true hkey hselect (Int.not_le.mp hexpired) hstatus
  · rename_i hstatus
    exact @Begun.redeeming _ _ _ _ _ false hkey hselect (Int.not_le.mp hexpired) hstatus

/-- Every request begins in one of these ways. -/
theorem begun (s : EdgeState) (request : EdgeRequest) (d : Draw) :
    Begun s d request (s.begin request d) := by
  cases request with
  | pair user expires => exact begun_pair s user expires d
  | claim ip body => exact begun_claim s ip body d
  | approve user token code approved => exact begun_approve s user token code approved d
  | redeem body => exact begun_redeem s body d

/-! ## Rows -/

/-- How a row of D1 can come out of a section. -/
inductive RowStep (s : EdgeState) (a : EdgeAction) : PairingRow → Prop
  | same {row} (h : row ∈ s.rows) : RowStep s a row
  | opened {row user expires d} (ha : a = .begin (.pair user expires) d) (hkeys : row.keys = d.keys)
      (hnew : ∀ r ∈ s.rows, r.id ≠ row.id ∧ r.keys.pairingCode ≠ row.keys.pairingCode
        ∧ r.keys.enrollmentToken ≠ row.keys.enrollmentToken)
      (hopened : (s.step a).opened = s.opened ++ [row])
      (hstatus : row.status = .pendingRedeem) (hjson : row.candidateDeviceJson = none) :
      RowStep s a row
  | claimed {row c d key candidate session} (h : row ∈ s.rows) (ha : a = .resume c d)
      (hc : c ∈ s.inFlight) (hstage : c.stage = .claimRecord key candidate session)
      (hkey : row.named key = true) (hclaimed : row.id ∈ (s.step a).claimed) :
      RowStep s a
        { row with status := .pendingApproval, candidateDeviceJson := some ⟨candidate, none⟩ }
  | rejected {row c d key r} (h : row ∈ s.rows) (ha : a = .resume c d) (hc : c ∈ s.inFlight)
      (hstage : c.stage = .rejectRow key r) (hid : row.id = r.id) :
      RowStep s a { row with status := .rejected }
  | approved {row c d key r result} (h : row ∈ s.rows) (ha : a = .resume c d) (hc : c ∈ s.inFlight)
      (hstage : c.stage = .approveRow key r result) (hid : row.id = r.id) :
      RowStep s a
        { row with status := .approved, candidateDeviceJson := some ⟨r.candidate, some result⟩ }

/-- Updated rows are the picked ones, changed, and the others. -/
theorem mem_updateRows {p : PairingRow → Bool} {f : PairingRow → PairingRow} {row : PairingRow}
    (h : row ∈ (s.updateRows p f).rows) :
    (row ∈ s.rows ∧ p row = false) ∨ ∃ r ∈ s.rows, p r = true ∧ row = f r := by
  obtain ⟨r, hr, rfl⟩ := List.mem_map.mp h
  by_cases hp : p r = true
  · rw [if_pos hp]
    exact Or.inr ⟨r, hr, hp, rfl⟩
  · rw [if_neg hp]
    exact Or.inl ⟨hr, Bool.eq_false_iff.mpr hp⟩

/-- The rows that a claim names are claimed. -/
theorem claimed_of_named {c : Call} {d : Draw} {key : String} {candidate : Candidate}
    {session : HubSession} {row : PairingRow} (hc : c ∈ s.inFlight)
    (hstage : c.stage = .claimRecord key candidate session) (hrow : row ∈ s.rows)
    (hkey : row.named key = true) : row.id ∈ (s.step (.resume c d)).claimed := by
  rw [step, if_pos hc, resume, hstage]
  exact List.mem_append_right _
    (List.mem_map_of_mem (f := PairingRow.id) (List.mem_filter.mpr ⟨hrow, hkey⟩))

theorem rowStep {row : PairingRow} (h : row ∈ (s.step a).rows) : RowStep s a row := by
  cases a with
  | begin request d =>
    have hbegun := begun s request d
    change row ∈ (s.begin request d).rows at h
    generalize hs' : s.begin request d = s' at h hbegun
    cases hbegun with
    | refused status message => exact .same h
    | paired hrow hnew =>
      rcases List.mem_append.mp h with h | h
      · exact .same h
      · obtain rfl := List.mem_singleton.mp h
        refine .opened rfl (by rw [hrow]) hnew ?_ (by rw [hrow]) (by rw [hrow])
        change (s.begin _ _).opened = _
        rw [hs']
        rfl
    | turnedAway hkey hask hr => exact .same h
    | claiming hkey hask => exact .same h
    | rejecting hkey hselect => exact .same h
    | approving hkey hselect => exact .same h
    | redeeming hkey hselect hunexpired hstatus => exact .same h
  | resume c d =>
    rw [step] at h
    split at h
    · rename_i hc
      unfold resume at h
      split at h
      · exact .same h
      · rename_i hstage
        rcases mem_updateRows h with ⟨h, -⟩ | ⟨r, hr, hkey, rfl⟩
        · exact .same h
        · exact .claimed hr rfl hc hstage hkey (claimed_of_named hc hstage hr hkey)
      · rename_i hstage
        rcases mem_updateRows h with ⟨h, -⟩ | ⟨r, hr, hid, rfl⟩
        · exact .same h
        · exact .rejected hr rfl hc hstage (of_decide_eq_true hid)
      · exact .same h
      · exact .same h
      · exact .same h
      · rename_i hstage
        rcases mem_updateRows h with ⟨h, -⟩ | ⟨r, hr, hid, rfl⟩
        · exact .same h
        · exact .approved hr rfl hc hstage (of_decide_eq_true hid)
      · exact .same h
      · exact .same (List.mem_of_mem_filter h)
      · dsimp only at h
        split at h
        · split at h
          · exact .same h
          · exact .same h
        · exact .same h
      · exact .same h
      · exact .same h
    · exact .same h

/-! ## Sessions of the hub -/

/-- How the session that the hub holds under `id` can come out of a section. -/
inductive HubStep (s : EdgeState) (a : EdgeAction) (id : String) : HubSession → Prop
  | same {h} (hget : s.hub.sessions.get id = some h) : HubStep s a id h
  | created {c d row ttl} (ha : a = .resume c d) (hc : c ∈ s.inFlight)
      (hstage : c.stage = .pairCreate row ttl) (hid : row.id = id) :
      HubStep s a id
        ⟨row.id, row.userId, row.keys.pairingCode, row.keys.enrollmentToken, .pendingRedeem, 0, none,
          none, row.expiresAt, d.now⟩
  | claimed {h ip body d key} (ha : a = .begin (.claim ip body) d)
      (hfree : (s.hub.cleanupExpired d.now).blockedFor d.now (clientIp (some (ip.getD "")) none)
        = none)
      (hfind : (s.hub.cleanupExpired d.now).find key = some (id, h))
      (hkey : bodyKey body.enrollmentToken body.pairingCode = some key)
      (hentered : ⟨s.requests, .claim ip body, .claimRecord key (body.candidate d.now)
        { h with candidateDevice := some (body.candidate d.now), status := .pendingApproval }⟩
          ∈ (s.step a).inFlight) :
      HubStep s a id
        { h with candidateDevice := some (body.candidate d.now), status := .pendingApproval }
  | rejected {h c d key row} (ha : a = .resume c d) (hc : c ∈ s.inFlight)
      (hstage : c.stage = .rejectHub key row)
      (hfind : (s.hub.cleanupExpired d.now).find key = some (id, h)) :
      HubStep s a id { h with status := .rejected }
  | approved {h c d key row result} (ha : a = .resume c d) (hc : c ∈ s.inFlight)
      (hstage : c.stage = .approveHub key row result)
      (hfind : (s.hub.cleanupExpired d.now).find key = some (id, h)) :
      HubStep s a id { h with status := .approved, redeemResult := some result }

theorem hubStep {id : String} {h : HubSession} (hget : (s.step a).hub.sessions.get id = some h) :
    HubStep s a id h := by
  cases a with
  | begin request d =>
    have hbegun := begun s request d
    change (s.begin request d).hub.sessions.get id = some h at hget
    generalize hs' : s.begin request d = s' at hget hbegun
    cases hbegun with
    | refused status message => exact .same hget
    | paired hrow hnew => exact .same hget
    | turnedAway hkey hask hr =>
      exact .same (Hub.get_of_turnedAway (fun session hs => hr session (hask.symm.trans hs)) hget)
    | claiming hkey hask =>
      rcases Hub.get_fetch_claim hget with hget | ⟨h₀, hfree, hfind, rfl⟩
      · exact .same hget
      · obtain ⟨i, h₁, -, hfind₁, rfl, -⟩ := Hub.claimed_of_session hask
        obtain ⟨-, rfl⟩ := Prod.mk.inj (Option.some.inj (hfind.symm.trans hfind₁))
        refine .claimed rfl hfree hfind hkey ?_
        change _ ∈ (s.begin _ _).inFlight
        rw [hs']
        exact List.mem_cons_self
    | rejecting hkey hselect => exact .same hget
    | approving hkey hselect => exact .same hget
    | redeeming hkey hselect hunexpired hstatus => exact .same hget
  | resume c d =>
    rw [step] at hget
    split at hget
    · rename_i hc
      unfold resume at hget
      split at hget
      · rename_i hstage
        rcases Hub.get_fetch_create hget with ⟨rfl, rfl⟩ | hget
        · exact .created rfl hc hstage rfl
        · exact .same hget
      · exact .same hget
      · exact .same hget
      · rename_i hstage
        rcases Hub.get_fetch_approve hget with ⟨hget, -⟩ | ⟨h₀, hfind, -, rfl⟩
        · exact .same (Hub.get_of_cleanupExpired hget)
        · exact .rejected rfl hc hstage hfind
      · exact .same hget
      · exact .same hget
      · exact .same hget
      · rename_i hstage
        rcases Hub.get_fetch_approve hget with ⟨hget, -⟩ | ⟨h₀, hfind, -, rfl⟩
        · exact .same (Hub.get_of_cleanupExpired hget)
        · exact .approved rfl hc hstage hfind
      · exact .same hget
      · rename_i key row body approved hstage
        have hconsumed : (s.hub.fetch d.now (.consume key)).1.sessions.get id = some h := by
          dsimp only at hget
          split at hget
          · split at hget
            · exact hget
            · exact hget
          · exact hget
        exact .same (Hub.get_of_cleanupExpired (Hub.get_fetch_consume hconsumed).1)
      · exact .same hget
      · exact .same hget
    · exact .same hget

/-! ## Calls in flight -/

/-- What the request with the number `n` does next, and the rows that its section inserts. -/
inductive Next (n : ℕ) : Stage → Option Stage → List DeviceRow → List TokenRow → Prop
  | opened {row ttl} : Next n (.pairCreate row ttl) none [] []
  | claimed {key candidate session} : Next n (.claimRecord key candidate session) none [] []
  | rejected {key row} : Next n (.rejectRow key row) (some (.rejectHub key row)) [] []
  | rejectedHub {key row} : Next n (.rejectHub key row) none [] []
  | device {key row device} (hinfo : device.info = row.candidate.info)
      (hsession : device.session = row.id) (horigin : device.origin = .approval n) :
      Next n (.approveDevice key row) (some (.approveToken key row device)) [device] []
  | token {key row device result token} (hid : result.deviceId = device.id)
      (hsession : token.session = row.id) (horigin : token.origin = .approval n) :
      Next n (.approveToken key row device) (some (.approveRow key row result)) [] [token]
  | approved {key row result} :
      Next n (.approveRow key row result) (some (.approveHub key row result)) [] []
  | approvedHub {key row result} : Next n (.approveHub key row result) none [] []
  | deleted {key row body approved} :
      Next n (.redeemDelete key row body approved) (some (.redeemConsume key row body approved)) [] []
  | handedOver {key row body result}
      (hresult : row.candidateDeviceJson.bind (·.redeemResult) = some result) :
      Next n (.redeemConsume key row body true) none [] []
  | again {key row body} (hresult : row.candidateDeviceJson.bind (·.redeemResult) = none) :
      Next n (.redeemConsume key row body true) (some (.redeemDelete key row body false)) [] []
  | consumed {key row body} :
      Next n (.redeemConsume key row body false) (some (.redeemDevice row body)) [] []
  | enrolled {row body device} (hsession : device.session = row.id)
      (horigin : device.origin = .redemption n) :
      Next n (.redeemDevice row body) (some (.redeemToken row body device)) [device] []
  | redeemed {row body device token} (hsession : token.session = row.id)
      (horigin : token.origin = .redemption n) :
      Next n (.redeemToken row body device) none [] [token]

/-- A call, one section later: what it does next, and what its section leaves behind. -/
structure Resumed (s : EdgeState) (c : Call) (d : Draw) (next : Option Stage)
    (ds : List DeviceRow) (ts : List TokenRow) (s' : EdgeState) : Prop where
  stage : Next c.number c.stage next ds ts
  inFlight : s'.inFlight
    = (next.map fun stage => { c with stage := stage }).toList ++ s.inFlight.erase c
  devices : s'.devices = s.devices ++ ds
  tokens : s'.tokens = s.tokens ++ ts
  requests : s'.requests = s.requests
  opened : s'.opened = s.opened
  approvals : s'.approvals = s.approvals
  claimed : s.claimed ⊆ s'.claimed
  answers : s'.answers = s.answers ∨ next = none ∧ ∃ r, s'.answers
      = s.answers ++ [⟨c.number, c.request, r⟩]
    ∧ (∀ key row result, c.stage = .approveHub key row result →
      r = .hub (s.askHub d.now (.approve key row.userId true (some result))).2)
    ∧ (c.stage.redeems = true → r.ok = true)

/-- The call ends here. -/
theorem Resumed.ended {s s' : EdgeState} {c : Call} {d : Draw} {r : EdgeResponse}
    {ts : List TokenRow} (hstage : Next c.number c.stage none [] ts)
    (hr : ∀ key row result, c.stage = .approveHub key row result →
      r = .hub (s.askHub d.now (.approve key row.userId true (some result))).2)
    (hredeems : c.stage.redeems = true → r.ok = true)
    (hinFlight : s'.inFlight = s.inFlight.erase c) (hdevices : s'.devices = s.devices)
    (htokens : s'.tokens = s.tokens ++ ts) (hrequests : s'.requests = s.requests)
    (hopened : s'.opened = s.opened) (happrovals : s'.approvals = s.approvals)
    (hclaimed : s.claimed ⊆ s'.claimed)
    (hanswers : s'.answers = s.answers ++ [⟨c.number, c.request, r⟩]) :
    Resumed s c d none [] ts s' :=
  ⟨hstage, hinFlight, hdevices.trans (List.append_nil _).symm, htokens, hrequests, hopened,
    happrovals, hclaimed, Or.inr ⟨rfl, r, hanswers, hr, hredeems⟩⟩

/-- The call goes on. -/
theorem Resumed.wentOn {s s' : EdgeState} {c : Call} {d : Draw} {stage : Stage}
    {ds : List DeviceRow} {ts : List TokenRow} (hstage : Next c.number c.stage (some stage) ds ts)
    (hinFlight : s'.inFlight = { c with stage := stage } :: s.inFlight.erase c)
    (hdevices : s'.devices = s.devices ++ ds) (htokens : s'.tokens = s.tokens ++ ts)
    (hrequests : s'.requests = s.requests) (hopened : s'.opened = s.opened)
    (happrovals : s'.approvals = s.approvals) (hclaimed : s'.claimed = s.claimed)
    (hanswers : s'.answers = s.answers) : Resumed s c d (some stage) ds ts s' :=
  ⟨hstage, hinFlight, hdevices, htokens, hrequests, hopened, happrovals, fun _ h => hclaimed ▸ h,
    Or.inl hanswers⟩

theorem resumed {c : Call} (hc : c ∈ s.inFlight) (d : Draw) :
    ∃ next ds ts, Resumed s c d next ds ts (s.step (.resume c d)) := by
  have hnil : ∀ {α : Type} (l : List α), l = l ++ [] := fun l => (List.append_nil l).symm
  have hself : ∀ {α : Type} (l : List α), l ⊆ l := List.Subset.refl
  rw [show s.step (.resume c d) = resume { s with inFlight := s.inFlight.erase c } c d from
    if_pos hc]
  obtain ⟨n, request, stage⟩ := c
  cases stage with
  | pairCreate row ttl =>
    exact ⟨_, _, _, .ended .opened (by rintro _ _ _ ⟨⟩) (fun _ => rfl) rfl rfl (hnil _) rfl rfl rfl (hself _) rfl⟩
  | claimRecord key candidate session =>
    rw [resume]
    exact ⟨_, _, _, .ended .claimed (by rintro _ _ _ ⟨⟩) (fun _ => rfl) rfl rfl (hnil _) rfl rfl rfl
      (fun _ h => List.mem_append_left _ h) rfl⟩
  | rejectRow key row =>
    exact ⟨_, _, _, .wentOn .rejected rfl (hnil _) (hnil _) rfl rfl rfl rfl rfl⟩
  | rejectHub key row =>
    exact ⟨_, _, _, .ended .rejectedHub (by rintro _ _ _ ⟨⟩) (by rintro ⟨⟩) rfl rfl (hnil _) rfl rfl rfl (hself _) rfl⟩
  | approveDevice key row =>
    exact ⟨_, _, _, .wentOn (.device rfl rfl rfl) rfl rfl (hnil _) rfl rfl rfl rfl rfl⟩
  | approveToken key row device =>
    exact ⟨_, _, _, .wentOn (.token rfl rfl rfl) rfl (hnil _) rfl rfl rfl rfl rfl rfl⟩
  | approveRow key row result =>
    exact ⟨_, _, _, .wentOn .approved rfl (hnil _) (hnil _) rfl rfl rfl rfl rfl⟩
  | approveHub key row result =>
    refine ⟨_, _, _, .ended .approvedHub ?_ (by rintro ⟨⟩) rfl rfl (hnil _) rfl rfl rfl (hself _) rfl⟩
    rintro _ _ _ ⟨⟩
    rfl
  | redeemDelete key row body approved =>
    exact ⟨_, _, _, .wentOn .deleted rfl (hnil _) (hnil _) rfl rfl rfl rfl rfl⟩
  | redeemConsume key row body approved =>
    rw [resume]
    cases approved with
    | true =>
      dsimp only
      rw [if_pos rfl]
      split
      · rename_i hresult
        exact ⟨_, _, _, .ended (.handedOver hresult) (by rintro _ _ _ ⟨⟩) (fun _ => rfl) rfl rfl (hnil _) rfl rfl rfl (hself _) rfl⟩
      · rename_i hresult
        exact ⟨_, _, _, .wentOn (.again hresult) rfl (hnil _) (hnil _) rfl rfl rfl rfl rfl⟩
    | false => exact ⟨_, _, _, .wentOn .consumed rfl (hnil _) (hnil _) rfl rfl rfl rfl rfl⟩
  | redeemDevice row body =>
    exact ⟨_, _, _, .wentOn (.enrolled rfl rfl) rfl rfl (hnil _) rfl rfl rfl rfl rfl⟩
  | redeemToken row body device =>
    exact ⟨_, _, _, .ended (.redeemed rfl rfl) (by rintro _ _ _ ⟨⟩) (fun _ => rfl) rfl rfl rfl rfl rfl rfl (hself _) rfl⟩

/-- The tables after the first section of a request: a call may have come in, or an answer. -/
structure Entered (s : EdgeState) (request : EdgeRequest) (s' : EdgeState) : Prop where
  devices : s'.devices = s.devices
  tokens : s'.tokens = s.tokens
  claimed : s'.claimed = s.claimed
  requests : s'.requests = s.requests + 1
  opened : s.opened <+: s'.opened
  approvals : s.approvals <+: s'.approvals
  outcome : (∃ stage, s'.inFlight = ⟨s.requests, request, stage⟩ :: s.inFlight
      ∧ s'.answers = s.answers)
    ∨ (∃ r, s'.inFlight = s.inFlight ∧ s'.answers = s.answers ++ [⟨s.requests, request, r⟩])

theorem entered (s : EdgeState) (request : EdgeRequest) (d : Draw) :
    Entered s request (s.step (.begin request d)) := by
  have hbegun := begun s request d
  change Entered s request (s.begin request d)
  have hself : ∀ {α : Type} (l : List α), l <+: l := List.prefix_refl
  generalize s.begin request d = s' at hbegun
  cases hbegun with
  | refused status message =>
    exact ⟨rfl, rfl, rfl, rfl, hself _, hself _, Or.inr ⟨_, rfl, rfl⟩⟩
  | paired hrow hnew =>
    exact ⟨rfl, rfl, rfl, rfl, List.prefix_append _ _, hself _, Or.inl ⟨_, rfl, rfl⟩⟩
  | turnedAway hkey hask hr => exact ⟨rfl, rfl, rfl, rfl, hself _, hself _, Or.inr ⟨_, rfl, rfl⟩⟩
  | claiming hkey hask => exact ⟨rfl, rfl, rfl, rfl, hself _, hself _, Or.inl ⟨_, rfl, rfl⟩⟩
  | rejecting hkey hselect => exact ⟨rfl, rfl, rfl, rfl, hself _, hself _, Or.inl ⟨_, rfl, rfl⟩⟩
  | approving hkey hselect =>
    exact ⟨rfl, rfl, rfl, rfl, hself _, List.prefix_append _ _, Or.inl ⟨_, rfl, rfl⟩⟩
  | redeeming hkey hselect hunexpired hstatus =>
    exact ⟨rfl, rfl, rfl, rfl, hself _, hself _, Or.inl ⟨_, rfl, rfl⟩⟩

/-- A call that is not in flight is not resumed. -/
theorem step_resume_of_notMem {c : Call} (hc : c ∉ s.inFlight) (d : Draw) :
    s.step (.resume c d) = s := if_neg hc

/-- How a call in flight can come out of a section. -/
inductive CallStep (s : EdgeState) (a : EdgeAction) : Call → Prop
  | same {c} (hc : c ∈ s.inFlight) : CallStep s a c
  | paired {row user expires ttl d} (ha : a = .begin (.pair user expires) d)
      (hkeys : row.keys = d.keys)
      (hnew : ∀ r ∈ s.rows, r.id ≠ row.id ∧ r.keys.pairingCode ≠ row.keys.pairingCode
        ∧ r.keys.enrollmentToken ≠ row.keys.enrollmentToken)
      (hopened : (s.step a).opened = s.opened ++ [row])
      (hstatus : row.status = .pendingRedeem) :
      CallStep s a ⟨s.requests, .pair user expires, .pairCreate row ttl⟩
  | claiming {h ip body d key id} (ha : a = .begin (.claim ip body) d)
      (hfree : (s.hub.cleanupExpired d.now).blockedFor d.now (clientIp (some (ip.getD "")) none)
        = none)
      (hfind : (s.hub.cleanupExpired d.now).find key = some (id, h))
      (hkey : bodyKey body.enrollmentToken body.pairingCode = some key) :
      CallStep s a ⟨s.requests, .claim ip body, .claimRecord key (body.candidate d.now)
        { h with candidateDevice := some (body.candidate d.now), status := .pendingApproval }⟩
  | rejecting {token code d key row}
      (ha : a = .begin (.approve (some row.userId) token code false) d)
      (hkey : bodyKey token code = some key) (hselect : s.select key = some row) :
      CallStep s a ⟨s.requests, .approve (some row.userId) token code false, .rejectRow key row⟩
  | approving {token code d key row}
      (ha : a = .begin (.approve (some row.userId) token code true) d)
      (hkey : bodyKey token code = some key) (hselect : s.select key = some row)
      (happrovals : (s.step a).approvals = s.approvals ++
        [(⟨s.requests, row.id, row.candidateDeviceJson.map CandidateJson.candidate,
          (s.hub.sessions.get row.id).bind (·.candidateDevice)⟩ : Approval)]) :
      CallStep s a ⟨s.requests, .approve (some row.userId) token code true, .approveDevice key row⟩
  | redeeming {body d key row approved} (ha : a = .begin (.redeem body) d)
      (hkey : bodyKey body.enrollmentToken body.pairingCode = some key)
      (hselect : s.select key = some row)
      (hstatus : row.status = if approved then .approved else .pendingRedeem) :
      CallStep s a ⟨s.requests, .redeem body, .redeemDelete key row body approved⟩
  | next {c d stage ds ts} (ha : a = .resume c d) (hc : c ∈ s.inFlight)
      (hnext : Next c.number c.stage (some stage) ds ts)
      (hdevices : (s.step a).devices = s.devices ++ ds) : CallStep s a { c with stage := stage }

theorem callStep {c' : Call} (hc' : c' ∈ (s.step a).inFlight) : CallStep s a c' := by
  cases a with
  | begin request d =>
    have hbegun := begun s request d
    change c' ∈ (s.begin request d).inFlight at hc'
    generalize hs' : s.begin request d = s' at hc' hbegun
    cases hbegun with
    | refused status message => exact .same hc'
    | paired hrow hnew =>
      rcases List.mem_cons.mp hc' with rfl | hc'
      · refine .paired rfl (by rw [hrow]) hnew ?_ (by rw [hrow])
        change (s.begin _ _).opened = _
        rw [hs']
        rfl
      · exact .same hc'
    | turnedAway hkey hask hr => exact .same hc'
    | claiming hkey hask =>
      rcases List.mem_cons.mp hc' with rfl | hc'
      · obtain ⟨i, h, hfree, hfind, rfl, -⟩ := Hub.claimed_of_session hask
        exact .claiming rfl hfree hfind hkey
      · exact .same hc'
    | rejecting hkey hselect =>
      rcases List.mem_cons.mp hc' with rfl | hc'
      · exact .rejecting rfl hkey hselect
      · exact .same hc'
    | approving hkey hselect =>
      rcases List.mem_cons.mp hc' with rfl | hc'
      · refine .approving rfl hkey hselect ?_
        change (s.begin _ _).approvals = _
        rw [hs']
        rfl
      · exact .same hc'
    | redeeming hkey hselect hunexpired hstatus =>
      rcases List.mem_cons.mp hc' with rfl | hc'
      · exact .redeeming rfl hkey hselect hstatus
      · exact .same hc'
  | resume c d =>
    by_cases hc : c ∈ s.inFlight
    · obtain ⟨next, ds, ts, hresumed⟩ := resumed hc d
      rw [hresumed.inFlight] at hc'
      rcases List.mem_append.mp hc' with hnext | hc'
      · obtain ⟨stage, rfl, rfl⟩ := Option.map_eq_some_iff.mp (Option.mem_toList.mp hnext)
        exact .next rfl hc hresumed.stage hresumed.devices
      · exact .same (List.mem_of_mem_erase hc')
    · rw [step_resume_of_notMem hc] at hc'
      exact .same hc'

end EdgeState

end Pcos.Edge
