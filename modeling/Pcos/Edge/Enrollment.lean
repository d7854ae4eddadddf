import Pcos.Edge.Sections

/-!
# Edge/Enrollment — what a pairing session leads to at the edge

A session yields one device and one refresh token at most, and a request that is turned away yields
none.  As in `Backend/SingleUse` the calls in flight are counted with what they have still to insert
(`Accounted`); `Numbered` follows the numbers of the requests from the calls to the rows and the
answers, and `Claimed` the claims from the rows of D1 to the devices.
-/

namespace Pcos.Edge

/-! ## What a stage has still to insert -/

/-- The number of the request that led to the row. -/
def Origin.number : Origin → ℕ
  | .approval n => n
  | .redemption n => n

/-- A redemption of the row enrols a device, as it holds no result to hand over. -/
def PairingRow.enrols (row : PairingRow) : Bool :=
  match row.status with
  | .pendingRedeem => true
  | .approved => (row.candidateDeviceJson.bind (·.redeemResult)).isNone
  | _ => false

namespace Stage

/-- A device is about to be inserted for the session. -/
def starts (session : String) : Stage → Bool
  | .approveDevice _ row => row.id = session
  | .redeemDelete _ row _ approved => row.id = session
    && (!approved || (row.candidateDeviceJson.bind (·.redeemResult)).isNone)
  | .redeemConsume _ row _ approved => row.id = session
    && (!approved || (row.candidateDeviceJson.bind (·.redeemResult)).isNone)
  | .redeemDevice row _ => row.id = session
  | _ => false

/-- A token is about to be inserted for the session. -/
def holds (session : String) : Stage → Bool
  | .approveToken _ row _ => row.id = session
  | .redeemToken row _ _ => row.id = session
  | _ => false

/-- A device has been inserted. -/
def inserted : Stage → Bool
  | .approveToken _ _ _ => true
  | .approveRow _ _ _ => true
  | .approveHub _ _ _ => true
  | .redeemToken _ _ _ => true
  | _ => false

end Stage

namespace EdgeState

variable {s s' : EdgeState} {session : String} {c : Call} {d : Draw} {next : Option Stage}
  {ds : List DeviceRow} {ts : List TokenRow} {request : EdgeRequest}

/-- Of a device to insert and the device inserted there is one less or as many as before. -/
theorem Next.starts_le {n : ℕ} {stage : Stage} (h : Next n stage next ds ts) (session : String) :
    next.toList.countP (Stage.starts session) + (ds.filter (·.session = session)).length
      ≤ if stage.starts session then 1 else 0 := by
  cases h with
  | device hinfo hsession horigin =>
    simp +contextual [Stage.starts, List.filter_cons, hsession, apply_ite]
  | enrolled hsession horigin =>
    simp +contextual [Stage.starts, List.filter_cons, hsession, apply_ite]
  | deleted => simp [Stage.starts, List.countP_cons]
  | again hresult => simp [Stage.starts, List.countP_cons, hresult]
  | consumed => simp [Stage.starts, List.countP_cons]
  | _ => simp [Stage.starts]

/-- A token to insert comes from a device inserted. -/
theorem Next.holds_le {n : ℕ} {stage : Stage} (h : Next n stage next ds ts) (session : String) :
    next.toList.countP (Stage.holds session) + (ts.filter (·.session = session)).length
      ≤ (if stage.holds session then 1 else 0) + (ds.filter (·.session = session)).length := by
  cases h with
  | device hinfo hsession horigin =>
    simp +contextual [Stage.holds, List.filter_cons, hsession, List.countP_cons, apply_ite]
  | enrolled hsession horigin =>
    simp +contextual [Stage.holds, List.filter_cons, hsession, List.countP_cons, apply_ite]
  | token hid hsession horigin =>
    simp +contextual [Stage.holds, List.filter_cons, hsession, apply_ite]
  | redeemed hsession horigin =>
    simp +contextual [Stage.holds, List.filter_cons, hsession, apply_ite]
  | _ => simp [Stage.holds]

/-- What is inserted bears the number of its request. -/
theorem Next.number {n : ℕ} {stage : Stage} (h : Next n stage next ds ts) :
    (∀ row ∈ ds, row.origin.number = n) ∧ ∀ row ∈ ts, row.origin.number = n := by
  cases h with
  | device hinfo hsession horigin => simp [horigin, Origin.number]
  | enrolled hsession horigin => simp [horigin, Origin.number]
  | token hid hsession horigin => simp [horigin, Origin.number]
  | redeemed hsession horigin => simp [horigin, Origin.number]
  | _ => simp

/-- A stage before the first insertion is reached from such a stage, without an insertion. -/
theorem Next.before {n : ℕ} {stage stage' : Stage} (h : Next n stage (some stage') ds ts)
    (hbefore : stage'.inserted = false) : ds = [] ∧ ts = [] ∧ stage.inserted = false := by
  cases h <;> first | exact ⟨rfl, rfl, rfl⟩ | cases hbefore

/-- A request that ends has inserted nothing, or asked the hub to approve, or redeemed. -/
theorem Next.ended {n : ℕ} {stage : Stage} (h : Next n stage none ds ts)
    (hredeems : stage.redeems = false) : (∃ key row result, stage = .approveHub key row result)
      ∨ ds = [] ∧ ts = [] ∧ stage.inserted = false := by
  cases h with
  | approvedHub => exact Or.inl ⟨_, _, _, rfl⟩
  | handedOver hresult => cases hredeems
  | redeemed hsession horigin => cases hredeems
  | _ => exact Or.inr ⟨rfl, rfl, rfl⟩

theorem Next.session_eq {n : ℕ} {stage stage' : Stage} (h : Next n stage (some stage') ds ts) :
    stage'.session = stage.session := by
  cases h <;> rfl

theorem Next.approves_eq {n : ℕ} {stage stage' : Stage} (h : Next n stage (some stage') ds ts) :
    stage'.approves = stage.approves := by
  cases h <;> rfl

/-- Only an approval inserts devices of an approval. -/
theorem Next.of_approval {n m : ℕ} {stage : Stage} (h : Next n stage next ds ts) {row : DeviceRow}
    (hrow : row ∈ ds) (horigin : row.origin = .approval m) :
    stage.approves = true ∧ row.session = stage.session := by
  cases h with
  | device hinfo hsession _ =>
    obtain rfl := List.mem_singleton.mp hrow
    exact ⟨rfl, hsession⟩
  | enrolled hsession hredeemed =>
    obtain rfl := List.mem_singleton.mp hrow
    cases hredeemed.symm.trans horigin
  | _ => cases hrow

/-! ## One device, one token -/

def devicesOf (s : EdgeState) (session : String) : List DeviceRow :=
  s.devices.filter (·.session = session)

def tokensOf (s : EdgeState) (session : String) : List TokenRow :=
  s.tokens.filter (·.session = session)

/-- No device has been inserted for the session, and no call is about to. -/
def Untouched (s : EdgeState) (session : String) : Prop :=
  (∀ row ∈ s.devices, row.session ≠ session) ∧ ∀ c ∈ s.inFlight, c.stage.starts session = false

instance (s : EdgeState) (session : String) : Decidable (s.Untouched session) :=
  inferInstanceAs (Decidable (_ ∧ _))

/-- A request that provisions a device finds its session untouched, and an approval finds a
candidate, and in the end its session in the hub. -/
def Provisionable (s : EdgeState) : EdgeAction → Prop
  | .begin (.approve user token code true) _ => ∀ key ∈ bodyKey token code, ∀ row ∈ s.select key,
      user = some row.userId → row.candidateDeviceJson ≠ none ∧ s.Untouched row.id
  | .begin (.redeem body) d => ∀ key ∈ bodyKey body.enrollmentToken body.pairingCode,
      ∀ row ∈ s.select key, d.now < row.expiresAt → row.enrols = true → s.Untouched row.id
  | .resume ⟨_, _, .approveHub key row _⟩ d =>
      ((s.hub.cleanupExpired d.now).find key).any (·.2.userId = row.userId) = true
  | _ => True

instance (s : EdgeState) : ∀ a, Decidable (s.Provisionable a)
  | .begin (.approve user token code true) _ => inferInstanceAs <| Decidable <|
      ∀ key ∈ bodyKey token code, ∀ row ∈ s.select key,
        user = some row.userId → row.candidateDeviceJson ≠ none ∧ s.Untouched row.id
  | .begin (.redeem body) d => inferInstanceAs <| Decidable <|
      ∀ key ∈ bodyKey body.enrollmentToken body.pairingCode,
        ∀ row ∈ s.select key, d.now < row.expiresAt → row.enrols = true → s.Untouched row.id
  | .resume ⟨_, _, .approveHub key row _⟩ d => inferInstanceAs <| Decidable <|
      ((s.hub.cleanupExpired d.now).find key).any (·.2.userId = row.userId) = true
  | .begin (.approve _ _ _ false) _ => inferInstanceAs (Decidable True)
  | .begin (.pair _ _) _ => inferInstanceAs (Decidable True)
  | .begin (.claim _ _) _ => inferInstanceAs (Decidable True)
  | .resume ⟨_, _, .pairCreate _ _⟩ _ => inferInstanceAs (Decidable True)
  | .resume ⟨_, _, .claimRecord _ _ _⟩ _ => inferInstanceAs (Decidable True)
  | .resume ⟨_, _, .rejectRow _ _⟩ _ => inferInstanceAs (Decidable True)
  | .resume ⟨_, _, .rejectHub _ _⟩ _ => inferInstanceAs (Decidable True)
  | .resume ⟨_, _, .approveDevice _ _⟩ _ => inferInstanceAs (Decidable True)
  | .resume ⟨_, _, .approveToken _ _ _⟩ _ => inferInstanceAs (Decidable True)
  | .resume ⟨_, _, .approveRow _ _ _⟩ _ => inferInstanceAs (Decidable True)
  | .resume ⟨_, _, .redeemDelete _ _ _ _⟩ _ => inferInstanceAs (Decidable True)
  | .resume ⟨_, _, .redeemConsume _ _ _ _⟩ _ => inferInstanceAs (Decidable True)
  | .resume ⟨_, _, .redeemDevice _ _⟩ _ => inferInstanceAs (Decidable True)
  | .resume ⟨_, _, .redeemToken _ _ _⟩ _ => inferInstanceAs (Decidable True)

/-- What is in flight and in the tables for one session. -/
structure Accounted (s : EdgeState) (session : String) : Prop where
  devices : s.inFlight.countP (·.stage.starts session) + (s.devicesOf session).length ≤ 1
  tokens : s.inFlight.countP (·.stage.holds session) + (s.tokensOf session).length
    ≤ (s.devicesOf session).length

theorem accounted_start (session : String) : start.Accounted session :=
  ⟨Nat.zero_le 1, Nat.le_refl 0⟩

/-- A call comes in. -/
theorem Accounted.entered (h : s.Accounted session) (hdevices : s'.devices = s.devices)
    (htokens : s'.tokens = s.tokens) (hflight : s'.inFlight = c :: s.inFlight)
    (hstarts : c.stage.starts session = true → s.Untouched session)
    (hholds : c.stage.holds session = false) : s'.Accounted session := by
  obtain ⟨h₁, h₂⟩ := h
  refine ⟨?_, ?_⟩
  · rw [hflight, devicesOf, hdevices, List.countP_cons]
    by_cases hc : c.stage.starts session = true
    · obtain ⟨hrows, hcalls⟩ := hstarts hc
      have hnone : s.inFlight.countP (·.stage.starts session) = 0 :=
        List.countP_eq_zero.mpr fun q hq => by simp [hcalls q hq]
      have hno : s.devices.filter (·.session = session) = [] :=
        List.filter_eq_nil_iff.mpr fun row hrow => by simpa using hrows row hrow
      rw [hnone, hno, if_pos hc]
      exact Nat.le_refl 1
    · rw [if_neg hc]
      exact h₁
  · rw [hflight, tokensOf, devicesOf, htokens, hdevices, List.countP_cons, hholds]
    exact h₂

/-- A call goes on or ends. -/
theorem Accounted.resumed (h : s.Accounted session) (hc : c ∈ s.inFlight)
    (hr : Resumed s c d next ds ts s') : s'.Accounted session := by
  obtain ⟨h₁, h₂⟩ := h
  have hperm := List.perm_cons_erase hc
  rw [hperm.countP_eq, List.countP_cons] at h₁ h₂
  have hnext : ∀ f : Stage → Bool,
      (next.map fun stage => ({ c with stage := stage } : Call)).toList.countP (fun c => f c.stage)
        = next.toList.countP f := by
    intro f
    cases next <;> rfl
  have hstarts := hr.stage.starts_le session
  have hholds := hr.stage.holds_le session
  refine ⟨?_, ?_⟩
  · rw [hr.inFlight, devicesOf, hr.devices, List.countP_append, List.filter_append,
      List.length_append, hnext (Stage.starts session)]
    unfold devicesOf at h₁
    omega
  · rw [hr.inFlight, tokensOf, hr.tokens, devicesOf, hr.devices, List.countP_append,
      List.filter_append, List.length_append, List.filter_append, List.length_append,
      hnext (Stage.holds session)]
    unfold tokensOf devicesOf at h₂
    omega

theorem Accounted.begin (h : s.Accounted session) (hok : s.Provisionable (.begin request d)) :
    (s.step (.begin request d)).Accounted session := by
  have hbegun := begun s request d
  change (s.begin request d).Accounted session
  generalize s.begin request d = s' at hbegun
  cases hbegun with
  | refused status message => exact ⟨h.devices, h.tokens⟩
  | paired hrow hnew => exact h.entered rfl rfl rfl nofun rfl
  | turnedAway hkey hask hr => exact ⟨h.devices, h.tokens⟩
  | claiming hkey hask => exact h.entered rfl rfl rfl nofun rfl
  | rejecting hkey hselect => exact h.entered rfl rfl rfl nofun rfl
  | @approving _ _ key row hkey hselect =>
    refine h.entered rfl rfl rfl (fun hstarts => ?_) rfl
    obtain rfl : row.id = session := of_decide_eq_true hstarts
    exact (hok key hkey row hselect rfl).2
  | @redeeming body key row approved hkey hselect hunexpired hstatus =>
    refine h.entered rfl rfl rfl (fun hstarts => ?_) rfl
    have hstarts := Bool.and_eq_true_iff.mp hstarts
    obtain rfl : row.id = session := of_decide_eq_true hstarts.1
    refine hok key hkey row hselect hunexpired ?_
    unfold PairingRow.enrols
    rw [hstatus]
    cases approved with
    | true => exact hstarts.2
    | false => rfl

/-- **One section keeps the account.** -/
theorem Accounted.step (h : s.Accounted session) {a : EdgeAction} (hok : s.Provisionable a) :
    (s.step a).Accounted session := by
  cases a with
  | begin request d => exact h.begin hok
  | resume c d =>
    by_cases hc : c ∈ s.inFlight
    · obtain ⟨next, ds, ts, hr⟩ := EdgeState.resumed hc d
      exact h.resumed hc hr
    · rw [step_resume_of_notMem hc]
      exact h

/-! ## Whose rows they are -/

/-- A device or a token has been inserted for the request. -/
def Provisioned (s : EdgeState) (n : ℕ) : Prop :=
  (∃ row ∈ s.devices, row.origin.number = n) ∨ ∃ row ∈ s.tokens, row.origin.number = n

/-- The numbers of the requests, in flight, answered, and behind the rows. -/
structure Numbered (s : EdgeState) : Prop where
  calls : ∀ c ∈ s.inFlight, c.number < s.requests
  distinct : (s.inFlight.map (·.number)).Nodup
  rows : ∀ n, s.Provisioned n → n < s.requests
  answers : ∀ answer ∈ s.answers, answer.number < s.requests
    ∧ ∀ c ∈ s.inFlight, c.number ≠ answer.number
  before : ∀ c ∈ s.inFlight, c.stage.inserted = false → ¬ s.Provisioned c.number
  refused : ∀ answer ∈ s.answers, answer.response.ok = false → ¬ s.Provisioned answer.number

theorem numbered_start : start.Numbered where
  calls _ hc := nomatch hc
  distinct := List.nodup_nil
  rows _ h := by rcases h with ⟨_, hrow, -⟩ | ⟨_, hrow, -⟩ <;> cases hrow
  answers _ h := nomatch h
  before _ hc := nomatch hc
  refused _ h := nomatch h

theorem Resumed.provisioned (hr : Resumed s c d next ds ts s') {n : ℕ} (h : s'.Provisioned n) :
    s.Provisioned n ∨ n = c.number ∧ (ds ≠ [] ∨ ts ≠ []) := by
  obtain ⟨hds, hts⟩ := hr.stage.number
  rcases h with ⟨row, hrow, hn⟩ | ⟨row, hrow, hn⟩
  · rw [hr.devices, List.mem_append] at hrow
    rcases hrow with hrow | hrow
    · exact Or.inl (Or.inl ⟨row, hrow, hn⟩)
    · exact Or.inr ⟨hn.symm.trans (hds row hrow), Or.inl (List.ne_nil_of_mem hrow)⟩
  · rw [hr.tokens, List.mem_append] at hrow
    rcases hrow with hrow | hrow
    · exact Or.inl (Or.inr ⟨row, hrow, hn⟩)
    · exact Or.inr ⟨hn.symm.trans (hts row hrow), Or.inr (List.ne_nil_of_mem hrow)⟩

/-- Two calls in flight have two numbers. -/
theorem Numbered.number_ne (h : s.Numbered) (hc : c ∈ s.inFlight) {c' : Call}
    (hc' : c' ∈ s.inFlight.erase c) : c'.number ≠ c.number := by
  have hnodup := h.distinct
  rw [((List.perm_cons_erase hc).map (·.number)).nodup_iff, List.map_cons, List.nodup_cons] at hnodup
  intro heq
  exact hnodup.1 (heq ▸ List.mem_map_of_mem (f := Call.number) hc')

theorem Numbered.begin (h : s.Numbered) (he : Entered s request s') : s'.Numbered := by
  have hsame : ∀ n, s'.Provisioned n → s.Provisioned n := by
    intro n hn
    rwa [Provisioned, he.devices, he.tokens] at hn
  have hnew : ¬ s'.Provisioned s.requests := fun hn => Nat.lt_irrefl _ (h.rows _ (hsame _ hn))
  have hlt : ∀ {n}, n < s.requests → n < s'.requests := fun hn => he.requests ▸ Nat.lt_succ_of_lt hn
  have hlast : s.requests < s'.requests := he.requests ▸ Nat.lt_succ_self _
  rcases he.outcome with ⟨stage, hflight, hanswers⟩ | ⟨r, hflight, hanswers⟩
  · refine ⟨?_, ?_, fun n hn => hlt (h.rows n (hsame n hn)), ?_, ?_, ?_⟩
    · intro c hc
      rw [hflight] at hc
      rcases List.mem_cons.mp hc with rfl | hc
      · exact hlast
      · exact hlt (h.calls c hc)
    · rw [hflight, List.map_cons, List.nodup_cons]
      refine ⟨fun hmem => ?_, h.distinct⟩
      obtain ⟨c, hc, heq⟩ := List.mem_map.mp hmem
      exact Nat.lt_irrefl _ (heq ▸ h.calls c hc)
    · intro answer hanswer
      rw [hanswers] at hanswer
      refine ⟨hlt (h.answers answer hanswer).1, fun c hc => ?_⟩
      rw [hflight] at hc
      rcases List.mem_cons.mp hc with rfl | hc
      · exact (Nat.ne_of_lt (h.answers answer hanswer).1).symm
      · exact (h.answers answer hanswer).2 c hc
    · intro c hc hbefore
      rw [hflight] at hc
      rcases List.mem_cons.mp hc with rfl | hc
      · exact hnew
      · exact fun hn => h.before c hc hbefore (hsame _ hn)
    · intro answer hanswer hno hn
      rw [hanswers] at hanswer
      exact h.refused answer hanswer hno (hsame _ hn)
  · refine ⟨?_, ?_, fun n hn => hlt (h.rows n (hsame n hn)), ?_, ?_, ?_⟩
    · intro c hc
      exact hlt (h.calls c (hflight ▸ hc))
    · exact hflight ▸ h.distinct
    · intro answer hanswer
      rw [hanswers, List.mem_append, List.mem_singleton] at hanswer
      rcases hanswer with hanswer | rfl
      · exact ⟨hlt (h.answers answer hanswer).1,
          fun c hc => (h.answers answer hanswer).2 c (hflight ▸ hc)⟩
      · exact ⟨hlast, fun c hc => Nat.ne_of_lt (h.calls c (hflight ▸ hc))⟩
    · intro c hc hbefore hn
      exact h.before c (hflight ▸ hc) hbefore (hsame _ hn)
    · intro answer hanswer hno hn
      rw [hanswers, List.mem_append, List.mem_singleton] at hanswer
      rcases hanswer with hanswer | rfl
      · exact h.refused answer hanswer hno (hsame _ hn)
      · exact hnew hn

/-- An approval that finds its session in the hub is answered with it. -/
theorem ok_of_provisionable {key : String} {row : PairingRow} {result : RedeemResult}
    (hok : s.Provisionable (.resume c d)) (hstage : c.stage = .approveHub key row result) :
    EdgeResponse.ok (.hub (s.askHub d.now (.approve key row.userId true (some result))).2)
      = true := by
  obtain ⟨n, request, stage⟩ := c
  obtain rfl : stage = .approveHub key row result := hstage
  obtain ⟨e, hfind, huser⟩ := (Option.any_eq_true _ _).mp hok
  obtain ⟨session, hsession⟩ := Hub.ok_fetch_approve true (some result) hfind
    (of_decide_eq_true huser)
  rw [askHub, hsession]
  rfl

theorem Numbered.resumed (h : s.Numbered) (hok : s.Provisionable (.resume c d))
    (hc : c ∈ s.inFlight) (hr : Resumed s c d next ds ts s') : s'.Numbered := by
  have hmem : ∀ {q}, q ∈ s'.inFlight →
      (∃ stage, next = some stage ∧ q = { c with stage := stage }) ∨ q ∈ s.inFlight.erase c := by
    intro q hq
    rw [hr.inFlight, List.mem_append, Option.mem_toList, Option.map_eq_some_iff] at hq
    exact hq.imp_left fun ⟨stage, hstage, heq⟩ => ⟨stage, hstage, heq.symm⟩
  have hnumber : ∀ {q}, q ∈ s'.inFlight → ∃ q' ∈ s.inFlight, q'.number = q.number := by
    intro q hq
    rcases hmem hq with ⟨stage, -, rfl⟩ | hq
    · exact ⟨c, hc, rfl⟩
    · exact ⟨q, List.mem_of_mem_erase hq, rfl⟩
  refine ⟨?_, ?_, ?_, ?_, ?_, ?_⟩
  · intro q hq
    obtain ⟨q', hq', heq⟩ := hnumber hq
    rw [hr.requests, ← heq]
    exact h.calls q' hq'
  · have hnodup := h.distinct
    rw [((List.perm_cons_erase hc).map (·.number)).nodup_iff] at hnodup
    rw [hr.inFlight]
    cases next with
    | none => exact (List.nodup_cons.mp hnodup).2
    | some stage => exact hnodup
  · intro n hn
    rw [hr.requests]
    rcases hr.provisioned hn with hn | ⟨rfl, -⟩
    · exact h.rows n hn
    · exact h.calls c hc
  · intro answer hanswer
    rw [hr.requests]
    rcases hr.answers with heq | ⟨hnext, r, heq, -⟩
    · rw [heq] at hanswer
      refine ⟨(h.answers answer hanswer).1, fun q hq => ?_⟩
      obtain ⟨q', hq', hqn⟩ := hnumber hq
      exact hqn ▸ (h.answers answer hanswer).2 q' hq'
    · rw [heq, List.mem_append, List.mem_singleton] at hanswer
      rcases hanswer with hanswer | rfl
      · refine ⟨(h.answers answer hanswer).1, fun q hq => ?_⟩
        obtain ⟨q', hq', hqn⟩ := hnumber hq
        exact hqn ▸ (h.answers answer hanswer).2 q' hq'
      · refine ⟨h.calls c hc, fun q hq => ?_⟩
        rcases hmem hq with ⟨stage, hstage, -⟩ | hq
        · cases hnext.symm.trans hstage
        · exact h.number_ne hc hq
  · intro q hq hbefore hn
    rcases hmem hq with ⟨stage, rfl, rfl⟩ | hq
    · obtain ⟨rfl, rfl, hbefore⟩ := hr.stage.before hbefore
      rcases hr.provisioned hn with hn | ⟨-, hne⟩
      · exact h.before c hc hbefore hn
      · simp at hne
    · rcases hr.provisioned hn with hn | ⟨heq, -⟩
      · exact h.before q (List.mem_of_mem_erase hq) hbefore hn
      · exact h.number_ne hc hq heq
  · have hold : ∀ answer ∈ s.answers, answer.response.ok = false →
        ¬ s'.Provisioned answer.number := by
      intro answer hanswer hno hn
      rcases hr.provisioned hn with hn | ⟨heq, -⟩
      · exact h.refused answer hanswer hno hn
      · exact (h.answers answer hanswer).2 c hc heq.symm
    intro answer hanswer hno hn
    rcases hr.answers with heq | ⟨rfl, r, heq, happrove, hredeem⟩
    · exact hold answer (heq ▸ hanswer) hno hn
    · rw [heq, List.mem_append, List.mem_singleton] at hanswer
      rcases hanswer with hanswer | rfl
      · exact hold answer hanswer hno hn
      · cases hredeems : c.stage.redeems with
        | true => cases (hredeem hredeems).symm.trans hno
        | false =>
          rcases hr.stage.ended hredeems with ⟨key, row, result, hstage⟩ | ⟨rfl, rfl, hbefore⟩
          · have hyes := ok_of_provisionable hok hstage
            rw [← happrove key row result hstage] at hyes
            cases hyes.symm.trans hno
          · rcases hr.provisioned hn with hn | ⟨-, hne⟩
            · exact h.before c hc hbefore hn
            · simp at hne

theorem Numbered.step (h : s.Numbered) {a : EdgeAction} (hok : s.Provisionable a) :
    (s.step a).Numbered := by
  cases a with
  | begin request d => exact h.begin (EdgeState.entered s request d)
  | resume c d =>
    by_cases hc : c ∈ s.inFlight
    · obtain ⟨next, ds, ts, hr⟩ := EdgeState.resumed hc d
      exact h.resumed hok hc hr
    · rw [step_resume_of_notMem hc]
      exact h

/-! ## Only claimed sessions are approved -/

theorem claimed_subset (s : EdgeState) (a : EdgeAction) : s.claimed ⊆ (s.step a).claimed := by
  cases a with
  | begin request d => rw [(entered s request d).claimed]; exact List.Subset.refl _
  | resume c d =>
    by_cases hc : c ∈ s.inFlight
    · obtain ⟨next, ds, ts, hr⟩ := EdgeState.resumed hc d
      exact hr.claimed
    · rw [step_resume_of_notMem hc]
      exact List.Subset.refl _

/-- A device that a section adds is that of a call. -/
theorem mem_devices_step {a : EdgeAction} {row : DeviceRow} (h : row ∈ (s.step a).devices) :
    row ∈ s.devices ∨ ∃ c ∈ s.inFlight, ∃ d next ds ts, a = .resume c d
      ∧ Next c.number c.stage next ds ts ∧ row ∈ ds := by
  cases a with
  | begin request d => exact Or.inl ((entered s request d).devices ▸ h)
  | resume c d =>
    by_cases hc : c ∈ s.inFlight
    · obtain ⟨next, ds, ts, hr⟩ := EdgeState.resumed hc d
      rw [hr.devices, List.mem_append] at h
      exact h.imp_right fun hrow => ⟨c, hc, d, next, ds, ts, rfl, hr.stage, hrow⟩
    · rw [step_resume_of_notMem hc] at h
      exact Or.inl h

/-- A row with a candidate, a call that approves, and a device of an approval are about a session
that was claimed. -/
structure Claimed (s : EdgeState) : Prop where
  rows : ∀ row ∈ s.rows, row.candidateDeviceJson ≠ none → row.id ∈ s.claimed
  calls : ∀ c ∈ s.inFlight, c.stage.approves = true → c.stage.session ∈ s.claimed
  devices : ∀ row ∈ s.devices, ∀ n, row.origin = .approval n → row.session ∈ s.claimed

theorem claimed_start : start.Claimed where
  rows _ h := nomatch h
  calls _ h := nomatch h
  devices _ h := nomatch h

theorem Claimed.step (h : s.Claimed) {a : EdgeAction} (hok : s.Provisionable a) :
    (s.step a).Claimed where
  rows row hrow hjson := by
    cases rowStep hrow with
    | same hold => exact claimed_subset s a (h.rows row hold hjson)
    | opened ha hkeys hnew hopened hstatus hnone => exact absurd hnone hjson
    | claimed hold ha hc hstage hkey hclaimed => exact hclaimed
    | rejected hold ha hc hstage hid =>
      have hclaimed := h.rows _ hold hjson
      exact claimed_subset s a hclaimed
    | approved hold ha hc hstage hid =>
      have := h.calls _ hc (by rw [hstage]; rfl)
      rw [hstage] at this
      exact claimed_subset s a (hid ▸ this)
  calls c hc happroves := by
    cases callStep hc with
    | same hold => exact claimed_subset s a (h.calls c hold happroves)
    | approving ha hkey hselect happrovals =>
      subst ha
      have hjson := (hok _ hkey _ hselect rfl).1
      exact claimed_subset s _ (h.rows _ (List.mem_of_find?_eq_some hselect) hjson)
    | next ha hold hnext =>
      rw [hnext.approves_eq] at happroves
      rw [hnext.session_eq]
      exact claimed_subset s a (h.calls _ hold happroves)
    | _ => cases happroves
  devices row hrow n horigin := by
    rcases mem_devices_step hrow with hrow | ⟨c, hc, d, next, ds, ts, ha, hnext, hrow⟩
    · exact claimed_subset s a (h.devices row hrow n horigin)
    · obtain ⟨happroves, hsession⟩ := hnext.of_approval hrow horigin
      exact claimed_subset s a (hsession ▸ h.calls c hc happroves)

end EdgeState

end Pcos.Edge
