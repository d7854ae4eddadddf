import Pcos.Backend.Pairing
import Pcos.Backend.System

/-!
# Backend/SingleUse — one session, one device, one hand-over

A session is used once if it leads to at most one device, at most one refresh token, and its tokens
go at most once to a party that does not own them.  `Accounted` counts, for one session, the calls
in flight with what they have still to insert,

    to insert a device + devices ≤ 1,   to insert a token + tokens ≤ devices,
    to finish + results kept + results handed over ≤ tokens,

and every section of every call keeps it, as long as it begins to provision only sessions that
nobody has begun to provision.
-/

namespace Pcos

open Foundations

/-- The result stems from the session. -/
def RedeemPairingResponse.of (session : Uuid) (r : RedeemPairingResponse) : Bool :=
  r.session = session

namespace PairingStore

/-- The sessions that hold a result minted for this one. -/
def kept (session : Uuid) (st : PairingStore) : ℕ :=
  st.sessions.count fun s => s.redeemResult.any (·.of session)

variable {st : PairingStore} {session : Uuid}

theorem kept_modify (session : Uuid) {old new : PairingSession} (h : st.sessions.get new.id = some old) :
    (st.modify new).kept session + (if old.redeemResult.any (·.of session) then 1 else 0)
      = st.kept session + if new.redeemResult.any (·.of session) then 1 else 0 := by
  rw [kept, kept, sessions_modify, Dict.count_set, Dict.count_of_get h]
  omega

theorem kept_remove_le (st : PairingStore) (id : Uuid) :
    (st.remove id).kept session ≤ st.kept session := by
  unfold remove
  split
  · exact Dict.count_delete_le _ _ _
  · exact Nat.le_refl _

theorem kept_remove (session : Uuid) {s : PairingSession} (h : st.sessions.get s.id = some s) :
    (st.remove s.id).kept session + (if s.redeemResult.any (·.of session) then 1 else 0)
      = st.kept session := by
  unfold remove
  rw [h]
  exact (Dict.count_of_get h _).symm

theorem kept_cleanupExpired_le (st : PairingStore) (now : ℤ) :
    (st.cleanupExpired now).kept session ≤ st.kept session := by
  unfold cleanupExpired
  generalize (st.sessions.entries.filter fun e => e.2.expiresAt ≤ now).map Prod.fst = ids
  induction ids generalizing st with
  | nil => exact Nat.le_refl _
  | cons id ids ih => exact Nat.le_trans (ih _) (kept_remove_le st id)

theorem kept_insert_le {s : PairingSession} (hs : s.redeemResult = none) :
    (st.insert s).kept session ≤ st.kept session := by
  rw [kept, sessions_insert, Dict.count_set]
  simp only [hs, Option.any_none, Bool.false_eq_true, if_false, Nat.add_zero]
  exact Dict.count_delete_le _ _ _

/-- A session that changes and keeps its result. -/
theorem kept_modify_of_eq {old new : PairingSession} (h : st.sessions.get new.id = some old)
    (hr : new.redeemResult = old.redeemResult) : (st.modify new).kept session = st.kept session := by
  have := kept_modify session h
  rw [hr] at this
  exact Nat.add_right_cancel this

end PairingStore

/-! ## Counting -/

/-- The stage of the call concerns this session. -/
def Provisioning.starting (session : Uuid) (p : Provisioning) : Bool :=
  p.stage = .device && p.session.id = session

def Provisioning.holdsDevice (session : Uuid) (p : Provisioning) : Bool :=
  match p.stage with
  | .token _ => p.session.id = session
  | _ => false

def Provisioning.holdsTokens (session : Uuid) (p : Provisioning) : Bool :=
  match p.stage with
  | .finish result => result.of session
  | _ => false

/-- The response hands tokens of the session to a party that does not own them. -/
def handsOver (session : Uuid) (r : Uuid × PairingResponse) : Bool :=
  r.2.tokens.any fun t => t.of session && t.owner ≠ r.1

namespace PairingService

def devicesOf (s : PairingService) (session : Uuid) : List DeviceRow :=
  s.devices.filter fun row => row.session = session

def tokensOf (s : PairingService) (session : Uuid) : List RefreshTokenRow :=
  s.refreshTokens.filter fun row => row.session = session

def handedOver (s : PairingService) (session : Uuid) : List (Uuid × PairingResponse) :=
  s.responses.filter (handsOver session)

/-- **A session is used once.** -/
structure SingleUse (s : PairingService) (session : Uuid) : Prop where
  devices : (s.devicesOf session).length ≤ 1
  tokens : (s.tokensOf session).length ≤ 1
  handedOver : (s.handedOver session).length ≤ 1

/-- No device has been inserted for the session, and no call is about to. -/
def Untouched (s : PairingService) (session : Uuid) : Prop :=
  (∀ row ∈ s.devices, row.session ≠ session) ∧ ∀ p ∈ s.inFlight, p.session.id ≠ session

instance (s : PairingService) (session : Uuid) : Decidable (s.Untouched session) :=
  inferInstanceAs (Decidable (_ ∧ _))

/-- Only untouched sessions begin to be provisioned, and a status call that finds tokens comes from
their owner. -/
def OneAtATime (s : PairingService) : PairingAction → Prop
  | .approve now userId key approved =>
    ∀ sess ∈ (s.store.approve now userId key approved s.approvals.length).2.starts,
      s.Untouched sess.id
  | .redeem now _ req => ∀ sess ∈ (s.store.redeem now req).2.starts, s.Untouched sess.id
  | .status _ caller key =>
    ∀ sess ∈ s.store.getByKey key, ∀ r ∈ sess.redeemResult, r.owner = caller
  | _ => True

instance (s : PairingService) : ∀ a, Decidable (s.OneAtATime a)
  | .approve now userId key approved => inferInstanceAs <| Decidable <|
    ∀ sess ∈ (s.store.approve now userId key approved s.approvals.length).2.starts,
      s.Untouched sess.id
  | .redeem now _ req => inferInstanceAs <| Decidable <|
    ∀ sess ∈ (s.store.redeem now req).2.starts, s.Untouched sess.id
  | .status _ caller key => inferInstanceAs <| Decidable <|
    ∀ sess ∈ s.store.getByKey key, ∀ r ∈ sess.redeemResult, r.owner = caller
  | .create _ _ _ _ _ _ _ => inferInstanceAs (Decidable True)
  | .claim _ _ _ => inferInstanceAs (Decidable True)
  | .insertDevice _ _ _ => inferInstanceAs (Decidable True)
  | .insertToken _ _ _ _ _ => inferInstanceAs (Decidable True)
  | .finish _ _ => inferInstanceAs (Decidable True)

/-- What is in flight, in the tables, in the store and handed over for one session. -/
structure Accounted (s : PairingService) (session : Uuid) : Prop where
  devices : s.inFlight.countP (·.starting session) + (s.devicesOf session).length ≤ 1
  tokens : s.inFlight.countP (·.holdsDevice session) + (s.tokensOf session).length
    ≤ (s.devicesOf session).length
  results : s.inFlight.countP (·.holdsTokens session) + s.store.kept session
    + (s.handedOver session).length ≤ (s.tokensOf session).length

/-- A call mints for the owner of its session, and an approval is a call of that owner. -/
def OwnCalls (s : PairingService) : Prop :=
  ∀ p ∈ s.inFlight, (∀ result, p.stage = .finish result → result.owner = p.session.userId)
    ∧ ∀ key candidate number, p.purpose = .approve key candidate number →
      p.caller = p.session.userId

theorem Accounted.singleUse {s : PairingService} {session : Uuid} (h : s.Accounted session) :
    s.SingleUse session := by
  obtain ⟨h₁, h₂, h₃⟩ := h
  constructor <;> omega

theorem accounted_start (session : Uuid) : start.Accounted session :=
  ⟨Nat.zero_le 1, Nat.le_refl 0, Nat.le_refl 0⟩

theorem ownCalls_start : start.OwnCalls := fun _ hp => nomatch hp

/-! ## Calls that come and go -/

variable {s : PairingService} {session : Uuid} {p : Provisioning}

/-- The calls in flight, one of them apart. -/
theorem countP_inFlight (hp : p ∈ s.inFlight) (f : Provisioning → Bool) :
    s.inFlight.countP f = (s.inFlight.erase p).countP f + if f p then 1 else 0 := by
  rw [(List.perm_cons_erase hp).countP_eq, List.countP_cons]

theorem length_handedOver_respond (s : PairingService) (session caller : Uuid)
    (r : PairingResponse) :
    ((s.respond caller r).handedOver session).length
      = (s.handedOver session).length + if handsOver session (caller, r) then 1 else 0 := by
  unfold handedOver respond
  rw [List.filter_append, List.length_append]
  congr 1
  by_cases h : handsOver session (caller, r) = true <;> simp [h]

theorem handsOver_of_tokens {caller : Uuid} {r : PairingResponse} (h : r.tokens = none) :
    handsOver session (caller, r) = false := by
  rw [handsOver, h]
  rfl

/-- Nothing is handed over that was not kept. -/
theorem Accounted.respond (h : s.Accounted session) {store : PairingStore} {caller : Uuid}
    {r : PairingResponse}
    (hkept : store.kept session + (if handsOver session (caller, r) then 1 else 0)
      ≤ s.store.kept session) :
    ({ s with store := store }.respond caller r).Accounted session := by
  obtain ⟨h₁, h₂, h₃⟩ := h
  refine ⟨h₁, h₂, ?_⟩
  have := length_handedOver_respond { s with store := store } session caller r
  change s.inFlight.countP (·.holdsTokens session) + store.kept session + _ ≤ (s.tokensOf session).length
  rw [this]
  change s.inFlight.countP (·.holdsTokens session) + store.kept session
    + ((s.handedOver session).length + _) ≤ _
  omega

/-- A call begins on an untouched session. -/
theorem Accounted.begin (h : s.Accounted session) {caller : Uuid} {sess : PairingSession}
    {purpose : Purpose} (hfree : s.Untouched sess.id) :
    { s with inFlight := ⟨caller, sess, purpose, .device⟩ :: s.inFlight }.Accounted session := by
  obtain ⟨h₁, h₂, h₃⟩ := h
  by_cases hsess : sess.id = session
  · have hdevices : s.devicesOf session = [] :=
      List.filter_eq_nil_iff.mpr fun row hrow => by simpa [hsess] using hfree.1 row hrow
    have hstarting : s.inFlight.countP (·.starting session) = 0 :=
      List.countP_eq_zero.mpr fun q hq => by
        have := hfree.2 q hq
        simp [Provisioning.starting, ← hsess, this]
    refine ⟨?_, ?_, ?_⟩
    · change (_ :: s.inFlight).countP _ + (s.devicesOf session).length ≤ 1
      rw [List.countP_cons, hstarting, hdevices]
      split <;> simp
    · exact h₂
    · exact h₃
  · refine ⟨?_, h₂, h₃⟩
    change (_ :: s.inFlight).countP _ + (s.devicesOf session).length ≤ 1
    rw [List.countP_cons_of_neg]
    · exact h₁
    · simp [Provisioning.starting, hsess]

/-- A call that fails leaves nothing behind. -/
theorem Accounted.leave (h : s.Accounted session) (hp : p ∈ s.inFlight) (e : PairingError) :
    (s.leave p (.error e)).Accounted session := by
  obtain ⟨h₁, h₂, h₃⟩ := h
  rw [countP_inFlight hp] at h₁ h₂ h₃
  have hhanded := length_handedOver_respond s session p.caller (.error e)
  rw [handsOver_of_tokens rfl] at hhanded
  refine ⟨?_, ?_, ?_⟩
  · change (s.inFlight.erase p).countP _ + (s.devicesOf session).length ≤ 1
    omega
  · change (s.inFlight.erase p).countP _ + (s.tokensOf session).length ≤ (s.devicesOf session).length
    omega
  · change (s.inFlight.erase p).countP _ + s.store.kept session
      + ((s.respond p.caller (.error e)).handedOver session).length ≤ (s.tokensOf session).length
    rw [hhanded]
    simp only [Bool.false_eq_true, if_false]
    omega

/-- The calls in flight once one of them has gone on. -/
theorem countP_proceed (s : PairingService) (p : Provisioning) (stage : Stage)
    (f : Provisioning → Bool) :
    (s.proceed p stage).inFlight.countP f
      = (s.inFlight.erase p).countP f + if f { p with stage := stage } then 1 else 0 :=
  List.countP_cons

theorem length_filter_concat {α : Type} (f : α → Bool) (l : List α) (a : α) :
    ((l ++ [a]).filter f).length = (l.filter f).length + if f a then 1 else 0 := by
  rw [List.filter_append, List.length_append]
  congr 1
  by_cases h : f a = true <;> simp [h]

theorem Accounted.insertDevice (h : s.Accounted session) (hp : p ∈ s.inFlight)
    (hstage : p.stage = .device) {row : DeviceRow} (hrow : row.session = p.session.id) :
    { s.proceed p (.token row) with devices := s.devices ++ [row] }.Accounted session := by
  obtain ⟨h₁, h₂, h₃⟩ := h
  rw [countP_inFlight hp] at h₁ h₂ h₃
  have hstarting : p.starting session = decide (p.session.id = session) := by
    simp [Provisioning.starting, hstage]
  have hholds : Provisioning.holdsDevice session { p with stage := .token row }
      = decide (p.session.id = session) := rfl
  have hdevices : ((s.devices ++ [row]).filter fun row => row.session = session).length
      = (s.devicesOf session).length + if decide (p.session.id = session) then 1 else 0 := by
    rw [length_filter_concat, hrow, devicesOf]
  rw [hstarting] at h₁
  refine ⟨?_, ?_, ?_⟩
  · change (s.proceed p (.token row)).inFlight.countP _ + ((s.devices ++ [row]).filter _).length ≤ 1
    rw [hdevices, countP_proceed, if_neg (by simp [Provisioning.starting])]
    omega
  · change (s.proceed p (.token row)).inFlight.countP _ + (s.tokensOf session).length
      ≤ ((s.devices ++ [row]).filter _).length
    rw [hdevices, countP_proceed, hholds]
    omega
  · change (s.proceed p (.token row)).inFlight.countP _ + s.store.kept session
      + (s.handedOver session).length ≤ (s.tokensOf session).length
    rw [countP_proceed, if_neg (by simp [Provisioning.holdsTokens])]
    omega

theorem Accounted.insertToken (h : s.Accounted session) (hp : p ∈ s.inFlight) {device : DeviceRow}
    (hstage : p.stage = .token device) {result : RedeemPairingResponse}
    (hresult : result.session = p.session.id) {row : RefreshTokenRow}
    (hrow : row.session = p.session.id) :
    { s.proceed p (.finish result) with
      refreshTokens := s.refreshTokens ++ [row] }.Accounted session := by
  obtain ⟨h₁, h₂, h₃⟩ := h
  rw [countP_inFlight hp] at h₁ h₂ h₃
  have hdevice : p.holdsDevice session = decide (p.session.id = session) := by
    simp [Provisioning.holdsDevice, hstage]
  have htokens : Provisioning.holdsTokens session { p with stage := .finish result }
      = decide (p.session.id = session) := by
    simp [Provisioning.holdsTokens, RedeemPairingResponse.of, hresult]
  have hrows : ((s.refreshTokens ++ [row]).filter fun row => row.session = session).length
      = (s.tokensOf session).length + if decide (p.session.id = session) then 1 else 0 := by
    rw [length_filter_concat, hrow, tokensOf]
  rw [hdevice] at h₂
  refine ⟨?_, ?_, ?_⟩
  · change (s.proceed p (.finish result)).inFlight.countP _ + (s.devicesOf session).length ≤ 1
    rw [countP_proceed, if_neg (by simp [Provisioning.starting])]
    omega
  · change (s.proceed p (.finish result)).inFlight.countP _
      + ((s.refreshTokens ++ [row]).filter _).length ≤ (s.devicesOf session).length
    rw [hrows, countP_proceed, if_neg (by simp [Provisioning.holdsDevice])]
    omega
  · change (s.proceed p (.finish result)).inFlight.countP _ + s.store.kept session
      + (s.handedOver session).length ≤ ((s.refreshTokens ++ [row]).filter _).length
    rw [hrows, countP_proceed, htokens]
    omega

/-- At the end the result goes into the store or to the caller, not both. -/
theorem kept_finish (s : PairingService) (session : Uuid) (hown : s.OwnCalls) (hp : p ∈ s.inFlight)
    {result : RedeemPairingResponse} (hstage : p.stage = .finish result) :
    (s.store.finish p result).kept session
        + (if handsOver session (p.caller, p.response result) then 1 else 0)
      ≤ s.store.kept session + if result.of session then 1 else 0 := by
  obtain ⟨howner, happrove⟩ := hown p hp
  unfold PairingStore.finish
  cases hpurpose : p.purpose with
  | approve key candidate number =>
    have hhands : handsOver session (p.caller, p.response result) = false := by
      simp [handsOver, Provisioning.response, hpurpose, PairingResponse.tokens,
        happrove key candidate number hpurpose, howner result hstage]
    rw [hhands]
    dsimp only
    cases hget : s.store.getByKey key with
    | none => exact Nat.le_add_right _ _
    | some sess =>
      have hfiled : s.store.sessions.get sess.id = some sess := PairingStore.get_of_getByKey hget
      have := PairingStore.kept_modify session (show s.store.sessions.get
        ({ sess with status := .approved, redeemResult := some result } : PairingSession).id = _
        from hfiled)
      simp only [Option.any_some] at this
      simp only [Bool.false_eq_true, if_false]
      omega
  | redeem req =>
    have hle : (if handsOver session (p.caller, p.response result) then 1 else 0)
        ≤ if result.of session then 1 else 0 := by
      simp only [handsOver, Provisioning.response, hpurpose, PairingResponse.tokens,
        Option.any_some, Bool.and_eq_true]
      split
      · rename_i hboth
        rw [if_pos hboth.1]
      · exact Nat.zero_le _
    exact Nat.add_le_add (PairingStore.kept_remove_le _ _) hle

theorem Accounted.finish (h : s.Accounted session) (hown : s.OwnCalls) (hp : p ∈ s.inFlight)
    {result : RedeemPairingResponse} (hstage : p.stage = .finish result) :
    { s.leave p (p.response result) with store := s.store.finish p result }.Accounted session := by
  obtain ⟨h₁, h₂, h₃⟩ := h
  rw [countP_inFlight hp] at h₁ h₂ h₃
  have hholds : p.holdsTokens session = result.of session := by
    simp [Provisioning.holdsTokens, hstage]
  have hkept := kept_finish s session hown hp hstage
  have hhanded := length_handedOver_respond s session p.caller (p.response result)
  rw [hholds] at h₃
  refine ⟨?_, ?_, ?_⟩
  · change (s.inFlight.erase p).countP _ + (s.devicesOf session).length ≤ 1
    omega
  · change (s.inFlight.erase p).countP _ + (s.tokensOf session).length ≤ (s.devicesOf session).length
    omega
  · change (s.inFlight.erase p).countP _ + (s.store.finish p result).kept session
      + ((s.respond p.caller (p.response result)).handedOver session).length
        ≤ (s.tokensOf session).length
    omega

/-! ## Every section -/

theorem Accounted.create (h : s.Accounted session) (now : ℤ) (userId : Uuid) (email : String)
    (ttl : Option ℕ) (id : Uuid) (code token : String) :
    (s.step (.create now userId (some email) ttl id code token)).Accounted session := by
  have hkept : (s.store.create now userId email ttl id code token).1.kept session
      ≤ s.store.kept session :=
    Nat.le_trans (PairingStore.kept_insert_le rfl) (PairingStore.kept_cleanupExpired_le _ _)
  have hstore : ({ s with store := (s.store.create now userId email ttl id code token).1 }.respond
      userId (s.store.create now userId email ttl id code token).2).Accounted session :=
    h.respond (by rw [handsOver_of_tokens rfl]; exact hkept)
  exact ⟨hstore.devices, hstore.tokens, hstore.results⟩

/-- Nothing is handed over, and the store keeps no more results than before. -/
theorem Accounted.quiet (h : s.Accounted session) {store : PairingStore} {caller : Uuid}
    {r : PairingResponse} (hr : r.tokens = none)
    (hkept : store.kept session ≤ s.store.kept session) :
    ({ s with store := store }.respond caller r).Accounted session :=
  h.respond (by rw [handsOver_of_tokens hr]; exact hkept)

theorem Accounted.claim (h : s.Accounted session) (now : ℤ) (caller : Uuid) (req : DeviceRequest) :
    (s.step (.claim now caller req)).Accounted session := by
  rw [step]
  obtain ⟨e, heq⟩ | ⟨id, e, heq⟩ | ⟨sess, r, hnamed, hr, heq⟩ := s.store.claim_cases now req
  · rw [heq]
    exact h.quiet rfl (Nat.le_refl _)
  · rw [heq]
    exact h.quiet rfl (PairingStore.kept_remove_le _ _)
  · rw [heq]
    have hfiled : s.store.sessions.get sess.id = some sess := PairingStore.get_of_named hnamed
    refine h.quiet hr (Nat.le_of_eq ?_)
    exact @PairingStore.kept_modify_of_eq _ _ sess _ hfiled rfl

theorem Accounted.approve (h : s.Accounted session) {now : ℤ} {userId : Uuid} {key : PairingKey}
    {approved : Bool} (hok : s.OneAtATime (.approve now userId key approved)) :
    (s.step (.approve now userId key approved)).Accounted session := by
  rw [step]
  obtain ⟨r, hr, heq⟩ | ⟨sess, r, hnamed, -, -, hr, heq⟩ | ⟨sess, k, c, hnamed, -, -, -, -, heq⟩ :=
    s.store.approve_cases now userId key approved s.approvals.length
  · rw [heq]
    exact h.quiet hr (Nat.le_refl _)
  · rw [heq]
    have hfiled : s.store.sessions.get sess.id = some sess := PairingStore.get_of_named hnamed
    refine h.quiet hr (Nat.le_of_eq ?_)
    exact @PairingStore.kept_modify_of_eq _ _ sess _ hfiled rfl
  · have hfree := hok sess (by rw [heq]; rfl)
    rw [heq]
    have hbegun : { s with inFlight := ⟨userId, sess, .approve k c s.approvals.length, .device⟩
        :: s.inFlight }.Accounted session := h.begin hfree
    exact ⟨hbegun.devices, hbegun.tokens, hbegun.results⟩

theorem Accounted.redeem (h : s.Accounted session) {now : ℤ} {caller : Uuid} {req : DeviceRequest}
    (hok : s.OneAtATime (.redeem now caller req)) :
    (s.step (.redeem now caller req)).Accounted session := by
  rw [step]
  obtain ⟨e, heq⟩ | ⟨sess, result, hnamed, -, hresult, heq⟩ | ⟨sess, hnamed, -, heq⟩ :=
    s.store.redeem_cases now req
  · rw [heq]
    exact h.quiet rfl (Nat.le_refl _)
  · rw [heq]
    refine h.respond ?_
    have := PairingStore.kept_remove session (PairingStore.get_of_named hnamed)
    rw [hresult, Option.any_some] at this
    rw [← this]
    refine Nat.add_le_add_left ?_ _
    simp only [handsOver, PairingResponse.tokens, Option.any_some, Bool.and_eq_true]
    split
    · rename_i hboth
      rw [if_pos hboth.1]
    · exact Nat.zero_le _
  · have hfree := hok sess (by rw [heq]; rfl)
    rw [heq]
    exact h.begin hfree

theorem Accounted.status (h : s.Accounted session) {now : ℤ} {caller : Uuid} {key : String}
    (hok : s.OneAtATime (.status now caller key)) :
    (s.step (.status now caller key)).Accounted session := by
  refine @Accounted.respond s session h s.store _ _ ?_
  have hhands : handsOver session (caller, s.store.status now key) = false := by
    simp only [handsOver, PairingStore.tokens_status]
    cases hget : s.store.getByKey key with
    | none => rfl
    | some sess =>
      rw [Option.bind_some]
      cases hresult : sess.redeemResult with
      | none => rfl
      | some result => simp [hok sess hget result hresult]
  rw [hhands]
  exact Nat.le_refl _

/-- **One section of a call keeps the account.** -/
theorem Accounted.step (h : s.Accounted session) (hown : s.OwnCalls) {a : PairingAction}
    (hok : s.OneAtATime a) : (s.step a).Accounted session := by
  cases a with
  | create now userId email ttl id code token =>
    cases email with
    | none => exact @Accounted.quiet s session h s.store _ _ rfl (Nat.le_refl _)
    | some email => exact h.create now userId email ttl id code token
  | claim now caller req => exact h.claim now caller req
  | approve now userId key approved => exact h.approve hok
  | status now caller key => exact h.status hok
  | redeem now caller req => exact h.redeem hok
  | insertDevice p deviceId stored =>
    rw [PairingService.step]
    split
    · rename_i hp
      split
      · exact h.insertDevice hp.1 hp.2 rfl
      · exact h.leave hp.1 .database
    · exact h
  | insertToken p device accessToken refreshToken stored =>
    rw [PairingService.step]
    split
    · rename_i hp
      split
      · exact h.insertToken hp.1 hp.2 rfl rfl
      · exact h.leave hp.1 .database
    · exact h
  | finish p result =>
    rw [PairingService.step]
    split
    · rename_i hp
      exact h.finish hown hp.1 hp.2
    · exact h

/-! ### Calls mint for the owner -/

theorem OwnCalls.erase (h : s.OwnCalls) (p : Provisioning) :
    { s with inFlight := s.inFlight.erase p }.OwnCalls :=
  fun q hq => h q (List.mem_of_mem_erase hq)

theorem OwnCalls.cons (h : s.OwnCalls) {q : Provisioning}
    (hresult : ∀ result, q.stage = .finish result → result.owner = q.session.userId)
    (happrove : ∀ key candidate number, q.purpose = .approve key candidate number →
      q.caller = q.session.userId) :
    { s with inFlight := q :: s.inFlight }.OwnCalls := by
  intro q' hq'
  rcases List.mem_cons.mp hq' with rfl | hq'
  · exact ⟨hresult, happrove⟩
  · exact h q' hq'

theorem OwnCalls.step (h : s.OwnCalls) (a : PairingAction) : (s.step a).OwnCalls := by
  cases a with
  | create now userId email ttl id code token => cases email <;> exact h
  | claim now caller req => exact h
  | approve now userId key approved =>
    rw [PairingService.step]
    obtain ⟨r, -, heq⟩ | ⟨sess, r, -, -, -, -, heq⟩ | ⟨sess, k, c, -, -, huser, -, -, heq⟩ :=
      s.store.approve_cases now userId key approved s.approvals.length
    · rw [heq]
      exact h
    · rw [heq]
      exact h
    · rw [heq]
      exact h.cons (q := ⟨userId, sess, .approve k c s.approvals.length, .device⟩) nofun
        fun _ _ _ _ => huser.symm
  | status now caller key => exact h
  | redeem now caller req =>
    rw [PairingService.step]
    obtain ⟨e, heq⟩ | ⟨sess, result, -, -, -, heq⟩ | ⟨sess, -, -, heq⟩ :=
      s.store.redeem_cases now req
    · rw [heq]
      exact h
    · rw [heq]
      exact h
    · rw [heq]
      exact h.cons (q := ⟨caller, sess, .redeem req, .device⟩) nofun nofun
  | insertDevice p deviceId stored =>
    rw [PairingService.step]
    split
    · rename_i hp
      split
      · exact (h.erase p).cons nofun (h p hp.1).2
      · exact h.erase p
    · exact h
  | insertToken p device accessToken refreshToken stored =>
    rw [PairingService.step]
    split
    · rename_i hp
      split
      · refine (h.erase p).cons ?_ (h p hp.1).2
        rintro result ⟨⟩
        rfl
      · exact h.erase p
    · exact h
  | finish p result =>
    rw [PairingService.step]
    split
    · exact h.erase p
    · exact h

/-- **Every session is used once**, in every state of a run whose calls begin to provision only
untouched sessions and whose status calls find no tokens of somebody else. -/
theorem singleUse_of_run {as : List PairingAction} (h : Along OneAtATime step start as)
    (session : Uuid) : (run step start as).SingleUse session := by
  have hinv := Along.invariant (P := fun s : PairingService => s.Accounted session ∧ s.OwnCalls)
    (fun s a hs hok => ⟨hs.1.step hs.2 hok, hs.2.step a⟩)
    ⟨accounted_start session, ownCalls_start⟩ h
  exact hinv.1.singleUse

open Sample in
/-- The phone claims, the owner approves, and the phone redeems. -/
def approvedOnce : List PairingAction :=
  let approval : Provisioning :=
    ⟨alice, claimed id1 alice, .approve "123456" (phone.candidate 1000) 0, .device⟩
  [opening id1 alice, .claim 1000 bob phone, .status 2000 alice "123456",
      .approve 3000 alice phone.key true]
    ++ provision id2 approval ++ [finishing id2 approval, .redeem 4000 bob phone]

open Sample in
theorem singleUse_approvedOnce : (run step start approvedOnce).SingleUse id1 :=
  singleUse_of_run (by decide) id1

open Sample in
/-- Two parties redeem a session before either of them removes it. -/
def redeemedTwice : List PairingAction :=
  let first : Provisioning := ⟨bob, opened id1 alice, .redeem phone, .device⟩
  let second : Provisioning := ⟨id3, opened id1 alice, .redeem phone, .device⟩
  [opening id1 alice, .redeem 1000 bob phone, .redeem 1000 id3 phone]
    ++ provision id2 first ++ provision tmp second ++ [finishing id2 first, finishing tmp second]

theorem not_singleUse_redeemedTwice :
    ¬ ∀ (as : List PairingAction) (session : Uuid), (run step start as).SingleUse session := by
  intro h
  exact absurd (h redeemedTwice Sample.id1).devices (by decide)

end PairingService

end Pcos
