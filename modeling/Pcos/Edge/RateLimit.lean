import Pcos.Edge.Accounts
import Pcos.Edge.HubIndexes
import Pcos.Foundations.Lockout
import Pcos.Foundations.Wp

/-!
# Edge/RateLimit — failed attempts that come in parallel

An attempt is checked when it comes in and counted when it fails, with awaits between the two, so
any number of attempts of one key may be past the check at once.  The worker counts a failure on
top of the record there is *then*; a claim at the pairing hub counts it on top of the record it
read *before* its await.

    begins ─▸ (in flight) ─▸ fails │ succeeds │ leaves
                     every other attempt may come here

A run is one life of the isolate, or of the hub.  What a failure finds decides: **while no failure
is counted on a record that blocks, and no claim on a record that has moved on, five failures block
and a block lasts** (`limited`).
-/

namespace Pcos.Edge.Accounts

open Foundations Lockout

/-! ## The records -/

def AttemptRecord.record (r : AttemptRecord) : Record := ⟨r.attempts, r.blockedUntil⟩



/-- The record of a key. -/
def Worker.limit (w : Worker) (key : String) : Option Record :=
  (w.authRateLimiter.get key).map AttemptRecord.record

/-- The refusal of a blocked key. -/
def tooMany : Refusal := ⟨429, "Too many requests"⟩

section Limiter

variable {w : Worker} {now : ℤ} {key key' : String}

theorem any_blocked :
    ((w.authRateLimiter.get key).any fun record => now < record.blockedUntil) = true
      ↔ Blocked (w.limit key) now := by
  simp only [Option.any_eq_true, decide_eq_true_eq, Blocked, Worker.limit, Option.mem_def,
    Option.map_eq_some_iff, AttemptRecord.record, exists_exists_and_eq_and]

/-- A blocked key is refused. -/
theorem checkRateLimit_blocked (h : Blocked (w.limit key) now) :
    checkRateLimit now key w = .error tooMany w := by
  have hany := any_blocked.mpr h
  change ensure (!(w.authRateLimiter.get key).any fun record => now < record.blockedUntil) tooMany w
    = _
  rw [hany]
  rfl

/-- Any other is let in. -/
theorem checkRateLimit_free (h : ¬ Blocked (w.limit key) now) :
    checkRateLimit now key w = .ok () w := by
  have hany := Bool.eq_false_iff.mpr fun htrue => h (any_blocked.mp htrue)
  change ensure (!(w.authRateLimiter.get key).any fun record => now < record.blockedUntil) tooMany w
    = _
  rw [hany]
  rfl

theorem leaves_recordFailedAttempt (most : ℕ) (period : ℤ) :
    leaves (recordFailedAttempt now key most period) w =
      { w with
        authRateLimiter := w.authRateLimiter.set key
          ⟨tally now (w.limit key), (failed most period now (w.limit key)).blockedUntil⟩ } := by
  rw [recordFailedAttempt, leaves_modify, Worker.limit]
  rcases hget : w.authRateLimiter.get key with _ | r
  · simp only [Option.map_none, tally, failed, Nat.zero_add]
    rfl
  · simp only [Option.map_some, tally, failed, AttemptRecord.record]

theorem limit_recordFailedAttempt (most : ℕ) (period : ℤ) :
    (leaves (recordFailedAttempt now key most period) w).limit key' =
      if key' = key then some (failed most period now (w.limit key)) else w.limit key' := by
  rw [leaves_recordFailedAttempt]
  simp only [Worker.limit, Dict.get_set]
  split
  · rfl
  · rfl

theorem limit_recordSuccess :
    (leaves (recordSuccess key) w).limit key' = if key' = key then none else w.limit key' := by
  change ((w.authRateLimiter.delete key).get key').map AttemptRecord.record = _
  rw [Dict.get_delete]
  split
  · rfl
  · rfl

end Limiter

/-! ## Attempts at the worker -/

/-- The isolate, the keys whose attempts are past the check, and what each key is owed. -/
structure Logins where
  worker : Worker
  flight : List String
  ledger : String → Ledger

inductive Attempt
  | begins (now : ℕ) (key : String)
  | fails (now : ℕ) (key : String)
  | succeeds (key : String)
  /-- The attempt ends without a record, as one without a password does. -/
  | leaves (key : String)

namespace Logins

/-- The worker as it starts, with whatever accounts there are. -/
def start (w : Worker) : Logins := ⟨{ w with authRateLimiter := .empty }, [], fun _ => Ledger.clear⟩

def step (s : Logins) : Attempt → Logins
  | .begins now key =>
    match checkRateLimit now key s.worker with
    | .ok _ w => { s with worker := w, flight := key :: s.flight }
    | .error _ w => { s with worker := w }
  | .fails now key =>
    if key ∈ s.flight then
      let w := Foundations.leaves (recordFailedAttempt now key 5 300000) s.worker
      { worker := w
        flight := s.flight.erase key
        ledger := Function.update s.ledger key
          (((w.limit key).map ((s.ledger key).fail now ·)).getD (s.ledger key)) }
    else s
  | .succeeds key =>
    if key ∈ s.flight then
      { worker := Foundations.leaves (recordSuccess key) s.worker
        flight := s.flight.erase key
        ledger := Function.update s.ledger key Ledger.clear }
    else s
  | .leaves key => { s with flight := s.flight.erase key }

/-- No failure is counted on a record that blocks. -/
def Open (s : Logins) : Attempt → Prop
  | .fails now key => key ∈ s.flight → ¬ Blocked (s.worker.limit key) now
  | _ => True

instance Open.decidable (s : Logins) : ∀ e, Decidable (s.Open e)
  | .begins _ _ => isTrue trivial
  | .fails now key =>
    inferInstanceAs (Decidable (key ∈ s.flight → ¬ Blocked (s.worker.limit key) now))
  | .succeeds _ => isTrue trivial
  | .leaves _ => isTrue trivial

/-- A blocked key is refused until its block ends, unless it has succeeded since; and five failures
in a row have blocked it. -/
structure Limited (s : Logins) : Prop where
  refused : ∀ key, ∀ T ∈ (s.ledger key).blocks, ∀ now < T,
    checkRateLimit now key s.worker = .error tooMany s.worker
  blocked : ∀ key, (s.ledger key).since < 5

/-- Every key's record counts what its ledger does. -/
def Kept (s : Logins) : Prop := ∀ key, Keeps 5 (s.worker.limit key) (s.ledger key)

theorem kept_start (w : Worker) : (start w).Kept := fun _ => Keeps.clear

theorem Kept.honoured {s : Logins} (h : s.Kept) : s.Limited where
  refused key T hT now hnow :=
    checkRateLimit_blocked (((h key).honours (Nat.succ_pos 4)).blocked T hT now hnow)
  blocked key := ((h key).honours (Nat.succ_pos 4)).since_lt

theorem Kept.step (s : Logins) (e : Attempt) (h : s.Kept) (hopen : s.Open e) : (s.step e).Kept := by
  intro key'
  cases e with
  | begins now key =>
    by_cases hblocked : Blocked (s.worker.limit key) now
    · simpa only [Logins.step, checkRateLimit_blocked hblocked] using h key'
    · simpa only [Logins.step, checkRateLimit_free hblocked] using h key'
  | leaves key => exact h key'
  | succeeds key =>
    simp only [Logins.step]
    split
    · simp only [limit_recordSuccess, Function.update_apply]
      split
      · exact Keeps.clear
      · exact h key'
    · exact h key'
  | fails now key =>
    simp only [Logins.step]
    split
    · rename_i hflight
      simp only [limit_recordFailedAttempt, Function.update_apply, if_true, Option.map_some,
        Option.getD_some]
      have hperiod : (0 : ℤ) < 300000 := by decide
      split
      · rename_i heq
        subst heq
        exact (h key').failed hperiod (Int.natCast_nonneg now)
          (advances_of_not_blocked hperiod (Int.natCast_nonneg now) (hopen hflight))
      · exact h key'
    · exact h key'

end Logins

/-! ## A request is such an attempt -/

/-- What a request left of the limiter, an attempt would have left that no other came between. -/
def Attempted (now : ℕ) (key : String) (w w' : Worker) : Prop :=
  ∃ e ∈ [Attempt.fails now key, .succeeds key, .leaves key],
    w'.limit = (run Logins.step ⟨w, [], fun _ => Ledger.clear⟩ [.begins now key, e]).worker.limit

section Requests

variable {p : Platform} {secret : String} {c : Call} {clientIp : String} {w w' : Worker}
  {now : ℕ} {key : String}

theorem run_begins (h : ¬ Blocked (w.limit key) now) (e : Attempt) :
    run Logins.step ⟨w, [], fun _ => Ledger.clear⟩ [.begins now key, e] =
      Logins.step ⟨w, [key], fun _ => Ledger.clear⟩ e := by
  simp only [run, List.foldl_cons, List.foldl_nil, Logins.step, checkRateLimit_free h]

theorem attempted_leaves (h : w'.authRateLimiter = w.authRateLimiter) :
    Attempted now key w w' := by
  have hlimit : w'.limit = w.limit := funext fun key' => by rw [Worker.limit, h, Worker.limit]
  refine ⟨.leaves key, by simp, hlimit.trans ?_⟩
  by_cases hblocked : Blocked (w.limit key) now
  · simp only [run, List.foldl_cons, List.foldl_nil, Logins.step, checkRateLimit_blocked hblocked]
  · rw [run_begins hblocked]
    rfl

theorem attempted_fails (h : ¬ Blocked (w.limit key) now) :
    Attempted now key w (leaves (recordFailedAttempt now key 5 300000) w) := by
  refine ⟨.fails now key, by simp, ?_⟩
  rw [run_begins h]
  simp only [Logins.step, List.mem_singleton, if_true]

theorem attempted_succeeds (h : ¬ Blocked (w.limit key) now)
    (hw' : w'.authRateLimiter = w.authRateLimiter.delete key) : Attempted now key w w' := by
  have hlimit : w'.limit = (leaves (recordSuccess key) w).limit :=
    funext fun key' => by rw [Worker.limit, hw']; rfl
  refine ⟨.succeeds key, by simp, hlimit.trans ?_⟩
  rw [run_begins h]
  simp only [Logins.step, List.mem_singleton, if_true]

/-- The check, and what it says. -/
theorem wp_checkRateLimit_free {now : ℤ} {Q : Unit → Worker → Prop} {P : Worker → Prop}
    (hQ : ¬ Blocked (w.limit key) now → Q () w) (hP : P w) :
    wp (checkRateLimit now key) Q (fun _ => P) w := by
  by_cases h : Blocked (w.limit key) now
  · simpa only [wp, checkRateLimit_blocked h] using hP
  · simpa only [wp, checkRateLimit_free h] using hQ h

theorem wp_recordFailedAttempt {now : ℤ} {Q : Unit → Worker → Prop} {E : Refusal → Worker → Prop} :
    wp (recordFailedAttempt now key 5 300000) Q E w
      ↔ Q () (leaves (recordFailedAttempt now key 5 300000) w) := Iff.rfl

variable {P : Worker → Prop}

theorem wp_startSession {user : User}
    (hP : ∀ w', w'.authRateLimiter = w.authRateLimiter.delete ("login_" ++ clientIp) → P w') :
    wp (startSession p secret c clientIp user) (fun _ => P) (fun _ => P) w := by
  simp only [startSession, recordSuccess, issueTokenPair, wp_bind, wp_modify, wp_get, wp_okOr,
    wp_pure]
  exact ⟨fun _ _ => hP _ rfl, fun _ => hP _ rfl⟩

/-- The code decides between a session and a failure. -/
theorem wp_checkMfaCode_startSession {user : User} {mfaSecret mfaCode : String}
    (hfails : P (leaves (recordFailedAttempt c.now ("login_" ++ clientIp) 5 300000) w))
    (hleaves : P w)
    (hsucceeds : ∀ w', w'.authRateLimiter = w.authRateLimiter.delete ("login_" ++ clientIp) → P w') :
    wp (do
      checkMfaCode p c clientIp mfaSecret mfaCode
      startSession p secret c clientIp user) (fun _ => P) (fun _ => P) w := by
  simp only [checkMfaCode, wp_bind, wp_okOr]
  refine ⟨fun valid _ => ?_, fun _ => hleaves⟩
  split
  · exact wp_startSession hsucceeds
  · rw [wp_bind, wp_recordFailedAttempt, wp_throw]
    exact hfails

/-- A login is an attempt. -/
theorem attempted_login (hnow : c.now = now) (body : LoginBody) :
    Attempted now ("login_" ++ clientIp) w (leaves (login p secret c clientIp body) w) := by
  have hleaves : Attempted now ("login_" ++ clientIp) w w := attempted_leaves rfl
  refine wp.leaves (P := Attempted now ("login_" ++ clientIp) w) ?_
  simp only [login, wp_bind, wp_okOr, wp_get]
  refine wp_checkRateLimit_free (fun hfree => ?_) hleaves
  rw [hnow] at hfree
  have hfails : Attempted now ("login_" ++ clientIp) w
      (leaves (recordFailedAttempt c.now ("login_" ++ clientIp) 5 300000) w) :=
    hnow ▸ attempted_fails hfree
  refine ⟨fun email _ => ⟨fun password _ => ?_, fun _ => hleaves⟩, fun _ => hleaves⟩
  split
  · rw [wp_bind, wp_recordFailedAttempt, wp_throw]
    exact hfails
  split
  · exact wp_startSession fun w' hw' => attempted_succeeds hfree hw'
  split
  · simp only [wp_bind, wp_okOr, wp_pure]
    exact ⟨fun _ _ => hleaves, fun _ => hleaves⟩
  · exact wp_checkMfaCode_startSession hfails hleaves fun w' hw' => attempted_succeeds hfree hw'

/-- So is the completion of a challenge. -/
theorem attempted_challenge (hnow : c.now = now) (body : ChallengeBody) :
    Attempted now ("login_" ++ clientIp) w (leaves (challenge p secret c clientIp body) w) := by
  have hleaves : Attempted now ("login_" ++ clientIp) w w := attempted_leaves rfl
  refine wp.leaves (P := Attempted now ("login_" ++ clientIp) w) ?_
  simp only [challenge, wp_bind, wp_okOr, wp_get]
  refine wp_checkRateLimit_free (fun hfree => ?_) hleaves
  rw [hnow] at hfree
  have hcode : ∀ (user : User) (mfaSecret mfaCode : String),
      wp (do
        checkMfaCode p c clientIp mfaSecret mfaCode
        startSession p secret c clientIp user)
        (fun _ => Attempted now ("login_" ++ clientIp) w)
        (fun _ => Attempted now ("login_" ++ clientIp) w) w := fun user mfaSecret mfaCode =>
    wp_checkMfaCode_startSession (hnow ▸ attempted_fails hfree) hleaves
      fun w' hw' => attempted_succeeds hfree hw'
  simp only [wp_bind] at hcode
  exact ⟨fun mfaToken _ => ⟨fun mfaCode _ => ⟨fun claims _ => ⟨fun sub _ => ⟨fun user _ =>
    ⟨fun mfaSecret _ => hcode user mfaSecret mfaCode, fun _ => hleaves⟩, fun _ => hleaves⟩,
    fun _ => hleaves⟩, fun _ => hleaves⟩, fun _ => hleaves⟩, fun _ => hleaves⟩

end Requests

end Pcos.Edge.Accounts

namespace Pcos.Edge

open Foundations Lockout

/-! ## Claims at the pairing hub -/

def IpRecord.record (r : IpRecord) : Record := ⟨r.count, r.blockedUntil⟩

variable {C R : Type}

/-- A claim past the check: its address, its time, and the record it read. -/
structure Claiming where
  ip : String
  now : ℕ
  ipRecord : Option IpRecord
deriving DecidableEq

namespace Hub

/-- The record of an address. -/
def limit (h : Hub C R) (ip : String) : Option Record := (h.ipAttempts.get ip).map IpRecord.record

/-- What is left of a claim after its await, at the time `later`. -/
def settle (later : ℤ) (h : Hub C R) (c : Claiming) (key : String) (candidate : C) :
    Hub C R × HubResponse C R :=
  match h.find key with
  | none =>
    let count := (match c.ipRecord with
      | some r => if r.blockedUntil ≤ (c.now : ℤ) then r.count else 0
      | none => 0) + 1
    if 5 ≤ count then
      ({ h with ipAttempts := h.ipAttempts.set c.ip ⟨count, c.now + 300000⟩ },
        .error 429
          "Too many invalid pairing attempts. Pairing temporarily blocked for 5 minutes." (some 300))
    else
      ({ h with ipAttempts := h.ipAttempts.set c.ip ⟨count, 0⟩ },
        .error 401 "Invalid or expired pairing code" none)
  | some (id, session) =>
    let h := { h with ipAttempts := h.ipAttempts.delete c.ip }
    if session.expiresAt ≤ later then (h, .error 401 "Pairing session has expired" none)
    else if 5 ≤ session.failedAttempts then
      ((h.drop id session).persist,
        .error 401 "Too many failed attempts. Pairing session invalidated." none)
    else
      let session :=
        { session with candidateDevice := some candidate, status := .pendingApproval }
      ((h.update id session).persist, .session session)

/-- A claim that nothing comes between is the check and the rest. -/
theorem claim_eq_settle (now : ℕ) (h : Hub C R) (ip key : String) (candidate : C)
    (hfree : h.blockedFor now ip = none) :
    h.claim now ip key candidate = h.settle now ⟨ip, now, h.ipAttempts.get ip⟩ key candidate := by
  unfold claim settle
  rw [hfree]
  cases h.find key with
  | none => rfl
  | some e => rfl

theorem isSome_blockedFor {h : Hub C R} {now : ℤ} {ip : String} :
    (h.blockedFor now ip).isSome ↔ Blocked (h.limit ip) now := by
  unfold blockedFor limit
  rcases h.ipAttempts.get ip with _ | r
  · simp [Blocked]
  · by_cases hlt : now < r.blockedUntil <;> simp [Blocked, IpRecord.record, hlt]

theorem tally_ipRecord (c : Claiming) :
    (match c.ipRecord with
      | some r => if r.blockedUntil ≤ (c.now : ℤ) then r.count else 0
      | none => 0) + 1 = tally c.now (c.ipRecord.map IpRecord.record) := by
  rcases c.ipRecord with _ | r
  · rfl
  · rfl

/-- A claim of an unknown key fails its address. -/
theorem settle_none {later : ℤ} {h : Hub C R} {c : Claiming} {key : String} {candidate : C}
    (hfind : h.find key = none) (ip : String) :
    (h.settle later c key candidate).1.limit ip =
      if ip = c.ip then some (failed 5 300000 c.now (c.ipRecord.map IpRecord.record))
      else h.limit ip := by
  unfold settle failed
  simp only [hfind, tally_ipRecord]
  split
  · simp only [limit, Dict.get_set]
    split
    · rfl
    · rfl
  · simp only [limit, Dict.get_set]
    split
    · rfl
    · rfl

/-- A claim of a known key clears its address. -/
theorem settle_some {later : ℤ} {h : Hub C R} {c : Claiming} {key : String} {candidate : C}
    {found : String × PairingSessionData C R} (hfind : h.find key = some found) (ip : String) :
    (h.settle later c key candidate).1.limit ip = if ip = c.ip then none else h.limit ip := by
  have hclear : ((h.ipAttempts.delete c.ip).get ip).map IpRecord.record =
      if ip = c.ip then none else h.limit ip := by
    rw [Dict.get_delete]
    split
    · rfl
    · rfl
  unfold settle
  simp only [hfind]
  split
  · exact hclear
  split
  · exact hclear
  · exact hclear

/-- A claim of an unknown key is refused. -/
theorem settle_error {h : Hub C R} {key : String} (hfind : h.find key = none) (later : ℤ)
    (c : Claiming) (candidate : C) :
    ∃ status message retryAfter,
      (h.settle later c key candidate).2 = .error status message retryAfter := by
  unfold settle
  simp only [hfind, tally_ipRecord]
  split
  · exact ⟨_, _, _, rfl⟩
  · exact ⟨_, _, _, rfl⟩

/-- A claim of a live session opens it. -/
theorem settle_session {later : ℤ} {h : Hub C R} {c : Claiming} {key id : String} {candidate : C}
    {s : PairingSessionData C R} (hfind : h.find key = some (id, s)) (hlive : later < s.expiresAt)
    (hfew : s.failedAttempts < 5) :
    ∃ s', (h.settle later c key candidate).2 = .session s' := by
  unfold settle
  simp only [hfind, if_neg (not_le.mpr hlive), if_neg (Nat.not_le.mpr hfew)]
  exact ⟨_, rfl⟩

theorem limit_cleanupExpired (now : ℤ) (h : Hub C R) : (h.cleanupExpired now).limit = h.limit := by
  rw [cleanupExpired_eq]
  rfl

/-- No request but a claim counts. -/
theorem limit_fetch {now : ℤ} {h : Hub C R} {req : HubRequest C R}
    (hreq : ∀ cf fwd key candidate, req ≠ .claim cf fwd key candidate) :
    (h.fetch now req).1.limit = h.limit := by
  rw [← limit_cleanupExpired now h, fetch]
  cases req with
  | create id userId code token expiresAt => rfl
  | claim cf fwd key candidate => exact absurd rfl (hreq cf fwd key candidate)
  | approve key userId approved redeemResult =>
    simp only [serve, approve]
    split
    · rfl
    split
    · rfl
    · rfl
  | status key => rfl
  | consume key =>
    simp only [serve, consume]
    split
    · rfl
    · rfl

end Hub

/-- The hub, the claims that are past the check, and what each address is owed. -/
structure Claims (C R : Type) where
  hub : Hub C R
  flight : List Claiming
  ledger : String → Ledger

inductive ClaimEvent (C R : Type)
  | begins (now : ℕ) (ip : String)
  | settles (c : Claiming) (later : ℤ) (key : String) (candidate : C)
  /-- Any other request. -/
  | serves (now : ℤ) (req : HubRequest C R)
      (other : ∀ cf fwd key candidate, req ≠ .claim cf fwd key candidate)

/-- What a claim's answer makes of the ledger of its address, whose record is now `cur`. -/
def HubResponse.enter (now : ℕ) (cur : Option Record) (l : Ledger) : HubResponse C R → Ledger
  | .session _ => Ledger.clear
  | .error _ _ _ => (cur.map (l.fail now ·)).getD l
  | .success => l

namespace Claims

def start : Claims C R := ⟨.new, [], fun _ => Ledger.clear⟩

def step (s : Claims C R) : ClaimEvent C R → Claims C R
  | .begins now ip =>
    let h := s.hub.cleanupExpired now
    match h.blockedFor now ip with
    | some _ => { s with hub := h }
    | none => { s with hub := h, flight := ⟨ip, now, h.ipAttempts.get ip⟩ :: s.flight }
  | .settles c later key candidate =>
    if c ∈ s.flight then
      let (h, response) := s.hub.settle later c key candidate
      { hub := h
        flight := s.flight.erase c
        ledger := Function.update s.ledger c.ip (response.enter c.now (h.limit c.ip) (s.ledger c.ip)) }
    else s
  | .serves now req _ => { s with hub := (s.hub.fetch now req).1 }

/-- A claim that fails counts on a record that has not moved on, and one that clears a record opens
the session it found. -/
def Timely (s : Claims C R) (c : Claiming) (later : ℤ) :
    Option (String × PairingSessionData C R) → Prop
  | none => Advances 5 300000 c.now (c.ipRecord.map IpRecord.record) (s.hub.limit c.ip)
  | some (_, session) =>
    s.hub.limit c.ip = none ∨ later < session.expiresAt ∧ session.failedAttempts < 5

instance Timely.decidable (s : Claims C R) (c : Claiming) (later : ℤ) :
    ∀ found, Decidable (s.Timely c later found)
  | none => Advances.decidable _ _ _ _ _
  | some (_, session) =>
    inferInstanceAs (Decidable (s.hub.limit c.ip = none ∨ later < session.expiresAt ∧ _))

/-- Every claim is timely. -/
def Open (s : Claims C R) : ClaimEvent C R → Prop
  | .settles c later key _ => c ∈ s.flight → s.Timely c later (s.hub.find key)
  | _ => True

instance Open.decidable (s : Claims C R) : ∀ e, Decidable (s.Open e)
  | .begins _ _ => isTrue trivial
  | .settles c later key _ =>
    inferInstanceAs (Decidable (c ∈ s.flight → s.Timely c later (s.hub.find key)))
  | .serves _ _ _ => isTrue trivial

structure Limited (s : Claims C R) : Prop where
  refused : ∀ ip, ∀ T ∈ (s.ledger ip).blocks, ∀ now < T, (s.hub.blockedFor now ip).isSome
  blocked : ∀ ip, (s.ledger ip).since < 5

/-- Every address's record counts what its ledger does. -/
def Kept (s : Claims C R) : Prop := ∀ ip, Keeps 5 (s.hub.limit ip) (s.ledger ip)

variable {s : Claims C R}

theorem kept_start : (start : Claims C R).Kept := fun _ => Keeps.clear

theorem Kept.honoured (h : s.Kept) : s.Limited where
  refused ip T hT now hnow :=
    Hub.isSome_blockedFor.mpr (((h ip).honours (Nat.succ_pos 4)).blocked T hT now hnow)
  blocked ip := ((h ip).honours (Nat.succ_pos 4)).since_lt

/-- A cleared record keeps what its ledger becomes. -/
theorem keeps_enter {now : ℕ} {l : Ledger} (response : HubResponse C R)
    (h : (∃ s', response = .session s') ∨ Keeps 5 none l) :
    Keeps 5 none (response.enter now none l) := by
  cases response with
  | session s' => exact Keeps.clear
  | error status message retryAfter =>
    exact h.resolve_left fun ⟨s', hs'⟩ => nomatch hs'
  | success => exact h.resolve_left fun ⟨s', hs'⟩ => nomatch hs'

theorem Kept.settles (h : s.Kept) {c : Claiming} {later : ℤ} {key : String} {candidate : C}
    (hflight : c ∈ s.flight) (hopen : s.Open (.settles c later key candidate)) (ip : String) :
    Keeps 5 ((s.hub.settle later c key candidate).1.limit ip)
      (Function.update s.ledger c.ip ((s.hub.settle later c key candidate).2.enter c.now
        ((s.hub.settle later c key candidate).1.limit c.ip) (s.ledger c.ip)) ip) := by
  have hopen := hopen hflight
  rw [Function.update_apply]
  rcases hfind : s.hub.find key with _ | ⟨id, session⟩
  · -- the failure goes on top of the record that was read
    obtain ⟨status, message, retryAfter, hresponse⟩ := Hub.settle_error hfind later c candidate
    rw [hfind] at hopen
    rw [hresponse, Hub.settle_none hfind, Hub.settle_none hfind, if_pos rfl]
    split
    · rename_i heq
      exact (heq ▸ h ip).failed (by decide) (Int.natCast_nonneg c.now) hopen
    · exact h ip
  · -- the record goes
    rw [hfind] at hopen
    rw [Hub.settle_some hfind, Hub.settle_some hfind, if_pos rfl]
    split
    · rename_i heq
      refine keeps_enter _ (hopen.elim (fun hnone => Or.inr ?_) fun hlive => Or.inl ?_)
      · exact hnone ▸ h c.ip
      · exact Hub.settle_session hfind hlive.1 hlive.2
    · exact h ip

theorem Kept.step (s : Claims C R) (e : ClaimEvent C R) (h : s.Kept) (hopen : s.Open e) :
    (s.step e).Kept := by
  intro ip
  cases e with
  | begins now ip' =>
    simp only [Claims.step]
    split
    · exact (congrFun (Hub.limit_cleanupExpired now s.hub) ip).symm ▸ h ip
    · exact (congrFun (Hub.limit_cleanupExpired now s.hub) ip).symm ▸ h ip
  | settles c later key candidate =>
    simp only [Claims.step]
    split
    · rename_i hflight
      exact h.settles hflight hopen ip
    · exact h ip
  | serves now req hreq => exact (congrFun (Hub.limit_fetch hreq) ip).symm ▸ h ip

end Claims

/-! ## Five failures block, and a block lasts -/

/-- **Where no attempt fails on a record that blocks, and no claim counts on a record that has
moved on, a block holds until its end or a success, and five failures in a row make one.** -/
theorem limited :
    (∀ (w : Accounts.Worker) (es : List Accounts.Attempt),
      Along Accounts.Logins.Open Accounts.Logins.step (.start w) es →
        (run Accounts.Logins.step (.start w) es).Limited)
    ∧ ∀ es : List (ClaimEvent C R),
      Along Claims.Open Claims.step .start es → (run Claims.step .start es).Limited := by
  constructor
  · intro w es h
    exact (h.invariant Accounts.Logins.Kept.step (Accounts.Logins.kept_start w)).honoured
  · intro es h
    exact (h.invariant Claims.Kept.step Claims.kept_start).honoured

namespace Burst

/-- A worker without accounts. -/
def worker : Accounts.Worker := ⟨[], List.nodup_nil, [], [], .empty⟩

/-- Six attempts past the check fail; the sixth opens what the fifth blocked. -/
def attempts : List Accounts.Attempt :=
  List.replicate 6 (.begins 0 "login_10.0.0.1") ++ List.replicate 6 (.fails 0 "login_10.0.0.1")

/-- Five attempts fail one after the other, and a sixth is turned away. -/
def attemptsInTurn : List Accounts.Attempt :=
  (List.replicate 5 [Accounts.Attempt.begins 0 "login_10.0.0.1", .fails 0 "login_10.0.0.1"]).flatten
    ++ [.begins 1 "login_10.0.0.1"]

def guess (n : ℕ) : ClaimEvent Unit Unit :=
  .settles ⟨"10.0.0.1", 0, if n = 0 then none else some ⟨n, 0⟩⟩ 0 "000000" ()

/-- Five claims read that there is no record, and fail. -/
def claims : List (ClaimEvent Unit Unit) :=
  List.replicate 5 (.begins 0 "10.0.0.1") ++ List.replicate 5 (guess 0)

/-- Five claims fail one after the other. -/
def claimsInTurn : List (ClaimEvent Unit Unit) :=
  (List.range 5).flatMap fun n => [.begins 0 "10.0.0.1", guess n]

end Burst

open Burst

/-- In turn, five failures block. -/
theorem limited_inTurn :
    (run Accounts.Logins.step (.start worker) attemptsInTurn).Limited
    ∧ ((run Accounts.Logins.step (.start worker) attemptsInTurn).ledger "login_10.0.0.1").blocks =
      [300000]
    ∧ (run Claims.step .start claimsInTurn).Limited
    ∧ ((run Claims.step .start claimsInTurn).ledger "10.0.0.1").blocks = [300000] :=
  ⟨(limited (C := Unit) (R := Unit)).1 worker attemptsInTurn (by decide), by decide,
    (limited (C := Unit) (R := Unit)).2 claimsInTurn (by decide), by decide⟩

/-- In parallel, a sixth attempt opens what the fifth blocked, and five claims block nothing. -/
theorem not_limited :
    ¬ (run Accounts.Logins.step (.start worker) attempts).Limited
    ∧ ¬ (run Claims.step .start claims).Limited := by
  constructor
  · intro h
    have hblock : (300000 : ℤ) ∈
        ((run Accounts.Logins.step (.start worker) attempts).ledger "login_10.0.0.1").blocks := by
      decide
    have hfree : ¬ Blocked
        ((run Accounts.Logins.step (.start worker) attempts).worker.limit "login_10.0.0.1") 1 := by
      decide
    have hrefused := h.refused "login_10.0.0.1" 300000 hblock 1 (by decide)
    rw [Accounts.checkRateLimit_free hfree] at hrefused
    cases hrefused
  · intro h
    have hsince := h.blocked "10.0.0.1"
    have hfive : ((run Claims.step .start claims).ledger "10.0.0.1").since = 5 := by
      decide
    omega

end Pcos.Edge
