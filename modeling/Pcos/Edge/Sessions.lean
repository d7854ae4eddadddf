import Pcos.Backend.Sessions
import Pcos.Edge.Challenge
import Pcos.Edge.Recovery

/-!
# Edge/Sessions — refreshes, changes of the password and recoveries, query by query (`index.ts`)

    refresh    SELECT row ──▸ SELECT user ──▸ UPDATE row ──▸ INSERT row, answer
    change     SELECT user ──▸ UPDATE user ──▸ UPDATE all rows of the user, answer
    recovery   SELECT user ──▸ SELECT key ──▸ UPDATE user ──▸ UPDATE key ──▸ UPDATE all rows, answer

There is no logout.  For the refresh tokens this is a rotation as well, so `rotates` tells for both
servers when refresh tokens are safe.
-/

namespace Pcos.Edge.Accounts

open Foundations Mnemonic

deriving instance DecidableEq for Call

/-! ## Requests -/

/-- A request under way, by what it has read and done so far. -/
inductive Ticket
  | read (c : Call) (row : RefreshToken)
  | located (c : Call) (row : RefreshToken) (email : String)
  | rotated (c : Call) (row : RefreshToken) (email : String)
  | changing (user newHash : String)
  | recovering (now : ℤ) (clientIp salt user hash newPassword : String)
  | found (clientIp user key newHash : String)
  | reset (clientIp user key : String)
  | leaving (user : String) (clientIp : Option String)
  deriving DecidableEq

/-- A phrase that was generated. -/
structure Generated where
  user : String
  phrase : String
  key : String
  deriving DecidableEq

/-- The tables, the requests under way, and what has happened: the hashes of the refresh tokens given
out, of those exchanged, and of those whose user's were all revoked, or that come of such; the
phrases generated, and the keys that have reset a password. -/
structure Sessions where
  tables : Tables
  flight : List Ticket
  issued : List (String × String)
  exchanged : List String
  stale : List String
  generated : List Generated
  resets : List String

inductive SessionEvent
  /-- Registration, a login, or the enrolment of a device. -/
  | grant (c : Call) (user email : String)
  | refresh (c : Call) (token : Option String)
  | changePassword (salt user : String) (body : ChangePasswordBody)
  | generate (now : ℤ) (id : Uuid) (user : String) (entropy : Entropy)
  | recover (now : ℤ) (clientIp salt : String) (body : VerifyRecoveryBody)
  /-- A request goes on with its next query, which fails or not. -/
  | proceed (t : Ticket) (fails : Bool)
  /-- Something else happens to the users, or to the failed attempts. -/
  | users (users : List User) (pk : (users.map User.id).Nodup) (authRateLimiter : Dict String AttemptRecord)

/-- The live row of a refresh token. -/
def checkRefresh (p : Platform) (c : Call) (refreshToken : Option String) (w : Worker) :
    Except Refusal RefreshToken :=
  match truthy refreshToken with
  | none => .error ⟨400, "Refresh token required"⟩
  | some token =>
    match (w.liveToken (hashToken p token)).filter fun r => c.now < r.expiresAt with
    | none => .error ⟨401, "Invalid or expired refresh token"⟩
    | some row => .ok row

namespace Sessions

def setWorker (s : Sessions) (w : Worker) : Sessions :=
  { s with tables := { s.tables with worker := w } }

/-- A request comes in, and may wait. -/
def arrive (s : Sessions) (t : Option Ticket) : Sessions := { s with flight := s.flight ++ t.toList }

/-- A request has gone on, and may wait again. -/
def advance (s : Sessions) (t : Ticket) (next : Option Ticket) (tables : Tables) : Sessions :=
  { s with tables := tables, flight := s.flight.erase t ++ next.toList }

/-- A refresh token is given out. -/
def issue (s : Sessions) (user hash : String) : Sessions :=
  { s with issued := s.issued ++ [(user, hash)] }

/-- A refresh token is exchanged for another. -/
def exchange (s : Sessions) (old new : String) : Sessions :=
  { s with
    exchanged := s.exchanged ++ [old]
    stale := s.stale ++ if old ∈ s.stale then [new] else [] }

/-- All tokens of a user are stale. -/
def retire (s : Sessions) (user : String) : Sessions :=
  { s with stale := s.stale ++ (s.issued.filter fun i => i.1 = user).map Prod.snd }

section Step

variable (L : WordList) (p : Platform) (secret : String)

/-- The next query of a request, if it does not fail. -/
def next (s : Sessions) (t : Ticket) : Sessions :=
  let a := s.tables
  match t with
  | .read c row =>
    s.advance t ((a.worker.users.find? fun u => u.id = row.userId).map fun user =>
      .located c row user.email) a
  | .located c row email =>
    s.advance t (some (.rotated c row email))
      { a with worker := a.worker.revoke fun r => r.id = row.id }
  | .rotated c row email =>
    match issueTokenPair p secret c row.userId email a.worker with
    | .error _ w => s.advance t none { a with worker := w }
    | .ok tokens w =>
      let hash := hashToken p tokens.refreshToken
      ((s.advance t none { a with worker := w }).issue row.userId hash).exchange row.tokenHash hash
  | .changing user newHash => s.advance t (some (.leaving user none)) (a.setPassword user newHash)
  | .recovering now clientIp salt user hash newPassword =>
    match findKey p now clientIp salt user hash newPassword a with
    | .error _ a => s.advance t none a
    | .ok (key, newHash) a => s.advance t (some (.found clientIp user key newHash)) a
  | .found clientIp user key newHash =>
    { s.advance t (some (.reset clientIp user key)) (a.setPassword user newHash) with
      resets := s.resets ++ [key] }
  | .reset clientIp user key => s.advance t (some (.leaving user (some clientIp))) (a.useKey key)
  | .leaving user clientIp =>
    let a := a.revokeAll user
    let a := clientIp.elim a fun ip => leaves (inWorker (recordSuccess (recoveryLimit ip))) a
    (s.advance t none a).retire user

def step (s : Sessions) : SessionEvent → Sessions
  | .grant c user email =>
    match issueTokenPair p secret c user email s.tables.worker with
    | .error _ w => s.setWorker w
    | .ok tokens w => (s.setWorker w).issue user (hashToken p tokens.refreshToken)
  | .refresh c token =>
    s.arrive ((checkRefresh p c token s.tables.worker).toOption.map fun row => .read c row)
  | .changePassword salt user body =>
    s.arrive ((checkChange p salt user body s.tables.worker).toOption.map fun newHash =>
      .changing user newHash)
  | .generate now id user entropy =>
    match generateRecoveryPhrase L p now id user entropy.1 s.tables with
    | .error _ _ => s
    | .ok (phrase, key) a =>
      { s with tables := a, generated := s.generated ++ [⟨user, phrase, key⟩] }
  | .recover now clientIp salt body =>
    match findRecovered L p now clientIp body s.tables.worker with
    | .error _ w => s.setWorker w
    | .ok (user, hash, newPassword) w =>
      (s.setWorker w).arrive (some (.recovering now clientIp salt user hash newPassword))
  | .proceed t fails =>
    if t ∉ s.flight then s
    else if fails then s.advance t none s.tables
    else s.next p secret t
  | .users users pk authRateLimiter =>
    s.setWorker { s.tables.worker with users := users, pk := pk, authRateLimiter := authRateLimiter }

end Step

/-- Nothing has happened. -/
def start (users : List User) (pk : (users.map User.id).Nodup) : Sessions :=
  ⟨⟨⟨users, pk, [], [], .empty⟩, []⟩, [], [], [], [], [], []⟩

/-! ## The rotation of the refresh tokens -/

/-- No token is exchanged twice, and none that is stale is live. -/
structure Rotates (s : Sessions) : Prop where
  once : s.exchanged.Nodup
  dead : ∀ hash ∈ s.stale, s.tables.worker.liveToken hash = none

end Sessions

/-- The row of a refresh that has read it… -/
def Ticket.reads : Ticket → Option RefreshToken
  | .read _ row | .located _ row _ => some row
  | _ => none

/-- …and of one that has revoked it. -/
def Ticket.revoked : Ticket → Option RefreshToken
  | .rotated _ row _ => some row
  | _ => none

/-- What a safe run avoids: that a refresh reads a row that another has read and not yet revoked, and
that the tokens of a user are revoked while a refresh of one is under way. -/
def Orderly (p : Platform) (s : Sessions) : SessionEvent → Prop
  | .refresh c token => ∀ row, checkRefresh p c token s.tables.worker = .ok row →
    ∀ t ∈ s.flight, ∀ other ∈ t.reads, other.tokenHash ≠ row.tokenHash
  | .proceed (.leaving user _) false =>
    ∀ t ∈ s.flight, ∀ row, t.reads = some row ∨ t.revoked = some row → row.userId ≠ user
  | _ => True

/-- New refresh tokens are new, and so are their hashes. -/
def FreshTokens (p : Platform) (s : Sessions) : SessionEvent → Prop
  | .grant c _ _ | .proceed (.rotated c _ _) false =>
    hashToken p c.refreshToken ∉ s.issued.map Prod.snd
  | _ => True

namespace Sessions

open Rotation

def toToken (r : RefreshToken) : Token Uuid String String := ⟨r.id, r.userId, r.tokenHash, r.revoked⟩

/-- The rotation that the worker is in. -/
def rotation (s : Sessions) : State Uuid String String where
  rows := s.tables.worker.refreshTokens.map toToken
  reading := (s.flight.filterMap Ticket.reads).map toToken
  rotated := (s.flight.filterMap Ticket.revoked).map toToken
  issued := s.issued
  exchanged := s.exchanged
  stale := s.stale

variable {L : WordList} {p : Platform} {secret : String} {s : Sessions} {e : SessionEvent}

theorem weaker_revoke (w : Worker) (which : RefreshToken → Bool) (q : Token Uuid String String → Bool)
    (hq : ∀ r, q (toToken r) = which r) :
    Weaker (w.refreshTokens.map toToken) ((w.revoke which).refreshTokens.map toToken) := by
  have heq : (w.revoke which).refreshTokens.map toToken = (w.refreshTokens.map toToken).map fun r =>
      if q r then { r with revoked := true } else r := by
    rw [Worker.revoke, List.map_map, List.map_map]
    refine List.map_congr_left fun r _ => ?_
    rw [Function.comp_apply, Function.comp_apply, hq, apply_ite toToken]
    rfl
  exact heq ▸ Weaker.revoke _ q

/-- What is to be revoked is. -/
theorem revoked_of_mem {w : Worker} {which : RefreshToken → Bool} {r : RefreshToken}
    (hr : r ∈ (w.revoke which).refreshTokens) (h : which r = true) : r.revoked = true := by
  obtain ⟨r₀, -, rfl⟩ := List.mem_map.mp hr
  by_cases hp₀ : which r₀ = true
  · rw [if_pos hp₀]
  · rw [if_neg hp₀] at h
    exact absurd h hp₀

/-- A request that is not a refresh is nothing to the rotation. -/
def Quiet (t : Ticket) : Prop := t.reads = none ∧ t.revoked = none

theorem issueTokenPair_spec {c : Call} {user email : String} {w : Worker} :
    wp (issueTokenPair p secret c user email)
      (fun tokens w' => tokens.refreshToken = c.refreshToken ∧
        w' = { w with refreshTokens := w.refreshTokens ++ [⟨c.rowId, user, hashToken p c.refreshToken,
          c.now + 30 * 24 * 3600 * 1000, false, c.now⟩] })
      (fun _ w' => w' = w) w := by
  simp only [issueTokenPair, wp_bind, wp_okOr, wp_modify, wp_pure, imp_true_iff, and_self]

theorem wp_ofExcept {α σ : Type} {y : Except Refusal α} {Q : α → σ → Prop}
    {E : Refusal → σ → Prop} {a : σ} :
    wp (ofExcept y) Q E a ↔ (∀ r, y = .ok r → Q r a) ∧ ∀ e, y = .error e → E e a := by
  cases y <;> simp [ofExcept]

theorem wp_inWorker {α : Type} {h : Handler α} {Q : α → Tables → Prop}
    {E : Refusal → Tables → Prop} {a : Tables} :
    wp (inWorker h) Q E a ↔
      wp h (fun r w => Q r { a with worker := w }) (fun e w => E e { a with worker := w }) a.worker := by
  unfold wp inWorker
  cases h a.worker <;> rfl

/-- Failed attempts are nothing to the rotation… -/
theorem findRecovered_spec {now : ℤ} {clientIp : String} {body : VerifyRecoveryBody} {w : Worker} :
    wp (findRecovered L p now clientIp body) (fun _ w' => w'.refreshTokens = w.refreshTokens)
      (fun _ w' => w'.refreshTokens = w.refreshTokens) w := by
  simp only [findRecovered, checkRateLimit, wp_bind, wp_get, wp_ensure, wp_ofExcept]
  refine ⟨fun _ => ⟨fun r _ => ?_, fun _ _ => trivial⟩, fun _ => trivial⟩
  split
  · simp only [recordFailedAttempt, wp_bind, wp_modify, wp_throw]
  · rfl

/-- …nor is the search for a key. -/
theorem findKey_spec {now : ℤ} {clientIp salt user hash newPassword : String} {a : Tables} :
    wp (findKey p now clientIp salt user hash newPassword)
      (fun _ a' => a'.worker.refreshTokens = a.worker.refreshTokens)
      (fun _ a' => a'.worker.refreshTokens = a.worker.refreshTokens) a := by
  simp only [findKey, wp_bind, wp_get]
  split
  · simp only [wp_bind, wp_inWorker, recordFailedAttempt, wp_modify, wp_throw]
  · rfl

theorem generateRecoveryPhrase_spec {now : ℤ} {id : Uuid} {user : String} {entropy : Bytes} {a : Tables} :
    wp (generateRecoveryPhrase L p now id user entropy) (fun _ a' => a'.worker = a.worker)
      (fun _ _ => True) a := by
  simp only [generateRecoveryPhrase, wp_bind, wp_get, wp_ensure, wp_set, wp_pure, imp_true_iff, and_true]

/-- Where the rows are the same or weaker, and the request waits as a quiet one, if at all. -/
theorem step_advance {t : Ticket} {next : Option Ticket} {a : Tables}
    (hrows : Weaker (s.tables.worker.refreshTokens.map toToken) (a.worker.refreshTokens.map toToken))
    (hnext : ∀ t' ∈ next.toList, Quiet t') : Step s.rotation (s.advance t next a).rotation :=
  .weaken hrows
    (map_subperm _ (filterMap_quiet List.erase_sublist fun t' ht' => (hnext t' ht').1))
    (map_subperm _ (filterMap_quiet List.erase_sublist fun t' ht' => (hnext t' ht').2))

/-- A request comes in, and waits as a quiet one, if at all. -/
theorem step_arrive {w : Worker} {t : Option Ticket}
    (hrows : w.refreshTokens = s.tables.worker.refreshTokens) (ht : ∀ t' ∈ t.toList, Quiet t') :
    Step s.rotation ((s.setWorker w).arrive t).rotation :=
  .weaken (hrows ▸ Weaker.refl _)
    (map_subperm _ (filterMap_quiet (List.Sublist.refl _) fun t' ht' => (ht t' ht').1))
    (map_subperm _ (filterMap_quiet (List.Sublist.refl _) fun t' ht' => (ht t' ht').2))

/-- A refresh token is given out. -/
theorem step_grant {row : RefreshToken} (hnew : row.tokenHash ∉ s.issued.map Prod.snd) :
    Step s.rotation ((s.setWorker { s.tables.worker with
      refreshTokens := s.tables.worker.refreshTokens ++ [row] }).issue row.userId row.tokenHash).rotation := by
  have heq : ((s.setWorker { s.tables.worker with
      refreshTokens := s.tables.worker.refreshTokens ++ [row] }).issue row.userId
        row.tokenHash).rotation =
      { s.rotation with
        rows := s.rotation.rows ++ [toToken row]
        issued := s.rotation.issued ++ [((toToken row).owner, (toToken row).hash)] } := by
    simp only [rotation, issue, setWorker, List.map_append, List.map_singleton]
    rfl
  exact heq ▸ .grant hnew

/-- A refresh reads a live row. -/
theorem step_read {c : Call} {row : RefreshToken} (hrow : row ∈ s.tables.worker.refreshTokens)
    (hlive : row.revoked = false)
    (halone : ∀ t ∈ s.flight, ∀ other ∈ t.reads, other.tokenHash ≠ row.tokenHash) :
    Step s.rotation (s.arrive (some (.read c row))).rotation := by
  have heq : (s.arrive (some (.read c row))).rotation =
      { s.rotation with reading := s.rotation.reading ++ [toToken row] } := by
    simp only [rotation, arrive, Option.toList_some, List.filterMap_append, List.map_append]
    simp [Ticket.reads, Ticket.revoked]
  have hmem : toToken row ∈ s.rotation.rows := List.mem_map_of_mem hrow
  rw [heq]
  refine .read hmem hlive (fun t ht => ?_) List.perm_append_comm
  obtain ⟨other, hother, rfl⟩ := List.mem_map.mp ht
  obtain ⟨t', ht', hreads⟩ := List.mem_filterMap.mp hother
  exact halone t' ht' other hreads

/-- A refresh looks up the user of the row it has read. -/
theorem step_locate {c : Call} {row : RefreshToken} (ht : .read c row ∈ s.flight) :
    Step s.rotation (s.next p secret (.read c row)).rotation := by
  have hreading : (s.flight.filterMap Ticket.reads).Perm
      (row :: (s.flight.erase (.read c row)).filterMap Ticket.reads) := filterMap_perm ht
  have hrotated : (s.flight.erase (.read c row)).filterMap Ticket.revoked =
      s.flight.filterMap Ticket.revoked := filterMap_erase rfl
  simp only [next]
  cases s.tables.worker.users.find? fun u => u.id = row.userId with
  | none => exact step_advance (Weaker.refl _) fun t' ht' => by cases ht'
  | some user =>
    refine .weaken (Weaker.refl _) (map_subperm _ ?_) (map_subperm _ ?_)
    · have hsome : [Ticket.located c row user.email].filterMap Ticket.reads = [row] := rfl
      simp only [advance, Option.map_some, Option.toList_some, List.filterMap_append, hsome]
      exact (List.perm_append_comm.trans hreading.symm).subperm
    · have hnone : [Ticket.located c row user.email].filterMap Ticket.revoked = [] := rfl
      simp only [advance, Option.map_some, Option.toList_some, List.filterMap_append, hnone, hrotated,
        List.append_nil]
      exact List.Subperm.refl _

/-- A refresh revokes the row it has read. -/
theorem step_rotate {c : Call} {row : RefreshToken} {email : String}
    (ht : .located c row email ∈ s.flight) :
    Step s.rotation (s.next p secret (.located c row email)).rotation := by
  have hreading : (s.flight.filterMap Ticket.reads).Perm
      (row :: (s.flight.erase (.located c row email)).filterMap Ticket.reads) := filterMap_perm ht
  have hrotated : (s.flight.erase (.located c row email)).filterMap Ticket.revoked =
      s.flight.filterMap Ticket.revoked := filterMap_erase rfl
  have hweaker : Weaker s.rotation.rows
      ((s.tables.worker.revoke fun r => r.id = row.id).refreshTokens.map toToken) :=
    weaker_revoke _ _ (fun r => r.id = row.id) fun _ => rfl
  have hread : s.rotation.reading.Perm
      (toToken row :: (s.next p secret (.located c row email)).rotation.reading) := by
    have hnone : [Ticket.rotated c row email].filterMap Ticket.reads = [] := rfl
    simpa only [rotation, next, advance, Option.toList_some, List.filterMap_append, hnone,
      List.append_nil, List.map_cons] using hreading.map toToken
  have hrevoked : (s.next p secret (.located c row email)).rotation.rotated.Perm
      (toToken row :: s.rotation.rotated) := by
    have hsome : [Ticket.rotated c row email].filterMap Ticket.revoked = [row] := rfl
    simp only [rotation, next, advance, Option.toList_some, List.filterMap_append, hrotated, hsome,
      List.map_append]
    exact List.perm_append_comm
  refine .rotate hread hrevoked hweaker fun r hr hid => ?_
  obtain ⟨r', hr', rfl⟩ := List.mem_map.mp hr
  exact revoked_of_mem hr' (decide_eq_true hid)

/-- A refresh inserts its new row, and is answered. -/
theorem step_exchange {c : Call} {row new : RefreshToken} {email : String}
    (ht : .rotated c row email ∈ s.flight) (hnew : new.tokenHash ∉ s.issued.map Prod.snd) :
    Step s.rotation (((s.advance (.rotated c row email) none
      { s.tables with worker := { s.tables.worker with
        refreshTokens := s.tables.worker.refreshTokens ++ [new] } }).issue new.userId
          new.tokenHash).exchange row.tokenHash new.tokenHash).rotation := by
  have hrotated : (s.flight.filterMap Ticket.revoked).Perm
      (row :: (s.flight.erase (.rotated c row email)).filterMap Ticket.revoked) := filterMap_perm ht
  have hreading : (s.flight.erase (.rotated c row email)).filterMap Ticket.reads =
      s.flight.filterMap Ticket.reads := filterMap_erase rfl
  have hperm : s.rotation.rotated.Perm (toToken row ::
      ((s.flight.erase (.rotated c row email)).filterMap Ticket.revoked).map toToken) :=
    hrotated.map toToken
  have hfresh : (toToken new).hash ∉ s.rotation.issued.map Prod.snd := hnew
  have hstep := Step.exchange hperm hfresh
  refine (congrArg (Step s.rotation) ?_).mp hstep
  simp only [rotation, exchange, issue, advance, Option.toList_none, List.append_nil, List.map_append,
    List.map_singleton, hreading]
  rfl

/-- All rows of a user are revoked. -/
theorem step_leave {user : String} {clientIp : Option String}
    (halone : ∀ t ∈ s.flight, ∀ row, t.reads = some row ∨ t.revoked = some row → row.userId ≠ user) :
    Step s.rotation (s.next p secret (.leaving user clientIp)).rotation := by
  have hreading : (s.flight.erase (.leaving user clientIp)).filterMap Ticket.reads =
      s.flight.filterMap Ticket.reads := filterMap_erase rfl
  have hrotated : (s.flight.erase (.leaving user clientIp)).filterMap Ticket.revoked =
      s.flight.filterMap Ticket.revoked := filterMap_erase rfl
  have hweaker : Weaker s.rotation.rows ((s.tables.revokeAll user).worker.refreshTokens.map toToken) :=
    weaker_revoke _ _ (fun r => r.owner = user) fun _ => rfl
  have hstep := Step.revokeAll user ?_ hweaker ?_
  · refine (congrArg (Step s.rotation) ?_).mp hstep
    cases clientIp with
    | none =>
      simp only [rotation, next, retire, advance, Option.elim, Option.toList_none, List.append_nil,
        hreading, hrotated]
    | some ip =>
      simp only [rotation, next, retire, advance, Option.elim, Option.toList_none, List.append_nil,
        hreading, hrotated]
      rfl
  · intro t ht
    have hrow : ∃ t' ∈ s.flight, ∃ row, (t'.reads = some row ∨ t'.revoked = some row) ∧ toToken row = t := by
      rcases List.mem_append.mp ht with ht | ht
      · obtain ⟨row, hrow, rfl⟩ := List.mem_map.mp ht
        obtain ⟨t', ht', hreads⟩ := List.mem_filterMap.mp hrow
        exact ⟨t', ht', row, Or.inl hreads, rfl⟩
      · obtain ⟨row, hrow, rfl⟩ := List.mem_map.mp ht
        obtain ⟨t', ht', hrevoked⟩ := List.mem_filterMap.mp hrow
        exact ⟨t', ht', row, Or.inr hrevoked, rfl⟩
    obtain ⟨t', ht', row, hrow, rfl⟩ := hrow
    exact halone t' ht' row hrow
  · intro r hr howner
    obtain ⟨r', hr', rfl⟩ := List.mem_map.mp hr
    exact revoked_of_mem hr' (decide_eq_true howner)

/-- A request goes on with its next query. -/
theorem step_next {t : Ticket} (ht : t ∈ s.flight) (he : Orderly p s (.proceed t false))
    (hf : FreshTokens p s (.proceed t false)) : Step s.rotation (s.next p secret t).rotation := by
  have hsame := Weaker.refl (s.tables.worker.refreshTokens.map toToken)
  cases t with
  | read c row => exact step_locate ht
  | located c row email => exact step_rotate ht
  | rotated c row email =>
    simp only [next]
    split
    · rename_i e w heq
      obtain rfl : w = s.tables.worker := issueTokenPair_spec.of_error heq
      exact step_advance hsame fun t' ht' => by cases ht'
    · rename_i tokens w heq
      obtain ⟨htoken, rfl⟩ := issueTokenPair_spec.of_eq heq
      rw [htoken]
      exact step_exchange ht hf
  | changing user newHash =>
    exact step_advance hsame fun t' ht' => by rw [List.mem_singleton.mp ht']; exact ⟨rfl, rfl⟩
  | recovering now clientIp salt user hash newPassword =>
    simp only [next]
    split
    · rename_i e a heq
      exact step_advance (findKey_spec.of_error heq ▸ hsame) fun t' ht' => by cases ht'
    · rename_i key newHash a heq
      refine step_advance (findKey_spec.of_eq heq ▸ hsame) fun t' ht' => ?_
      rw [List.mem_singleton.mp ht']
      exact ⟨rfl, rfl⟩
  | found clientIp user key newHash =>
    exact step_advance hsame fun t' ht' => by rw [List.mem_singleton.mp ht']; exact ⟨rfl, rfl⟩
  | reset clientIp user key =>
    exact step_advance hsame fun t' ht' => by rw [List.mem_singleton.mp ht']; exact ⟨rfl, rfl⟩
  | leaving user clientIp => exact step_leave he

/-- A live row is found by its hash. -/
theorem checkRefresh_spec {c : Call} {token : Option String} {w : Worker} {row : RefreshToken}
    (h : checkRefresh p c token w = .ok row) : row ∈ w.refreshTokens ∧ row.revoked = false := by
  unfold checkRefresh at h
  split at h
  · cases h
  · split at h
    · cases h
    · rename_i row' hlive
      cases h
      have hlive' := (Option.filter_eq_some_iff.mp hlive).1
      have hfound := List.find?_some hlive'
      simp only [Bool.and_eq_true, Bool.not_eq_true'] at hfound
      exact ⟨List.mem_of_find?_eq_some hlive', hfound.2⟩

/-- **A query is a step of the rotation.** -/
theorem step_rotation (he : Orderly p s e) (hf : FreshTokens p s e) :
    Step s.rotation (s.step L p secret e).rotation := by
  cases e with
  | grant c user email =>
    simp only [step]
    split
    · rename_i e w heq
      obtain rfl : w = s.tables.worker := issueTokenPair_spec.of_error heq
      exact Step.refl _
    · rename_i tokens w heq
      obtain ⟨htoken, rfl⟩ := issueTokenPair_spec.of_eq heq
      rw [htoken]
      exact step_grant hf
  | refresh c token =>
    simp only [step]
    cases h : checkRefresh p c token s.tables.worker with
    | error e => exact step_arrive rfl fun t' ht' => by cases ht'
    | ok row =>
      obtain ⟨hrow, hlive⟩ := checkRefresh_spec h
      exact step_read hrow hlive (he row h)
  | changePassword salt user body =>
    refine step_arrive rfl fun t' ht' => ?_
    obtain ⟨newHash, -, rfl⟩ := Option.map_eq_some_iff.mp (Option.mem_toList.mp ht')
    exact ⟨rfl, rfl⟩
  | generate now id user entropy =>
    simp only [step]
    split
    · exact Step.refl _
    · rename_i phrase key a heq
      have hworker : a.worker = s.tables.worker := generateRecoveryPhrase_spec.of_eq heq
      refine (congrArg (Step s.rotation) ?_).mp (Step.refl _)
      simp only [rotation, hworker]
  | recover now clientIp salt body =>
    simp only [step]
    split
    · rename_i e w heq
      exact .weaken (findRecovered_spec.of_error heq ▸ Weaker.refl _) (List.Subperm.refl _)
        (List.Subperm.refl _)
    · rename_i user hash newPassword w heq
      refine step_arrive (findRecovered_spec.of_eq heq) fun t' ht' => ?_
      rw [List.mem_singleton.mp ht']
      exact ⟨rfl, rfl⟩
  | proceed t fails =>
    simp only [step]
    split
    · exact Step.refl _
    · rename_i hflight
      split
      · exact step_advance (Weaker.refl _) fun t' ht' => by cases ht'
      · rename_i hfails
        rw [Bool.not_eq_true] at hfails
        subst hfails
        exact step_next (not_not.mp hflight) he hf
  | users users pk authRateLimiter => exact Step.refl _

theorem sound_start (users : List User) (pk : (users.map User.id).Nodup) :
    Sound (start users pk).rotation := by
  constructor <;> simp [start, rotation, State.spent]

/-- A sound rotation is what the refresh tokens need. -/
theorem rotates_of_sound (h : Sound s.rotation) : Rotates s := by
  refine ⟨h.exchanged_nodup, fun hash hhash => ?_⟩
  rw [Worker.liveToken, List.find?_eq_none]
  intro r hr hlive
  simp only [Bool.and_eq_true, decide_eq_true_eq, Bool.not_eq_true'] at hlive
  have hstale : (toToken r).hash ∈ s.rotation.stale := by
    rw [show (toToken r).hash = hash from hlive.1]
    exact hhash
  have hrevoked := h.stale_revoked (toToken r) (List.mem_map_of_mem hr) hstale
  exact absurd (hlive.2.symm.trans hrevoked) Bool.false_ne_true

/-- **Refresh tokens rotate** in an orderly run. -/
theorem rotates_of_run {users : List User} {pk : (users.map User.id).Nodup} {es : List SessionEvent}
    (hes : Along (fun s e => Orderly p s e ∧ FreshTokens p s e) (step L p secret) (start users pk)
      es) : Rotates (run (step L p secret) (start users pk) es) :=
  rotates_of_sound (Along.invariant (P := fun s : Sessions => Sound s.rotation)
    (fun _ _ h he => h.step (step_rotation he.1 he.2)) (sound_start users pk) hes)

end Sessions

/-! ## Both servers -/

/-- **When refresh tokens are safe.**  At the edge and in the backend, a token is exchanged at most once
and nothing that comes of a token from before a change of the password is live, in a run in which
no two exchanges of one token and no exchange and revocation of one user's tokens overlap. -/
theorem rotates {L : WordList} {p : Platform} {secret : String} {users : List User}
    {pk : (users.map User.id).Nodup} {es : List SessionEvent} {x : Auth.Crates} {u : Auth.Cases}
    {cfg : Auth.AuthConfig} {authUsers : List Auth.User}
    {authPk : (authUsers.map Auth.User.id).Nodup} {authEs : List Auth.SessionEvent} :
    (Along (fun s e => Orderly p s e ∧ FreshTokens p s e) (Sessions.step L p secret)
        (.start users pk) es →
      (run (Sessions.step L p secret) (.start users pk) es).Rotates) ∧
    (Along (fun s e => Auth.Orderly x cfg s e ∧ Auth.FreshTokens x cfg s e)
        (Auth.Sessions.step L x u cfg) (.start authUsers authPk) authEs →
      (run (Auth.Sessions.step L x u cfg) (.start authUsers authPk) authEs).Rotates) :=
  ⟨Sessions.rotates_of_run, Auth.Sessions.rotates_of_run⟩

namespace Noon

open Pcos.Sample Mnemonic.Sample

/-- The payload of Alice's access tokens of noon… -/
def sessionPayload : JsonObject :=
  accessPayload alice.text "alice@example.com" ++
    [("iat", .number 1700000000), ("exp", .number 1700000900)]

/-- …as it is signed. -/
def sessionToken : String :=
  "eyJhbGciOiJIUzI1NiIsInR5cCI6IkpXVCJ9.eyJzdWIiOiJhMTFjZTAwMC0wMDAwLTQwMDAtODAwMC0wMDAwMDAwMDAwMDAi"
  ++ "LCJlbWFpbCI6ImFsaWNlQGV4YW1wbGUuY29tIiwicm9sZSI6InVzZXIiLCJpYXQiOjE3MDAwMDAwMDAsImV4cCI6MTcwMDAw"
  ++ "MDkwMH0.loHiYUoIvKsevfHtNWIdPQHpHvB90VSoC03WvmjslyU"

/-- The hashes of the refresh tokens below, by their last characters. -/
def sessionHash (bytes : Bytes) : String :=
  if bytes.getLast? = some 0x32 then "caf8458a949131a8eae7a2b8f5aafa454a5b695c88e2913892c53ecdfa5a710d"
  else if bytes.getLast? = some 0x33 then
    "fd60e020865264b80f15e3a2e35a9d665cec2f46a3c582c0a106fb21cce085af"
  else "588a53aaf6c1092c6e9988db468a0817d4975eb1087ccf0c935396eea667cdd3"

/-- A platform that signs these. -/
def sessionPlatform : Platform :=
  { platform with
    sha256 := sessionHash
    sign o secret := if o = sessionPayload ∧ secret = jwtSecret then some sessionToken else none
    payload token secret :=
      if token = sessionToken ∧ secret = jwtSecret then some sessionPayload else none
    dots_sign o secret t h := by
      split at h
      · rw [← Option.some.inj h]
        decide +kernel
      · cases h
    payload_sign o secret t h := by
      split at h
      · rename_i hsigned
        rw [if_pos ⟨(Option.some.inj h).symm, hsigned.2⟩, hsigned.1]
      · cases h }

def call0 : Call := ⟨1700000000000, id1, id2, tmp⟩

def call1 : Call := ⟨1700000000000, id2, id3, id1⟩

def call2 : Call := ⟨1700000000000, id3, id1, id2⟩

/-- The row of the token of `call0`. -/
def row0 : RefreshToken :=
  ⟨tmp, alice.text, hashToken sessionPlatform call0.refreshToken, 1702592000000, false, 1700000000000⟩

def sessionsAfter (es : List SessionEvent) : Sessions :=
  run (Sessions.step wordList sessionPlatform jwtSecret) (.start [aliceRow] nodup_aliceRow) es

/-- A refresh of the token, query by query… -/
def oneRefresh (c : Call) : List SessionEvent :=
  [.proceed (.read c row0) false, .proceed (.located c row0 "alice@example.com") false,
    .proceed (.rotated c row0 "alice@example.com") false]

/-- …and a change of the password. -/
def changesPassword : List SessionEvent :=
  [.changePassword "salt" alice.text ⟨some "password", none, some "new password"⟩,
    .proceed (.changing alice.text "pbkdf2$new password") false,
    .proceed (.leaving alice.text none) false]

/-- Alice logs in, and refreshes the token. -/
def granted : List SessionEvent :=
  [.grant call0 alice.text "alice@example.com", .refresh call1 (some call0.refreshToken)]

/-- Two refreshes of one token. -/
def twoRefreshes : List SessionEvent :=
  granted ++ .refresh call2 (some call0.refreshToken) :: oneRefresh call1 ++ oneRefresh call2

/-- A change of the password in the middle of a refresh. -/
def changedInBetween : List SessionEvent :=
  granted ++ (oneRefresh call1).take 2 ++ changesPassword ++ (oneRefresh call1).drop 2

/-- **One token is exchanged twice, and one obtained from a token of before the change of the
password is live.** -/
theorem not_rotates :
    ¬ (sessionsAfter twoRefreshes).exchanged.Nodup ∧
    ¬ ∀ hash ∈ (sessionsAfter changedInBetween).stale,
      (sessionsAfter changedInBetween).tables.worker.liveToken hash = none := by
  constructor
  · have htwice : (sessionsAfter twoRefreshes).exchanged = [row0.tokenHash, row0.tokenHash] := by
      decide +kernel
    simp [htwice]
  · intro hdead
    have hstale : hashToken sessionPlatform call1.refreshToken ∈
        (sessionsAfter changedInBetween).stale := by decide +kernel
    have hlive : (sessionsAfter changedInBetween).tables.worker.liveToken
        (hashToken sessionPlatform call1.refreshToken) ≠ none := by decide +kernel
    exact hlive (hdead _ hstale)

/-- The same requests one after the other. -/
theorem orderly_inTurn :
    Along (fun s e => Orderly sessionPlatform s e ∧ FreshTokens sessionPlatform s e)
      (Sessions.step wordList sessionPlatform jwtSecret) (.start [aliceRow] (by decide))
      (granted ++ oneRefresh call1 ++ changesPassword) := by
  have hnone : (sessionsAfter (granted.take 1)).flight = [] := by decide
  have hleaving : (sessionsAfter (granted ++ oneRefresh call1 ++ changesPassword.take 2)).flight =
      [.leaving alice.text none] := by decide +kernel
  have hnew : hashToken sessionPlatform call1.refreshToken ∉
      (sessionsAfter (granted ++ (oneRefresh call1).take 2)).issued.map Prod.snd := by decide +kernel
  refine ⟨⟨trivial, List.not_mem_nil⟩, ⟨fun row _ t ht => ?_, trivial⟩, ⟨trivial, trivial⟩,
    ⟨trivial, trivial⟩, ⟨trivial, hnew⟩, ⟨trivial, trivial⟩, ⟨trivial, trivial⟩,
    ⟨fun t ht row hrow => ?_, trivial⟩, trivial⟩
  · have hin : t ∈ (sessionsAfter (granted.take 1)).flight := ht
    rw [hnone] at hin
    cases hin
  · have hin : t ∈ (sessionsAfter (granted ++ oneRefresh call1 ++ changesPassword.take 2)).flight := ht
    rw [hleaving] at hin
    rw [List.mem_singleton.mp hin] at hrow
    rcases hrow with hrow | hrow <;> cases hrow

/-- A password is changed in the backend, and then a refresh token of before is tried. -/
def changedThenRefreshed : List Auth.SessionEvent :=
  [.grant Auth.Noon.atNoon alice "alice@example.com" 1700604800,
    .changePassword Auth.Noon.noon "salt" alice ⟨some "password", none, "password"⟩,
    .proceed (.changing Auth.Noon.noon alice Auth.Noon.passwordHash) false,
    .proceed (.leaving alice) false, .refresh Auth.Noon.atNoon Auth.Noon.refreshToken]

theorem nodup_alice : [alice].Nodup := List.nodup_singleton alice

def authSessionsAfter (es : List Auth.SessionEvent) : Auth.Sessions :=
  run (Auth.Sessions.step wordList Auth.Noon.crates ⟨Char.isUpper, Char.isLower⟩ Auth.Noon.config)
    (.start [⟨alice, "alice@example.com", "Alice", Auth.Noon.passwordHash, true, none, false, 0, 0⟩]
      nodup_alice) es

theorem orderly_changedThenRefreshed :
    Along (fun s e => Auth.Orderly Auth.Noon.crates Auth.Noon.config s e ∧
        Auth.FreshTokens Auth.Noon.crates Auth.Noon.config s e)
      (Auth.Sessions.step wordList Auth.Noon.crates ⟨Char.isUpper, Char.isLower⟩ Auth.Noon.config)
      (authSessionsAfter []) changedThenRefreshed := by
  have hleaving : (authSessionsAfter (changedThenRefreshed.take 3)).flight = [.leaving alice] := by
    decide
  have hnone : (authSessionsAfter (changedThenRefreshed.take 4)).flight = [] := by decide
  refine ⟨⟨trivial, fun _ _ _ => List.not_mem_nil⟩, ⟨trivial, trivial⟩, ⟨trivial, trivial⟩,
    ⟨fun t ht row hrow => ?_, trivial⟩, ⟨fun claims row _ t ht => ?_, trivial⟩, trivial⟩
  · have hin : t ∈ (authSessionsAfter (changedThenRefreshed.take 3)).flight := ht
    rw [hleaving] at hin
    rw [List.mem_singleton.mp hin] at hrow
    rcases hrow with hrow | hrow <;> cases hrow
  · have hin : t ∈ (authSessionsAfter (changedThenRefreshed.take 4)).flight := ht
    rw [hnone] at hin
    cases hin

/-- On either server, requests in turn. -/
theorem rotates_inTurn :
    (sessionsAfter (granted ++ oneRefresh call1 ++ changesPassword)).Rotates ∧
    (authSessionsAfter changedThenRefreshed).Rotates :=
  rotates.imp (fun h => h orderly_inTurn) fun h => h orderly_changedThenRefreshed

end Noon

end Pcos.Edge.Accounts
