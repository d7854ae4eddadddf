import Pcos.Backend.Resets
import Pcos.Edge.Sessions
import Mathlib.Data.List.Pairwise

/-!
# Edge/Resets — the recovery phrases in a run (`index.ts`)

The keys are vouchers as in the backend.  A recovery reads one unused key of the user, whichever comes
first, so a phrase opens the account only where it is the user's one unused (`OneUnused`).  `recovers`
tells for both servers when the phrases do what they are for.
-/

namespace Pcos.Edge.Accounts

open Foundations Mnemonic Vouchers

/-! ## A generated phrase is a good one -/

/-- `toLowerCase` leaves lower-case letters of ASCII and spaces as they are. -/
def KeepsLowercase (p : Platform) : Prop :=
  ∀ s : String, (∀ c ∈ s.toList, c.isLower = true ∨ c = ' ') → p.toLowerCase s = s

theorem isSpace_of_isLower {c : Char} (hc : c.isLower = true) : isSpace c = false := by
  have hwhite := Auth.isWhiteSpace_of_isLower hc
  have hmark : c ≠ '\uFEFF' := by
    rintro rfl
    cases hc
  simp [isSpace, hwhite, hmark]

/-- A text that does not begin or end with a space and has no two in a row. -/
theorem splitSpaces_of_ne_nil {s : String} (h : ∀ l ∈ s.toList.splitOnP isSpace, l ≠ []) :
    splitSpaces s = (s.toList.splitOnP isSpace).map String.ofList := by
  unfold splitSpaces
  split
  · rename_i hnil
    rw [hnil]
    rfl
  · rename_i piece hone
    rw [hone]
    rfl
  · rename_i first rest hne hcons
    have hmiddle : rest.dropLast.filter (· ≠ []) = rest.dropLast :=
      List.filter_eq_self.mpr fun l hl => decide_eq_true
        (h l (hcons ▸ List.mem_cons_of_mem _ (List.mem_of_mem_dropLast hl)))
    have hlast : rest.dropLast ++ rest.getLast?.toList = rest := by
      rw [List.getLast?_eq_some_getLast hne]
      exact List.dropLast_append_getLast _
    rw [hcons, hmiddle, List.cons_append, hlast]

section Phrases

variable {L : WordList} {p : Platform} (hlower : KeepsLowercase p) (entropy : Entropy)

theorem splitSpaces_phrase :
    splitSpaces (generateBip39Mnemonic L p entropy.1) = phraseWords L p.sha256 entropy.1 := by
  have hsplit : (generateBip39Mnemonic L p entropy.1).toList.splitOnP isSpace =
      (phraseWords L p.sha256 entropy.1).map String.toList :=
    splitOnP_phrase entropy.2 rfl fun c hc => isSpace_of_isLower hc
  have hpieces : ∀ l ∈ (phraseWords L p.sha256 entropy.1).map String.toList, l ≠ [] := fun l hl =>
    (pieces_phrase entropy.2 (fun c hc => isSpace_of_isLower hc) l hl).1
  rw [splitSpaces_of_ne_nil (hsplit ▸ hpieces), hsplit, List.map_map]
  exact (List.map_congr_left fun w _ => String.ofList_toList).trans (List.map_id _)

include hlower

theorem normalize_phrase :
    normalize p (generateBip39Mnemonic L p entropy.1) = generateBip39Mnemonic L p entropy.1 := by
  have htrim : trim isSpace (generateBip39Mnemonic L p entropy.1) = generateBip39Mnemonic L p entropy.1 :=
    trim_phrase entropy.2 fun c hc => isSpace_of_isLower hc
  rw [normalize, htrim]
  exact hlower _ (phrase_chars entropy.2)

theorem validateBip39Mnemonic_phrase :
    validateBip39Mnemonic L p (generateBip39Mnemonic L p entropy.1) = .ok () := by
  rw [validateBip39Mnemonic, normalize_phrase hlower, splitSpaces_phrase, checkWords_phraseWords entropy.2]
  rfl

/-- **A generated phrase passes the checks**, with the hash that it was stored with. -/
theorem checkRecovery_phrase {body : VerifyRecoveryBody} {email newPassword : String}
    (hemail : truthy body.email = some email)
    (hphrase : (truthy body.recoveryPhrase <|> truthy body.recoveryKey) =
      some (generateBip39Mnemonic L p entropy.1))
    (hpassword : truthy body.newPassword = some newPassword) :
    checkRecovery L p body = .ok (email,
      recoveryHash p (normalize p (generateBip39Mnemonic L p entropy.1)), newPassword) := by
  simp only [checkRecovery, hemail, hphrase, hpassword, normalize_phrase hlower,
    validateBip39Mnemonic_phrase hlower]
  split <;> rfl

end Phrases

/-! ## The vouchers -/

/-- The key of a recovery that has found it… -/
def Ticket.holds : Ticket → Option String
  | .found _ _ key _ => some key
  | _ => none

/-- …and of one that has reset the password with it. -/
def Ticket.spends : Ticket → Option String
  | .reset _ _ key => some key
  | _ => none

/-- What a safe run avoids: that a phrase is generated for a user who has an unused one, that a
recovery finds a key that another is under way with, and that the key of a reset is not marked. -/
def Alone (s : Sessions) : SessionEvent → Prop
  | .generate _ _ user _ => s.tables.unusedKey user = none
  | .proceed (.recovering _ _ _ user hash _) false => ∀ k,
    (s.tables.unusedKey user).filter (fun k => k.recoveryHash = hash) = some k →
    ∀ t ∈ s.flight, t.holds ≠ some k.id ∧ t.spends ≠ some k.id
  | .proceed (.reset _ _ _) fails => fails = false
  | _ => True

namespace Sessions

def toVoucher (k : RecoveryKey) : Voucher String := ⟨k.id, k.isUsed⟩

/-- The vouchers of the worker. -/
def vouchers (s : Sessions) : State String where
  rows := s.tables.keys.map toVoucher
  held := s.flight.filterMap Ticket.holds
  spent := s.flight.filterMap Ticket.spends
  redeemed := s.resets

variable {L : WordList} {p : Platform} {secret : String} {s s' : Sessions} {e : SessionEvent}

/-- A request that is not a recovery with a key is nothing to the vouchers. -/
def Plain (t : Ticket) : Prop := t.holds = none ∧ t.spends = none

/-- A plain request comes in, or goes on as one. -/
theorem vouchers_arrive {w : Worker} {t : Option Ticket} (ht : ∀ t' ∈ t.toList, Plain t') :
    ((s.setWorker w).arrive t).vouchers = s.vouchers := by
  have hheld : t.toList.filterMap Ticket.holds = [] :=
    List.filterMap_eq_nil_iff.mpr fun t' ht' => (ht t' ht').1
  have hspent : t.toList.filterMap Ticket.spends = [] :=
    List.filterMap_eq_nil_iff.mpr fun t' ht' => (ht t' ht').2
  simp only [vouchers, arrive, setWorker, List.filterMap_append, hheld, hspent, List.append_nil]

theorem vouchers_advance {t : Ticket} {next : Option Ticket} {a : Tables} (ht : Plain t)
    (hnext : ∀ t' ∈ next.toList, Plain t') (ha : a.keys = s.tables.keys) :
    (s.advance t next a).vouchers = s.vouchers := by
  have hheld : next.toList.filterMap Ticket.holds = [] :=
    List.filterMap_eq_nil_iff.mpr fun t' ht' => (hnext t' ht').1
  have hspent : next.toList.filterMap Ticket.spends = [] :=
    List.filterMap_eq_nil_iff.mpr fun t' ht' => (hnext t' ht').2
  simp only [vouchers, advance, List.filterMap_append, hheld, hspent, List.append_nil,
    Rotation.filterMap_erase ht.1, Rotation.filterMap_erase ht.2, ha]

/-- A recovery finds its key. -/
theorem step_find {t : Ticket} {clientIp user : String} {k : RecoveryKey} {newHash : String}
    (ht : Plain t) (hk : k ∈ s.tables.keys) (hunused : k.isUsed = false)
    (halone : ∀ t ∈ s.flight, t.holds ≠ some k.id ∧ t.spends ≠ some k.id) :
    Step s.vouchers (s.advance t (some (.found clientIp user k.id newHash)) s.tables).vouchers := by
  have hheld : k.id ∉ s.flight.filterMap Ticket.holds := fun hin => by
    obtain ⟨t', ht', hholds⟩ := List.mem_filterMap.mp hin
    exact (halone t' ht').1 hholds
  have hspent : k.id ∉ s.flight.filterMap Ticket.spends := fun hin => by
    obtain ⟨t', ht', hspends⟩ := List.mem_filterMap.mp hin
    exact (halone t' ht').2 hspends
  have heq : (s.advance t (some (.found clientIp user k.id newHash)) s.tables).vouchers =
      { s.vouchers with held := s.vouchers.held ++ [k.id] } := by
    simp only [vouchers, advance, List.filterMap_append, Rotation.filterMap_erase ht.1,
      Rotation.filterMap_erase ht.2]
    simp [Ticket.holds, Ticket.spends]
  have hrow : toVoucher k ∈ s.vouchers.rows := List.mem_map_of_mem hk
  exact heq ▸ .find hrow hunused hheld hspent List.perm_append_comm

/-- It resets the password. -/
theorem step_redeem {clientIp user key newHash : String}
    (ht : .found clientIp user key newHash ∈ s.flight) :
    Step s.vouchers (s.next p secret (.found clientIp user key newHash)).vouchers := by
  have hheld : (s.flight.filterMap Ticket.holds).Perm
      (key :: (s.flight.erase (.found clientIp user key newHash)).filterMap Ticket.holds) :=
    Rotation.filterMap_perm ht
  have hspent : (s.flight.erase (.found clientIp user key newHash)).filterMap Ticket.spends =
      s.flight.filterMap Ticket.spends := Rotation.filterMap_erase rfl
  have hstep := Step.redeem (s := s.vouchers) hheld
    (List.perm_append_comm : (s.vouchers.spent ++ [key]).Perm _)
  refine (congrArg (Step s.vouchers) ?_).mp hstep
  simp only [vouchers, next, advance, List.filterMap_append, hspent]
  simp [Ticket.holds, Ticket.spends, Tables.setPassword]

/-- It marks its key. -/
theorem step_mark {clientIp user key : String} (ht : .reset clientIp user key ∈ s.flight) :
    Step s.vouchers (s.next p secret (.reset clientIp user key)).vouchers := by
  have hspent : (s.flight.filterMap Ticket.spends).Perm
      (key :: (s.flight.erase (.reset clientIp user key)).filterMap Ticket.spends) :=
    Rotation.filterMap_perm ht
  have hheld : (s.flight.erase (.reset clientIp user key)).filterMap Ticket.holds =
      s.flight.filterMap Ticket.holds := Rotation.filterMap_erase rfl
  have hrows : (s.tables.useKey key).keys.map toVoucher = mark key (s.tables.keys.map toVoucher) := by
    rw [Tables.useKey, mark, List.map_map, List.map_map]
    refine List.map_congr_left fun k _ => ?_
    rw [Function.comp_apply, Function.comp_apply, apply_ite toVoucher]
    rfl
  have hstep := Step.mark (s := s.vouchers) hspent
  refine (congrArg (Step s.vouchers) ?_).mp hstep
  simp only [vouchers, next, advance, List.filterMap_append, hheld, hrows]
  simp [Ticket.holds, Ticket.spends]

/-- A request is given up before it has reset a password. -/
theorem step_giveUp {t : Ticket} (ht : t.spends = none) :
    Step s.vouchers (s.advance t none s.tables).vouchers := by
  have hheld : ((s.flight.erase t).filterMap Ticket.holds).Subperm s.vouchers.held :=
    (List.erase_sublist.filterMap _).subperm
  have hstep := Step.giveUp hheld
  refine (congrArg (Step s.vouchers) ?_).mp hstep
  simp only [vouchers, advance, Option.toList_none, List.append_nil, Rotation.filterMap_erase ht]

/-- The search for a key leaves the keys alone, and ends with an unused one. -/
theorem findKey_keys {now : ℤ} {clientIp salt user hash newPassword : String} {a : Tables} :
    wp (findKey p now clientIp salt user hash newPassword)
      (fun r a' => a' = a ∧ r.2 = p.hashPassword salt newPassword ∧
        ∃ k, (a.unusedKey user).filter (fun k => k.recoveryHash = hash) = some k ∧ k.id = r.1)
      (fun _ a' => a'.keys = a.keys) a := by
  simp only [findKey, wp_bind, wp_get]
  split
  · simp only [wp_bind, wp_inWorker, recordFailedAttempt, wp_modify, wp_throw]
  · rename_i key hkey
    exact ⟨rfl, rfl, key, hkey, rfl⟩

theorem unusedKey_spec {a : Tables} {user : String} {k : RecoveryKey} (h : a.unusedKey user = some k) :
    k ∈ a.keys ∧ k.userId = user ∧ k.isUsed = false := by
  have hfound := List.find?_some h
  simp only [Bool.and_eq_true, decide_eq_true_eq, Bool.not_eq_true'] at hfound
  exact ⟨List.mem_of_find?_eq_some h, hfound⟩

/-- A request goes on with its next query. -/
theorem step_next_vouchers {t : Ticket} (ht : t ∈ s.flight) (he : Alone s (.proceed t false)) :
    Step s.vouchers (s.next p secret t).vouchers := by
  cases t with
  | read c row =>
    refine Step.of_eq (vouchers_advance ⟨rfl, rfl⟩ (fun t' ht' => ?_) rfl)
    obtain ⟨user, -, rfl⟩ := Option.map_eq_some_iff.mp (Option.mem_toList.mp ht')
    exact ⟨rfl, rfl⟩
  | located c row email =>
    refine Step.of_eq (vouchers_advance ⟨rfl, rfl⟩ (fun t' ht' => ?_) rfl)
    rw [List.mem_singleton.mp ht']
    exact ⟨rfl, rfl⟩
  | rotated c row email =>
    refine Step.of_eq ?_
    simp only [next]
    split <;> exact vouchers_advance ⟨rfl, rfl⟩ (fun t' ht' => by cases ht') rfl
  | changing user newHash =>
    refine Step.of_eq (vouchers_advance ⟨rfl, rfl⟩ (fun t' ht' => ?_) rfl)
    rw [List.mem_singleton.mp ht']
    exact ⟨rfl, rfl⟩
  | recovering now clientIp salt user hash newPassword =>
    simp only [next]
    split
    · rename_i e a heq
      exact Step.of_eq (vouchers_advance ⟨rfl, rfl⟩ (fun t' ht' => by cases ht')
        (findKey_keys.of_error heq))
    · rename_i key newHash a heq
      obtain ⟨rfl, -, k, hk, rfl⟩ := findKey_keys.of_eq heq
      obtain ⟨hmem, -, hunused⟩ := unusedKey_spec (Option.filter_eq_some_iff.mp hk).1
      exact step_find ⟨rfl, rfl⟩ hmem hunused (he k hk)
  | found clientIp user key newHash => exact step_redeem ht
  | reset clientIp user key => exact step_mark ht
  | leaving user clientIp =>
    refine Step.of_eq ?_
    cases clientIp with
    | none =>
      exact vouchers_advance (t := .leaving user none) ⟨rfl, rfl⟩ (fun t' ht' => by cases ht') rfl
    | some ip =>
      exact vouchers_advance (t := .leaving user (some ip)) ⟨rfl, rfl⟩ (fun t' ht' => by cases ht')
        rfl

/-- The row of a generated phrase is new. -/
theorem generateRecoveryPhrase_row {now : ℤ} {id : Uuid} {user : String} {entropy : Bytes} {a : Tables} :
    wp (generateRecoveryPhrase L p now id user entropy)
      (fun r a' => r = (generateBip39Mnemonic L p entropy, (newKey L p now id user entropy).id) ∧
        (newKey L p now id user entropy).id ∉ a.keys.map RecoveryKey.id ∧
        a' = { a with keys := a.keys ++ [newKey L p now id user entropy] })
      (fun _ _ => True) a := by
  simp only [generateRecoveryPhrase, wp_bind, wp_get, wp_ensure, wp_set, wp_pure, imp_true_iff, and_true,
    true_and, List.all_eq_true, decide_eq_true_eq, List.mem_map, not_exists, not_and]
  exact fun h k hk => h k hk

/-- A phrase that is generated leaves the users and the rate limits alone. -/
theorem worker_generate {now : ℤ} {id : Uuid} {user : String} {entropy : Entropy} :
    (step L p secret s (.generate now id user entropy)).tables.worker = s.tables.worker := by
  simp only [step]
  split
  · rfl
  · rename_i phrase key a heq
    obtain ⟨-, -, rfl⟩ := generateRecoveryPhrase_row.of_eq heq
    rfl

/-- **A query is a step of the vouchers.** -/
theorem step_vouchers (he : Alone s e) : Step s.vouchers (s.step L p secret e).vouchers := by
  cases e with
  | grant c user email =>
    simp only [step]
    split
    · rename_i e w heq
      exact Step.refl _
    · rename_i tokens w heq
      exact Step.refl _
  | refresh c token =>
    refine Step.of_eq (vouchers_arrive (w := s.tables.worker) fun t' ht' => ?_)
    obtain ⟨row, -, rfl⟩ := Option.map_eq_some_iff.mp (Option.mem_toList.mp ht')
    exact ⟨rfl, rfl⟩
  | changePassword salt user body =>
    refine Step.of_eq (vouchers_arrive (w := s.tables.worker) fun t' ht' => ?_)
    obtain ⟨newHash, -, rfl⟩ := Option.map_eq_some_iff.mp (Option.mem_toList.mp ht')
    exact ⟨rfl, rfl⟩
  | generate now id user entropy =>
    simp only [step]
    split
    · exact Step.refl _
    · rename_i phrase key a heq
      obtain ⟨hr, hnew, rfl⟩ := generateRecoveryPhrase_row.of_eq heq
      have hid : (newKey L p now id user entropy.1).id ∉ s.vouchers.rows.map Voucher.id := by
        rw [vouchers, List.map_map]
        exact hnew
      have hstep := Step.issue hid
      refine (congrArg (Step s.vouchers) ?_).mp hstep
      simp only [vouchers, List.map_append, List.map_singleton]
      rfl
  | recover now clientIp salt body =>
    simp only [step]
    split
    · exact Step.refl _
    · refine Step.of_eq (vouchers_arrive fun t' ht' => ?_)
      rw [List.mem_singleton.mp ht']
      exact ⟨rfl, rfl⟩
  | proceed t fails =>
    simp only [step]
    split
    · exact Step.refl _
    · rename_i hflight
      split
      · rename_i hfails
        refine step_giveUp ?_
        cases t <;> first | rfl | exact absurd (he.symm.trans hfails) Bool.false_ne_true
      · rename_i hfails
        rw [Bool.not_eq_true] at hfails
        subst hfails
        exact step_next_vouchers (not_not.mp hflight) he
  | users users pk authRateLimiter => exact Step.refl _

/-! ## The phrases -/

/-- Of two keys of one user, one is used. -/
def OneUnused (keys : List RecoveryKey) : Prop :=
  keys.Pairwise fun k k' => k.userId = k'.userId → k.isUsed = true ∨ k'.isUsed = true

/-- Every phrase that was generated is one, and is in the table with its hash, and no user has two that
are unused. -/
structure Kept (L : WordList) (p : Platform) (s : Sessions) : Prop where
  kept : ∀ g ∈ s.generated, (∃ entropy : Entropy, g.phrase = generateBip39Mnemonic L p entropy.1) ∧
    ∃ k ∈ s.tables.keys, k.id = g.key ∧ k.userId = g.user ∧
      k.recoveryHash = recoveryHash p (normalize p g.phrase)
  one : OneUnused s.tables.keys

theorem Kept.same (h : Kept L p s) (hgenerated : s'.generated = s.generated)
    (hkeys : s'.tables.keys = s.tables.keys) : Kept L p s' := by
  refine ⟨fun g hg => ?_, hkeys ▸ h.one⟩
  rw [hkeys]
  exact h.kept g (hgenerated ▸ hg)

theorem Kept.useKey (h : Kept L p s) {key : String} (hgenerated : s'.generated = s.generated)
    (hkeys : s'.tables.keys = (s.tables.useKey key).keys) : Kept L p s' := by
  refine ⟨fun g hg => ?_, ?_⟩
  · obtain ⟨hphrase, k, hk, hkey⟩ := h.kept g (hgenerated ▸ hg)
    rw [hkeys]
    refine ⟨hphrase, _, List.mem_map_of_mem hk, ?_⟩
    split <;> exact hkey
  · rw [hkeys]
    refine h.one.map _ fun k k' hone huser => ?_
    have hmarked : ∀ k : RecoveryKey, k.isUsed = true →
        (if k.id = key then { k with isUsed := true } else k).isUsed = true := fun k hused => by
      split
      · rfl
      · exact hused
    have howner : ∀ k : RecoveryKey,
        (if k.id = key then { k with isUsed := true } else k).userId = k.userId := fun k => by
      split <;> rfl
    rw [howner, howner] at huser
    exact (hone huser).imp (hmarked k) (hmarked k')

theorem Kept.next (h : Kept L p s) (t : Ticket) : Kept L p (s.next p secret t) := by
  cases t with
  | rotated c row email =>
    simp only [Sessions.next]
    split <;> exact h.same rfl rfl
  | recovering now clientIp salt user hash newPassword =>
    simp only [Sessions.next]
    split
    · rename_i e a heq
      exact h.same rfl (findKey_keys.of_error heq)
    · rename_i key newHash a heq
      obtain ⟨rfl, -⟩ := findKey_keys.of_eq heq
      exact h.same rfl rfl
  | reset clientIp user key => exact h.useKey rfl rfl
  | leaving user clientIp => cases clientIp <;> exact h.same rfl rfl
  | read c row => exact h.same rfl rfl
  | located c row email => exact h.same rfl rfl
  | changing user newHash => exact h.same rfl rfl
  | found clientIp user key newHash => exact h.same rfl rfl

/-- **No query loses a phrase**, or makes a second unused one. -/
theorem Kept.step (h : Kept L p s) (he : Alone s e) : Kept L p (s.step L p secret e) := by
  cases e with
  | generate now id user entropy =>
    simp only [Sessions.step]
    split
    · exact h
    · rename_i phrase key a heq
      obtain ⟨hr, -, rfl⟩ := generateRecoveryPhrase_row.of_eq heq
      obtain ⟨rfl, rfl⟩ := Prod.mk.inj hr
      refine ⟨fun g hg => ?_, List.pairwise_append.mpr
        ⟨h.one, List.pairwise_singleton _ _, fun k hk k' hk' huser => Or.inl ?_⟩⟩
      · rcases List.mem_append.mp hg with hg | hg
        · obtain ⟨hphrase, k, hk, hkey⟩ := h.kept g hg
          exact ⟨hphrase, k, List.mem_append_left _ hk, hkey⟩
        · rw [List.mem_singleton.mp hg]
          exact ⟨⟨entropy, rfl⟩, _, List.mem_append_right _ List.mem_cons_self, rfl, rfl, rfl⟩
      · -- the keys of this user are all used
        rw [List.mem_singleton.mp hk'] at huser
        have hused := List.find?_eq_none.mp he k hk
        simpa [huser, newKey] using hused
  | grant c user email =>
    simp only [Sessions.step]
    split
    · rename_i e w heq
      exact h.same rfl rfl
    · rename_i tokens w heq
      exact h.same rfl rfl
  | recover now clientIp salt body =>
    simp only [Sessions.step]
    split <;> exact h.same rfl rfl
  | proceed t fails =>
    simp only [Sessions.step]
    split
    · exact h
    · split
      · exact h.same rfl rfl
      · exact h.next t
  | refresh c token => exact h.same rfl rfl
  | changePassword salt user body => exact h.same rfl rfl
  | users users pk authRateLimiter => exact h.same rfl rfl

end Sessions

/-- A request submits a phrase with the right e-mail and a new password, from an address that is not
made to wait. -/
structure Submits (p : Platform) (s : Sessions) (g : Generated) (now : ℤ) (clientIp newPassword : String)
    (body : VerifyRecoveryBody) : Prop where
  free : (s.tables.worker.authRateLimiter.get (recoveryLimit clientIp)).any
    (fun record => now < record.blockedUntil) = false
  email : ∃ email, truthy body.email = some email ∧
    (s.tables.worker.users.find? fun u => u.email = normalize p email).map User.id = some g.user
  phrase : (truthy body.recoveryPhrase <|> truthy body.recoveryKey) = some g.phrase
  password : truthy body.newPassword = some newPassword

/-- Every phrase that has not been consumed resets the password: a request that has got to the look-up
finds its key, and one that is submitted and runs through sets the new password.  And no phrase does
so twice. -/
structure Recovers (L : WordList) (p : Platform) (s : Sessions) : Prop where
  finds : ∀ g ∈ s.generated, g.key ∉ s.resets → ∀ now clientIp salt newPassword,
    findKey p now clientIp salt g.user (recoveryHash p (normalize p g.phrase)) newPassword s.tables =
      .ok (g.key, p.hashPassword salt newPassword) s.tables
  resets : ∀ g ∈ s.generated, g.key ∉ s.resets → ∀ now clientIp salt newPassword body,
    Submits p s g now clientIp newPassword body →
    ∃ a, verifyRecoveryPhrase L p now clientIp salt body s.tables = .ok () a ∧
      ∀ user ∈ a.worker.users, user.id = g.user → user.passwordHash = p.hashPassword salt newPassword
  once : s.resets.Nodup

namespace Sessions

variable {L : WordList} {p : Platform} {secret : String} {s : Sessions}

/-- A recovery that passes its checks has its user. -/
theorem findRecovered_ok {now : ℤ} {clientIp : String} {body : VerifyRecoveryBody} {w : Worker}
    {email hash newPassword : String} {user : User}
    (hfree : (w.authRateLimiter.get (recoveryLimit clientIp)).any
      (fun record => now < record.blockedUntil) = false)
    (hcheck : checkRecovery L p body = .ok (email, hash, newPassword))
    (huser : (w.users.find? fun u => u.email = normalize p email) = some user) :
    findRecovered L p now clientIp body w = .ok (user.id, hash, newPassword) w := by
  refine ok_of_wp ?_
  simp only [findRecovered, checkRateLimit, wp_bind, wp_get, wp_ensure, wp_ofExcept, hfree, hcheck,
    huser, Except.ok.injEq, reduceCtorEq, Bool.not_false, forall_eq', false_imp_iff, implies_true,
    and_true, wp_pure, and_self]

/-- …and waits to find its key. -/
theorem step_recover {now : ℤ} {clientIp salt : String} {body : VerifyRecoveryBody}
    {email hash newPassword : String} {user : User}
    (hfree : (s.tables.worker.authRateLimiter.get (recoveryLimit clientIp)).any
      (fun record => now < record.blockedUntil) = false)
    (hcheck : checkRecovery L p body = .ok (email, hash, newPassword))
    (huser : (s.tables.worker.users.find? fun u => u.email = normalize p email) = some user) :
    step L p secret s (.recover now clientIp salt body) =
      s.arrive (some (.recovering now clientIp salt user.id hash newPassword)) := by
  rw [step, findRecovered_ok hfree hcheck huser]
  rfl

/-- A recovery runs through. -/
theorem verifyRecoveryPhrase_ok {now : ℤ} {clientIp salt : String} {body : VerifyRecoveryBody}
    {a : Tables} {email hash key newHash newPassword : String} {user : User}
    (hfree : (a.worker.authRateLimiter.get (recoveryLimit clientIp)).any
      (fun record => now < record.blockedUntil) = false)
    (hcheck : checkRecovery L p body = .ok (email, hash, newPassword))
    (huser : (a.worker.users.find? fun u => u.email = normalize p email) = some user)
    (hfind : findKey p now clientIp salt user.id hash newPassword a = .ok (key, newHash) a) :
    ∃ w : Worker, w.users = (a.worker.setPassword user.id newHash).users ∧
      verifyRecoveryPhrase L p now clientIp salt body a =
        .ok () { a.useKey key with worker := w } := by
  refine ⟨leaves (recordSuccess (recoveryLimit clientIp))
    ((a.worker.setPassword user.id newHash).revokeAll user.id), rfl, ok_of_wp ?_⟩
  rw [verifyRecoveryPhrase, wp_bind, wp_inWorker, wp_iff_of_ok (findRecovered_ok hfree hcheck huser),
    wp_bind, wp_iff_of_ok hfind]
  simp only [wp_bind, wp_modify, wp_inWorker]
  exact ⟨trivial, rfl⟩

/-- A key that has not been redeemed is the one that is found. -/
theorem findKey_of_kept (hkept : Kept L p s) (h : Sound s.vouchers) {g : Generated}
    (hg : g ∈ s.generated) (hkey : g.key ∉ s.resets) (now : ℤ) (clientIp salt newPassword : String) :
    findKey p now clientIp salt g.user (recoveryHash p (normalize p g.phrase)) newPassword s.tables =
      .ok (g.key, p.hashPassword salt newPassword) s.tables := by
  obtain ⟨-, k, hk, hid, huser, hrecovery⟩ := hkept.kept g hg
  have hunused : k.isUsed = false :=
    h.unused (r := toVoucher k) (List.mem_map_of_mem hk) fun hin =>
      hkey (hid ▸ (show k.id ∈ s.resets from hin))
  have hfirst : s.tables.unusedKey g.user = some k := by
    cases hfind : s.tables.unusedKey g.user with
    | none =>
      have hmiss := List.find?_eq_none.mp hfind k hk
      simp [huser, hunused] at hmiss
    | some k' =>
      obtain ⟨hk', huser', hunused'⟩ := unusedKey_spec hfind
      by_contra hne
      have hsymm : Std.Symm fun k k' : RecoveryKey =>
          k.userId = k'.userId → k.isUsed = true ∨ k'.isUsed = true :=
        ⟨fun a b hab hba => (hab hba.symm).symm⟩
      have hused := List.Pairwise.forall hkept.one hk hk' (fun heq => hne (congrArg some heq.symm))
        (huser.trans huser'.symm)
      rw [hunused, hunused'] at hused
      simp at hused
  have hfound : (s.tables.unusedKey g.user).filter
      (fun k => k.recoveryHash = recoveryHash p (normalize p g.phrase)) = some k := by
    rw [hfirst]
    exact Option.filter_some_pos (decide_eq_true hrecovery)
  refine ok_of_wp ?_
  simp only [findKey, wp_bind, wp_get, hfound, wp_pure, hid, and_self]

theorem recovers_of_sound (hlower : KeepsLowercase p) (hkept : Kept L p s) (h : Sound s.vouchers) :
    Recovers L p s where
  finds g hg hkey now clientIp salt newPassword :=
    findKey_of_kept hkept h hg hkey now clientIp salt newPassword
  resets g hg hkey now clientIp salt newPassword body hbody := by
    obtain ⟨⟨entropy, hphrase⟩, -⟩ := hkept.kept g hg
    obtain ⟨email, hemail, hright⟩ := hbody.email
    obtain ⟨user, huser, hid⟩ := Option.map_eq_some_iff.mp hright
    have hcheck : checkRecovery L p body =
        .ok (email, recoveryHash p (normalize p g.phrase), newPassword) := by
      rw [hphrase]
      exact checkRecovery_phrase hlower entropy hemail (hphrase ▸ hbody.phrase) hbody.password
    have hfind := findKey_of_kept hkept h hg hkey now clientIp salt newPassword
    rw [← hid] at hfind
    obtain ⟨w, hw, heq⟩ := verifyRecoveryPhrase_ok hbody.free hcheck huser hfind
    refine ⟨_, heq, fun row hrow hrowid => ?_⟩
    rw [hw] at hrow
    obtain ⟨row, hrow, rfl⟩ := List.mem_map.mp hrow
    rw [← hid] at hrowid
    split at hrowid
    · rename_i hset
      rw [if_pos hset]
    · rename_i hset
      exact absurd hrowid hset
  once := h.once

theorem sound_vouchers_start (users : List User) (pk : (users.map User.id).Nodup) :
    Sound (start users pk).vouchers := by
  constructor <;> simp [start, vouchers]

theorem kept_start (users : List User) (pk : (users.map User.id).Nodup) :
    Kept L p (start users pk) :=
  ⟨fun g hg => (by cases hg), List.Pairwise.nil⟩

/-- **The phrases recover** in a run in which each is generated and looked up alone. -/
theorem recovers_of_run (hlower : KeepsLowercase p) {users : List User}
    {pk : (users.map User.id).Nodup} {es : List SessionEvent}
    (hes : Along Alone (step L p secret) (start users pk) es) :
    Recovers L p (run (step L p secret) (start users pk) es) := by
  have hinv := Along.invariant (P := fun s : Sessions => Sound s.vouchers ∧ Kept L p s)
    (fun s e h he => ⟨h.1.step (step_vouchers he), h.2.step he⟩)
    ⟨sound_vouchers_start users pk, kept_start users pk⟩ hes
  exact recovers_of_sound hlower hinv.2 hinv.1

end Sessions

/-! ## Both servers -/

/-- **When recovery phrases do what they are for.**  At the edge and in the backend, a phrase that has
not been consumed resets the password, and none does so twice, in a run in which no recovery finds a
key that another is under way with, and the key of a reset is marked; at the edge, no user may be
given a second phrase while one is unused. -/
theorem recovers {L : WordList} {p : Platform} {secret : String} {users : List User}
    {pk : (users.map User.id).Nodup} {es : List SessionEvent} {x : Auth.Crates} {u : Auth.Cases}
    {cfg : Auth.AuthConfig} {authUsers : List Auth.User}
    {authPk : (authUsers.map Auth.User.id).Nodup} {authEs : List Auth.SessionEvent} :
    (KeepsLowercase p → Along Alone (Sessions.step L p secret) (.start users pk) es →
      Recovers L p (run (Sessions.step L p secret) (.start users pk) es)) ∧
    (Auth.KeepsLowercase x →
      Along (Auth.Alone x) (Auth.Sessions.step L x u cfg) (.start authUsers authPk) authEs →
      Auth.Recovers L x u (run (Auth.Sessions.step L x u cfg) (.start authUsers authPk) authEs)) :=
  ⟨fun hlower => Sessions.recovers_of_run hlower, fun hlower => Auth.Sessions.recovers_of_run hlower⟩

namespace Noon

open Pcos.Sample Mnemonic.Sample

/-- The bits of two phrases, and the first of them. -/
def entropy0 : Entropy := ⟨List.replicate 16 0, length_zeros⟩

def entropy1 : Entropy := ⟨[0, 96, 0, 1, 128, 0, 0, 0, 0, 0, 0, 0, 0, 0, 0, 0], rfl⟩

def phrase0 : String :=
  "abandon abandon abandon abandon abandon abandon abandon abandon abandon abandon abandon about"

def recoveryHash0 : String := "c557eec878dfd852ba3f88087c4f350f09c55537ab5e549c3cd14320ec3cef38"

/-- The digests of these, by their last bytes: the first phrase ends in a t. -/
def phraseHash (bytes : Bytes) : String :=
  if bytes = entropy0.1 then "374708fff7719dd5979ec875d56cd2286f6d3cf7ec317a3b25632aab28ec37bb"
  else if bytes = entropy1.1 then "0176506f3c3bfbd51d907f72f7fdf90883b34a08ea5579f8bbd6d9d18049323b"
  else if bytes.getLast? = some 0x74 then recoveryHash0
  else "ca067c5e18a965d4b4e9d62f910127abc7bd5f15c2948f6bfca08a5c6146b13b"

def phrasePlatform : Platform := { sessionPlatform with sha256 := phraseHash }

def phraseCrates : Auth.Crates :=
  { Auth.Noon.crates with
    sha256 := phraseHash
    hashPassword _ password := .ok ("$argon2id$" ++ password)
    verifyPassword password hash := .ok (hash = "$argon2id$" ++ password)
    verify_hash := Auth.Noon.verify_shown }

def resetsAfter (es : List SessionEvent) : Sessions :=
  run (Sessions.step wordList phrasePlatform jwtSecret) (.start [aliceRow] nodup_aliceRow) es

def authResetsAfter (es : List Auth.SessionEvent) : Auth.Sessions :=
  run (Auth.Sessions.step wordList phraseCrates ⟨Char.isUpper, Char.isLower⟩ Auth.Noon.config)
    (.start [⟨alice, "alice@example.com", "Alice", Auth.Noon.passwordHash, true, none, false, 0, 0⟩]
      nodup_alice) es

/-- Alice's phrase, submitted with a new password. -/
def phraseBody : VerifyRecoveryBody :=
  ⟨some "alice@example.com", some phrase0, none, some "Password1"⟩

def phraseRequest : Auth.VerifyRecoveryRequest :=
  ⟨"alice@example.com", some phrase0, none, "Password1"⟩

/-- The waiting request, before and after it has found the key. -/
def seeking : Ticket :=
  .recovering 1700000000000 "198.51.100.7" "salt" alice.text recoveryHash0 "Password1"

def holding : Ticket := .found "198.51.100.7" alice.text ("rec_" ++ id1.text) "pbkdf2$Password1"

def authSeeking : Auth.Ticket :=
  .located Auth.Noon.noon "salt" alice recoveryHash0 "Password1"

def authHolding : Auth.Ticket :=
  .found Auth.Noon.noon alice ("rec_" ++ id1.text) "$argon2id$Password1"

/-- The phrase is generated, and submitted… -/
def submitted : List SessionEvent :=
  [.generate 1700000000000 id1 alice.text entropy0,
    .recover 1700000000000 "198.51.100.7" "salt" phraseBody]

def authSubmitted : List Auth.SessionEvent :=
  [.generate Auth.Noon.noon id1 alice entropy0, .recover Auth.Noon.noon "salt" phraseRequest]

/-- …twice at once, and both requests find its key and reset the password. -/
def submittedTwice : List SessionEvent :=
  submitted ++ [.recover 1700000000000 "198.51.100.7" "salt" phraseBody, .proceed seeking false,
    .proceed seeking false, .proceed holding false, .proceed holding false]

def authSubmittedTwice : List Auth.SessionEvent :=
  authSubmitted ++ [.recover Auth.Noon.noon "salt" phraseRequest, .proceed authSeeking false,
    .proceed authSeeking false, .proceed authHolding false, .proceed authHolding false]

/-- Another phrase is generated before it. -/
def generatedTwice : List SessionEvent :=
  [.generate 1700000000000 id1 alice.text entropy1, .generate 1700000000000 id2 alice.text entropy0]

theorem ofList_map_toLower {s : String} (hs : ∀ c ∈ s.toList, c.isLower = true ∨ c = ' ') :
    String.ofList (s.toList.map Char.toLower) = s := by
  have hsame : s.toList.map Char.toLower = s.toList := by
    refine (List.map_congr_left fun c hc => ?_).trans (List.map_id _)
    rcases hs c hc with hlower | rfl
    · exact Auth.toLower_of_isLower hlower
    · rfl
  rw [hsame, String.ofList_toList]

theorem keepsLowercase : KeepsLowercase phrasePlatform := fun _ hs => ofList_map_toLower hs

theorem authKeepsLowercase : Auth.KeepsLowercase phraseCrates := fun _ hs => ofList_map_toLower hs

/-- The phrase of the first entropy, and its hash on either server. -/
theorem phrase0_spec : generateBip39Mnemonic wordList phrasePlatform entropy0.1 = phrase0 ∧
    recoveryHash phrasePlatform phrase0 = recoveryHash0 ∧
    phraseCrates.sha256 phrase0.toUTF8.toList = recoveryHash0 := by
  decide +kernel

theorem generated_phrase0 : generateBip39Mnemonic wordList phrasePlatform entropy0.1 = phrase0 :=
  phrase0_spec.1

theorem recoveryHash_phrase0 :
    recoveryHash phrasePlatform (normalize phrasePlatform phrase0) = recoveryHash0 := by
  have hnormal := normalize_phrase (L := wordList) keepsLowercase entropy0
  rw [generated_phrase0] at hnormal
  rw [hnormal]
  exact phrase0_spec.2.1

/-- The phrase is accepted, with its hash… -/
theorem checkRecovery_phraseBody : checkRecovery wordList phrasePlatform phraseBody =
    .ok ("alice@example.com", recoveryHash0, "Password1") := by
  have hcheck : checkRecovery wordList phrasePlatform phraseBody = _ :=
    checkRecovery_phrase keepsLowercase entropy0 rfl (congrArg some generated_phrase0.symm) rfl
  rw [hcheck, generated_phrase0, recoveryHash_phrase0]

theorem checkRecovery_phraseRequest :
    Auth.checkRecovery wordList phraseCrates ⟨Char.isUpper, Char.isLower⟩ phraseRequest =
      .ok recoveryHash0 := by
  have hphrase : Auth.generateBip39Phrase wordList phraseCrates entropy0.1 = phrase0 :=
    generated_phrase0
  have hcheck : Auth.checkRecovery wordList phraseCrates ⟨Char.isUpper, Char.isLower⟩ phraseRequest
      = _ := Auth.checkRecovery_phrase authKeepsLowercase entropy0 (congrArg some hphrase.symm)
    (by decide)
  rw [hcheck, Auth.hashPhrase_phrase authKeepsLowercase, hphrase, phrase0_spec.2.2]

/-- …and the request waits. -/
theorem step_submit {s : Sessions} (hworker : s.tables.worker = (resetsAfter []).tables.worker) :
    Sessions.step wordList phrasePlatform jwtSecret s
      (.recover 1700000000000 "198.51.100.7" "salt" phraseBody) = s.arrive (some seeking) := by
  have huser : (s.tables.worker.users.find? fun u =>
      u.email = normalize phrasePlatform "alice@example.com") = some aliceRow := by
    rw [hworker]
    rfl
  exact Sessions.step_recover (by rw [hworker]; rfl) checkRecovery_phraseBody huser

theorem step_authSubmit {s : Auth.Sessions}
    (husers : s.accounts.db.users = (authResetsAfter []).accounts.db.users) :
    Auth.Sessions.step wordList phraseCrates ⟨Char.isUpper, Char.isLower⟩ Auth.Noon.config s
      (.recover Auth.Noon.noon "salt" phraseRequest) = s.arrive (.ok authSeeking) := by
  have hfound : Auth.findRecovered phraseCrates phraseRequest s.accounts = .ok alice := by
    rw [Auth.findRecovered, husers]
    rfl
  exact Auth.Sessions.step_recover checkRecovery_phraseRequest hfound

theorem resetsAfter_concat (es : List SessionEvent) (e : SessionEvent) : resetsAfter (es ++ [e]) =
    Sessions.step wordList phrasePlatform jwtSecret (resetsAfter es) e :=
  run_append _ es [e]

theorem authResetsAfter_concat (es : List Auth.SessionEvent) (e : Auth.SessionEvent) :
    authResetsAfter (es ++ [e]) = Auth.Sessions.step wordList phraseCrates
      ⟨Char.isUpper, Char.isLower⟩ Auth.Noon.config (authResetsAfter es) e :=
  run_append _ es [e]

theorem worker_generated :
    (resetsAfter (submitted.take 1)).tables.worker = (resetsAfter []).tables.worker :=
  (congrArg (·.tables.worker) (resetsAfter_concat [] _)).trans Sessions.worker_generate

theorem users_generated : (authResetsAfter (authSubmitted.take 1)).accounts.db.users =
    (authResetsAfter []).accounts.db.users :=
  (congrArg (·.accounts.db.users) (authResetsAfter_concat [] _)).trans Auth.Sessions.users_generate

theorem resetsAfter_submitted :
    resetsAfter submitted = (resetsAfter (submitted.take 1)).arrive (some seeking) :=
  (resetsAfter_concat (submitted.take 1) _).trans (step_submit worker_generated)

theorem authResetsAfter_submitted : authResetsAfter authSubmitted =
    (authResetsAfter (authSubmitted.take 1)).arrive (.ok authSeeking) :=
  (authResetsAfter_concat (authSubmitted.take 1) _).trans (step_authSubmit users_generated)

/-- Two requests wait… -/
theorem resetsAfter_submittedTwice : resetsAfter (submittedTwice.take 3) =
    (resetsAfter submitted).arrive (some seeking) := by
  have hworker : (resetsAfter submitted).tables.worker = (resetsAfter []).tables.worker := by
    rw [resetsAfter_submitted]
    exact worker_generated
  exact (resetsAfter_concat submitted _).trans (step_submit hworker)

theorem authResetsAfter_submittedTwice : authResetsAfter (authSubmittedTwice.take 3) =
    (authResetsAfter authSubmitted).arrive (.ok authSeeking) := by
  have husers : (authResetsAfter authSubmitted).accounts.db.users =
      (authResetsAfter []).accounts.db.users := by
    rw [authResetsAfter_submitted]
    exact users_generated
  exact (authResetsAfter_concat authSubmitted _).trans (step_authSubmit husers)

/-- **On either server one phrase resets the password twice, and at the edge the second of two phrases
does not reset it.** -/
theorem not_recovers :
    ¬ (resetsAfter submittedTwice).resets.Nodup ∧ ¬ (authResetsAfter authSubmittedTwice).resets.Nodup ∧
      ¬ Recovers wordList phrasePlatform (resetsAfter generatedTwice) := by
  refine ⟨?_, ?_, fun h => ?_⟩
  · -- …and both reset the password
    rw [resetsAfter, ← List.take_append_drop 3 submittedTwice, run_append]
    change ¬ (run _ (resetsAfter _) _).resets.Nodup
    rw [resetsAfter_submittedTwice, resetsAfter_submitted]
    decide +kernel
  · rw [authResetsAfter, ← List.take_append_drop 3 authSubmittedTwice, run_append]
    change ¬ (run _ (authResetsAfter _) _).resets.Nodup
    rw [authResetsAfter_submittedTwice, authResetsAfter_submitted]
    decide +kernel
  · have hgenerated : ⟨alice.text, phrase0, "rec_" ++ id2.text⟩ ∈
        (resetsAfter generatedTwice).generated := by decide +kernel
    have hfound := h.finds _ hgenerated (by decide +kernel) 1700000000000 "198.51.100.7" "salt"
      "Password1"
    obtain ⟨-, -, k, hk, -⟩ := Sessions.findKey_keys.of_eq hfound
    have hmissed : ((resetsAfter generatedTwice).tables.unusedKey alice.text).filter
        (fun k => k.recoveryHash = recoveryHash0) = none := by decide +kernel
    rw [recoveryHash_phrase0, hmissed] at hk
    cases hk

/-- A phrase is looked up and resets the password. -/
def lookedUp : List SessionEvent :=
  [.proceed seeking false, .proceed holding false,
    .proceed (.reset "198.51.100.7" alice.text ("rec_" ++ id1.text)) false]

def authLookedUp : List Auth.SessionEvent :=
  [.proceed authSeeking false, .proceed authHolding false,
    .proceed (.reset alice ("rec_" ++ id1.text)) false]

/-- In the backend there may be another. -/
def authSecond : List Auth.SessionEvent := .generate Auth.Noon.noon id2 alice entropy1 :: authSubmitted

theorem alone_lookedUp :
    Along Alone (Sessions.step wordList phrasePlatform jwtSecret) (resetsAfter [])
      (submitted ++ lookedUp) := by
  have hflight : (resetsAfter submitted).flight = [seeking] := by
    rw [resetsAfter_submitted]
    rfl
  have hsubmitted : Along Alone (Sessions.step wordList phrasePlatform jwtSecret) (resetsAfter [])
      submitted := ⟨rfl, trivial, trivial⟩
  refine Along.append_iff.mpr ⟨hsubmitted, ?_⟩
  change Along _ _ (resetsAfter submitted) _
  refine ⟨fun k _ t ht => ?_, trivial, rfl, trivial⟩
  rw [hflight] at ht
  rw [List.mem_singleton.mp ht]
  exact ⟨nofun, nofun⟩

theorem alone_authLookedUp :
    Along (Auth.Alone phraseCrates)
      (Auth.Sessions.step wordList phraseCrates ⟨Char.isUpper, Char.isLower⟩ Auth.Noon.config)
      (authResetsAfter []) (authSecond ++ authLookedUp) := by
  have husers : (authResetsAfter (authSecond.take 2)).accounts.db.users =
      (authResetsAfter (authSecond.take 1)).accounts.db.users :=
    (congrArg (·.accounts.db.users) (authResetsAfter_concat (authSecond.take 1) _)).trans
      Auth.Sessions.users_generate
  have husers' : (authResetsAfter (authSecond.take 1)).accounts.db.users =
      (authResetsAfter []).accounts.db.users :=
    (congrArg (·.accounts.db.users) (authResetsAfter_concat [] _)).trans
      Auth.Sessions.users_generate
  have hsubmitted : authResetsAfter authSecond =
      (authResetsAfter (authSecond.take 2)).arrive (.ok authSeeking) :=
    (authResetsAfter_concat (authSecond.take 2) _).trans (step_authSubmit (husers.trans husers'))
  have hflight : (authResetsAfter authSecond).flight = [authSeeking] := by
    rw [hsubmitted]
    rfl
  refine Along.append_iff.mpr ⟨⟨trivial, trivial, trivial, trivial⟩, ?_⟩
  change Along _ _ (authResetsAfter authSecond) _
  refine ⟨fun key newHash _ t ht => ?_, trivial, rfl, trivial⟩
  rw [hflight] at ht
  rw [List.mem_singleton.mp ht]
  exact ⟨nofun, nofun⟩

/-- One reset on each server. -/
theorem recovers_once :
    Recovers wordList phrasePlatform (resetsAfter (submitted ++ lookedUp)) ∧
    Auth.Recovers wordList phraseCrates ⟨Char.isUpper, Char.isLower⟩
      (authResetsAfter (authSecond ++ authLookedUp)) :=
  recovers.imp (fun h => h (fun _ hs => ofList_map_toLower hs) alone_lookedUp)
    fun h => h (fun _ hs => ofList_map_toLower hs) alone_authLookedUp

end Noon

end Pcos.Edge.Accounts
