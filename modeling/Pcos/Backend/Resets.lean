import Pcos.Backend.Sessions
import Pcos.Foundations.Vouchers

/-!
# Backend/Resets — the recovery phrases in a run (`recovery.rs`)

The keys of the phrases are vouchers for one reset each (`step_vouchers`).  A phrase whose key has not
been redeemed is found by its hash, so it resets the password whatever else was generated
(`recovers_of_run`).
-/

namespace Pcos.Auth

open Foundations Mnemonic Vouchers

/-! ## A generated phrase is a good one -/

/-- `to_lowercase` leaves lower-case letters of ASCII and spaces as they are. -/
def KeepsLowercase (x : Crates) : Prop :=
  ∀ s : String, (∀ c ∈ s.toList, c.isLower = true ∨ c = ' ') → x.toLowercase s = s

theorem isWhiteSpace_of_isAlpha {c : Char} (hc : c.isAlpha = true) : isWhiteSpace c = false := by
  rw [isAlpha_iff, isUpper_iff, isLower_iff] at hc
  simp only [isWhiteSpace, Bool.or_eq_false_iff, Bool.and_eq_false_iff, decide_eq_false_iff_not,
    List.contains_eq_mem, List.mem_cons, List.not_mem_nil, or_false]
  omega

theorem isWhiteSpace_of_isLower {c : Char} (hc : c.isLower = true) : isWhiteSpace c = false :=
  isWhiteSpace_of_isAlpha (isAlpha_iff.mpr (.inr hc))

theorem toLower_of_isLower {c : Char} (hc : c.isLower = true) : c.toLower = c := by
  have hrange := isLower_iff.mp hc
  unfold Char.toLower
  refine dif_neg fun h => ?_
  have hupper : c.toNat ≤ 90 := by simpa [UInt32.le_iff_toNat_le] using h.2
  omega

section Phrases

variable {L : WordList} {x : Crates} {u : Cases} (hlower : KeepsLowercase x) (entropy : Entropy)

theorem splitWhitespace_phrase :
    splitWhitespace (generateBip39Phrase L x entropy.1) = phraseWords L x.sha256 entropy.1 := by
  have hsplit : (generateBip39Phrase L x entropy.1).toList.splitOnP isWhiteSpace =
      (phraseWords L x.sha256 entropy.1).map String.toList :=
    splitOnP_phrase entropy.2 rfl fun c hc => isWhiteSpace_of_isLower hc
  have hpieces : ∀ l ∈ (phraseWords L x.sha256 entropy.1).map String.toList, l ≠ [] := fun l hl =>
    (pieces_phrase entropy.2 (fun c hc => isWhiteSpace_of_isLower hc) l hl).1
  have hkept : ((phraseWords L x.sha256 entropy.1).map String.toList).filter (· ≠ []) =
      (phraseWords L x.sha256 entropy.1).map String.toList :=
    List.filter_eq_self.mpr fun l hl => decide_eq_true (hpieces l hl)
  rw [splitWhitespace, hsplit, hkept, List.map_map]
  exact (List.map_congr_left fun w _ => String.ofList_toList).trans (List.map_id _)

include hlower

theorem toLowercase_word {w : String} (hw : w ∈ L.words) : x.toLowercase w = w :=
  hlower w fun c hc => Or.inl ((L.letters w hw).2 c hc)

/-- A generated phrase is hashed as it is. -/
theorem hashPhrase_phrase : hashPhrase x (generateBip39Phrase L x entropy.1) =
    x.sha256 (generateBip39Phrase L x entropy.1).toUTF8.toList := by
  have htrim : trim isWhiteSpace (generateBip39Phrase L x entropy.1) =
      generateBip39Phrase L x entropy.1 :=
    trim_phrase entropy.2 fun c hc => isWhiteSpace_of_isLower hc
  have hsame : x.toLowercase (generateBip39Phrase L x entropy.1) =
      generateBip39Phrase L x entropy.1 := hlower _ (phrase_chars entropy.2)
  rw [hashPhrase, htrim, hsame]

theorem validateBip39Phrase_phrase :
    validateBip39Phrase L x (generateBip39Phrase L x entropy.1) = .ok () := by
  have hwords : (phraseWords L x.sha256 entropy.1).map x.toLowercase = phraseWords L x.sha256 entropy.1 :=
    (List.map_congr_left fun w hw =>
      toLowercase_word hlower (phraseWords_mem entropy.2 w hw)).trans (List.map_id _)
  rw [validateBip39Phrase, splitWhitespace_phrase, hwords, checkWords_phraseWords entropy.2]
  rfl

/-- **A generated phrase passes the checks**, with the hash that it was stored with. -/
theorem checkRecovery_phrase {req : VerifyRecoveryRequest}
    (hphrase : (req.recoveryPhrase <|> req.recoveryKey) = some (generateBip39Phrase L x entropy.1))
    (hpassword : validatePassword u req.newPassword = .ok ()) :
    checkRecovery L x u req = .ok (hashPhrase x (generateBip39Phrase L x entropy.1)) := by
  simp only [checkRecovery, hpassword, hphrase, validateBip39Phrase_phrase hlower]
  split <;> rfl

end Phrases

/-! ## The vouchers -/

/-- The key of a recovery that has found it… -/
def Ticket.holds : Ticket → Option String
  | .found _ _ key _ => some key
  | _ => none

/-- …and of one that has reset the password with it. -/
def Ticket.spends : Ticket → Option String
  | .reset _ key => some key
  | _ => none

/-- What a safe run avoids: that a recovery finds a key that another is under way with, and that the
key of a reset is not marked. -/
def Alone (x : Crates) (s : Sessions) : SessionEvent → Prop
  | .proceed (.located _ salt user hash newPassword) false => ∀ key newHash,
    findKey x salt user hash newPassword s.accounts = .ok (key, newHash) →
    ∀ t ∈ s.flight, t.holds ≠ some key ∧ t.spends ≠ some key
  | .proceed (.reset _ _) fails => fails = false
  | _ => True

namespace Sessions

def toVoucher (k : RecoveryKey) : Voucher String := ⟨k.id, k.isUsed⟩

/-- The vouchers of a server. -/
def vouchers (s : Sessions) : State String where
  rows := s.accounts.keys.map toVoucher
  held := s.flight.filterMap Ticket.holds
  spent := s.flight.filterMap Ticket.spends
  redeemed := s.resets

variable {L : WordList} {x : Crates} {u : Cases} {cfg : AuthConfig} {s s' : Sessions} {e : SessionEvent}

/-- A request that is not a recovery with a key is nothing to the vouchers. -/
def Plain (t : Ticket) : Prop := t.holds = none ∧ t.spends = none

/-- A plain request comes in, or goes on as one. -/
theorem vouchers_arrive {t : Except AppError Ticket} (ht : ∀ t' ∈ t.toOption.toList, Plain t') :
    (s.arrive t).vouchers = s.vouchers := by
  have hheld : t.toOption.toList.filterMap Ticket.holds = [] :=
    List.filterMap_eq_nil_iff.mpr fun t' ht' => (ht t' ht').1
  have hspent : t.toOption.toList.filterMap Ticket.spends = [] :=
    List.filterMap_eq_nil_iff.mpr fun t' ht' => (ht t' ht').2
  simp only [vouchers, arrive, List.filterMap_append, hheld, hspent, List.append_nil]

theorem vouchers_advance {t : Ticket} {next : Option Ticket} {a : Accounts} (ht : Plain t)
    (hnext : ∀ t' ∈ next.toList, Plain t') (ha : a.keys = s.accounts.keys) :
    (s.advance t next a).vouchers = s.vouchers := by
  have hheld : next.toList.filterMap Ticket.holds = [] :=
    List.filterMap_eq_nil_iff.mpr fun t' ht' => (hnext t' ht').1
  have hspent : next.toList.filterMap Ticket.spends = [] :=
    List.filterMap_eq_nil_iff.mpr fun t' ht' => (hnext t' ht').2
  simp only [vouchers, advance, List.filterMap_append, hheld, hspent, List.append_nil,
    Rotation.filterMap_erase ht.1, Rotation.filterMap_erase ht.2, ha]

/-- A recovery finds its key. -/
theorem step_find {t : Ticket} {now : ℤ} {user : Uuid} {k : RecoveryKey} {newHash : String}
    (ht : Plain t) (hk : k ∈ s.accounts.keys) (hunused : k.isUsed = false)
    (halone : ∀ t ∈ s.flight, t.holds ≠ some k.id ∧ t.spends ≠ some k.id) :
    Step s.vouchers (s.advance t (some (.found now user k.id newHash)) s.accounts).vouchers := by
  have hheld : k.id ∉ s.flight.filterMap Ticket.holds := fun hin => by
    obtain ⟨t', ht', hholds⟩ := List.mem_filterMap.mp hin
    exact (halone t' ht').1 hholds
  have hspent : k.id ∉ s.flight.filterMap Ticket.spends := fun hin => by
    obtain ⟨t', ht', hspends⟩ := List.mem_filterMap.mp hin
    exact (halone t' ht').2 hspends
  have heq : (s.advance t (some (.found now user k.id newHash)) s.accounts).vouchers =
      { s.vouchers with held := s.vouchers.held ++ [k.id] } := by
    simp only [vouchers, advance, List.filterMap_append, Rotation.filterMap_erase ht.1,
      Rotation.filterMap_erase ht.2]
    simp [Ticket.holds, Ticket.spends]
  have hrow : toVoucher k ∈ s.vouchers.rows := List.mem_map_of_mem hk
  exact heq ▸ .find hrow hunused hheld hspent List.perm_append_comm

/-- It resets the password. -/
theorem step_redeem {now : ℤ} {user : Uuid} {key newHash : String}
    (ht : .found now user key newHash ∈ s.flight) :
    Step s.vouchers (s.next x cfg (.found now user key newHash)).vouchers := by
  have hheld : (s.flight.filterMap Ticket.holds).Perm
      (key :: (s.flight.erase (.found now user key newHash)).filterMap Ticket.holds) :=
    Rotation.filterMap_perm ht
  have hspent : (s.flight.erase (.found now user key newHash)).filterMap Ticket.spends =
      s.flight.filterMap Ticket.spends := Rotation.filterMap_erase rfl
  have hstep := Step.redeem (s := s.vouchers) hheld
    (List.perm_append_comm : (s.vouchers.spent ++ [key]).Perm _)
  refine (congrArg (Step s.vouchers) ?_).mp hstep
  simp only [vouchers, next, advance, List.filterMap_append, hspent]
  simp [Ticket.holds, Ticket.spends, Accounts.setPassword]

/-- It marks its key. -/
theorem step_mark {user : Uuid} {key : String} (ht : .reset user key ∈ s.flight) :
    Step s.vouchers (s.next x cfg (.reset user key)).vouchers := by
  have hspent : (s.flight.filterMap Ticket.spends).Perm
      (key :: (s.flight.erase (.reset user key)).filterMap Ticket.spends) := Rotation.filterMap_perm ht
  have hheld : (s.flight.erase (.reset user key)).filterMap Ticket.holds =
      s.flight.filterMap Ticket.holds := Rotation.filterMap_erase rfl
  have hrows : (s.accounts.useKey key).keys.map toVoucher =
      mark key (s.accounts.keys.map toVoucher) := by
    rw [Accounts.useKey, mark, List.map_map, List.map_map]
    refine List.map_congr_left fun k _ => ?_
    rw [Function.comp_apply, Function.comp_apply, apply_ite toVoucher]
    rfl
  have hstep := Step.mark (s := s.vouchers) hspent
  refine (congrArg (Step s.vouchers) ?_).mp hstep
  simp only [vouchers, next, advance, List.filterMap_append, hheld, hrows]
  simp [Ticket.holds, Ticket.spends]

/-- A request is given up before it has reset a password. -/
theorem step_giveUp {t : Ticket} (ht : t.spends = none) :
    Step s.vouchers (s.advance t none s.accounts).vouchers := by
  have hheld : ((s.flight.erase t).filterMap Ticket.holds).Subperm s.vouchers.held :=
    (List.erase_sublist.filterMap _).subperm
  have hstep := Step.giveUp hheld
  refine (congrArg (Step s.vouchers) ?_).mp hstep
  simp only [vouchers, advance, Option.toList_none, List.append_nil, Rotation.filterMap_erase ht]

/-- A key is found unused. -/
theorem findKey_spec {salt : String} {user : Uuid} {hash newPassword key newHash : String} {a : Accounts}
    (h : findKey x salt user hash newPassword a = .ok (key, newHash)) :
    ∃ k ∈ a.keys, k.id = key ∧ k.isUsed = false := by
  unfold findKey at h
  split at h
  · cases h
  · rename_i k hk
    have hfound := List.find?_some hk
    simp only [Bool.and_eq_true, Bool.not_eq_true'] at hfound
    cases hhash : hashNewPassword x salt newPassword with
    | error e =>
      rw [hhash] at h
      cases h
    | ok newHash' =>
      rw [hhash] at h
      cases h
      exact ⟨k, List.mem_of_find?_eq_some hk, rfl, hfound.2⟩

/-- A request goes on with its next query. -/
theorem step_next_vouchers {t : Ticket} (ht : t ∈ s.flight) (he : Alone x s (.proceed t false)) :
    Step s.vouchers (s.next x cfg t).vouchers := by
  cases t with
  | read c claims row =>
    refine Step.of_eq (vouchers_advance ⟨rfl, rfl⟩ (fun t' ht' => ?_) rfl)
    rw [List.mem_singleton.mp ht']
    exact ⟨rfl, rfl⟩
  | rotated c claims row =>
    refine Step.of_eq ?_
    simp only [next]
    split <;> exact vouchers_advance ⟨rfl, rfl⟩ (fun t' ht' => by cases ht') rfl
  | changing now user newHash =>
    refine Step.of_eq (vouchers_advance ⟨rfl, rfl⟩ (fun t' ht' => ?_) rfl)
    rw [List.mem_singleton.mp ht']
    exact ⟨rfl, rfl⟩
  | located now salt user hash newPassword =>
    simp only [next]
    cases h : findKey x salt user hash newPassword s.accounts with
    | error e =>
      exact Step.of_eq (vouchers_advance ⟨rfl, rfl⟩ (fun t' ht' => by cases ht') rfl)
    | ok found =>
      obtain ⟨key, newHash⟩ := found
      obtain ⟨k, hk, rfl, hunused⟩ := findKey_spec h
      exact step_find ⟨rfl, rfl⟩ hk hunused (he k.id newHash h)
  | found now user key newHash => exact step_redeem ht
  | reset user key => exact step_mark ht
  | leaving user =>
    exact Step.of_eq (vouchers_advance (t := Ticket.leaving user) ⟨rfl, rfl⟩
      (fun t' ht' => by cases ht') rfl)

/-- The row of a generated phrase is new. -/
theorem generateRecoveryPhrase_row {now : ℤ} {id user : Uuid} {entropy : Bytes} {a : Accounts} :
    wp (generateRecoveryPhrase L x now id user entropy)
      (fun r a' => r = (generateBip39Phrase L x entropy, (newKey L x now id user entropy).id) ∧
        (newKey L x now id user entropy).id ∉ a.keys.map RecoveryKey.id ∧
        a' = { a with keys := a.keys ++ [newKey L x now id user entropy] })
      (fun _ _ => True) a := by
  simp only [generateRecoveryPhrase, wp_bind, wp_get, wp_ensure, wp_set, wp_pure, imp_true_iff, and_true,
    true_and, List.all_eq_true, decide_eq_true_eq, List.mem_map, not_exists, not_and]
  exact fun h k hk => h k hk

/-- A phrase that is generated leaves the users alone. -/
theorem users_generate {now : ℤ} {id user : Uuid} {entropy : Entropy} :
    (step L x u cfg s (.generate now id user entropy)).accounts.db.users = s.accounts.db.users := by
  simp only [step]
  split
  · rfl
  · rename_i phrase key a heq
    obtain ⟨-, -, rfl⟩ := generateRecoveryPhrase_row.of_eq heq
    rfl

/-- **A query is a step of the vouchers.** -/
theorem step_vouchers (he : Alone x s e) : Step s.vouchers (s.step L x u cfg e).vouchers := by
  cases e with
  | grant c user email expiresAt =>
    simp only [step]
    split <;> exact Step.refl _
  | refresh c token =>
    refine Step.of_eq (vouchers_arrive fun t' ht' => ?_)
    obtain ⟨r, rfl⟩ := mem_arrived ht'
    exact ⟨rfl, rfl⟩
  | logout token => exact Step.refl _
  | changePassword now salt user req =>
    refine Step.of_eq (vouchers_arrive fun t' ht' => ?_)
    obtain ⟨newHash, rfl⟩ := mem_arrived ht'
    exact ⟨rfl, rfl⟩
  | generate now id user entropy =>
    simp only [step]
    split
    · exact Step.refl _
    · rename_i phrase key a heq
      obtain ⟨hr, hnew, rfl⟩ := generateRecoveryPhrase_row.of_eq heq
      have hid : (newKey L x now id user entropy.1).id ∉ s.vouchers.rows.map Voucher.id := by
        rw [vouchers, List.map_map]
        exact hnew
      have hstep := Step.issue hid
      refine (congrArg (Step s.vouchers) ?_).mp hstep
      simp only [vouchers, List.map_append, List.map_singleton]
      rfl
  | recover now salt req =>
    refine Step.of_eq (vouchers_arrive fun t' ht' => ?_)
    obtain ⟨hash, hhash⟩ := mem_arrived_bind ht'
    obtain ⟨user, huser⟩ := mem_arrived_bind hhash
    rw [List.mem_singleton.mp huser]
    exact ⟨rfl, rfl⟩
  | proceed t fails =>
    simp only [step]
    split
    · exact Step.refl _
    · rename_i hflight
      split
      · rename_i hfails
        refine step_giveUp ?_
        cases t <;> first | rfl | exact absurd (he.symm.trans hfails) Bool.false_ne_true
      · rename_i hfails
        rw [Bool.not_eq_true] at hfails
        subst hfails
        exact step_next_vouchers (not_not.mp hflight) he
  | purge now => exact Step.refl _
  | users users pk => exact Step.refl _

/-! ## The phrases -/

/-- Every row of the first table is in the second, but may be used there. -/
def Grows (keys keys' : List RecoveryKey) : Prop :=
  ∀ k ∈ keys, ∃ k' ∈ keys', k'.id = k.id ∧ k'.userId = k.userId ∧ k'.recoveryHash = k.recoveryHash

theorem Grows.refl (keys : List RecoveryKey) : Grows keys keys := fun k hk => ⟨k, hk, rfl, rfl, rfl⟩

theorem grows_useKey (a : Accounts) (key : String) : Grows a.keys (a.useKey key).keys := fun k hk => by
  refine ⟨_, List.mem_map_of_mem hk, ?_⟩
  split <;> exact ⟨rfl, rfl, rfl⟩

/-- Every phrase that was generated is one, and is in the table with its hash. -/
def Kept (L : WordList) (x : Crates) (s : Sessions) : Prop :=
  ∀ g ∈ s.generated, (∃ entropy : Entropy, g.phrase = generateBip39Phrase L x entropy.1) ∧
    ∃ k ∈ s.accounts.keys, k.id = g.key ∧ k.userId = g.user ∧ k.recoveryHash = hashPhrase x g.phrase

theorem Kept.grows (h : Kept L x s) (hgenerated : s'.generated = s.generated)
    (hkeys : Grows s.accounts.keys s'.accounts.keys) : Kept L x s' := by
  intro g hg
  rw [hgenerated] at hg
  obtain ⟨hphrase, k, hk, hid, huser, hhash⟩ := h g hg
  obtain ⟨k', hk', hid', huser', hhash'⟩ := hkeys k hk
  exact ⟨hphrase, k', hk', hid'.trans hid, huser'.trans huser, hhash'.trans hhash⟩

theorem Kept.next (h : Kept L x s) (t : Ticket) : Kept L x (s.next x cfg t) := by
  cases t with
  | rotated c claims row =>
    simp only [Sessions.next]
    split <;> exact h.grows rfl (Grows.refl _)
  | reset user key => exact h.grows rfl (grows_useKey _ _)
  | read c claims row => exact h.grows rfl (Grows.refl _)
  | changing now user newHash => exact h.grows rfl (Grows.refl _)
  | located now salt user hash newPassword => exact h.grows rfl (Grows.refl _)
  | found now user key newHash => exact h.grows rfl (Grows.refl _)
  | leaving user => exact h.grows rfl (Grows.refl _)

/-- **No query loses a phrase.** -/
theorem Kept.step (h : Kept L x s) (e : SessionEvent) : Kept L x (s.step L x u cfg e) := by
  cases e with
  | generate now id user entropy =>
    simp only [Sessions.step]
    split
    · exact h
    · rename_i phrase key a heq
      obtain ⟨hr, -, rfl⟩ := generateRecoveryPhrase_row.of_eq heq
      obtain ⟨rfl, rfl⟩ := Prod.mk.inj hr
      intro g hg
      rcases List.mem_append.mp hg with hg | hg
      · obtain ⟨hphrase, k, hk, hkey⟩ := h g hg
        exact ⟨hphrase, k, List.mem_append_left _ hk, hkey⟩
      · rw [List.mem_singleton.mp hg]
        exact ⟨⟨entropy, rfl⟩, _, List.mem_append_right _ List.mem_cons_self, rfl, rfl, rfl⟩
  | grant c user email expiresAt =>
    simp only [Sessions.step]
    split <;> exact h.grows rfl (Grows.refl _)
  | proceed t fails =>
    simp only [Sessions.step]
    split
    · exact h
    · split
      · exact h.grows rfl (Grows.refl _)
      · exact h.next t
  | refresh c token => exact h.grows rfl (Grows.refl _)
  | logout token => exact h.grows rfl (Grows.refl _)
  | changePassword now salt user req => exact h.grows rfl (Grows.refl _)
  | recover now salt req => exact h.grows rfl (Grows.refl _)
  | purge now => exact h.grows rfl (Grows.refl _)
  | users users pk => exact h.grows rfl (Grows.refl _)

end Sessions

/-- A request submits a phrase with the right e-mail, and with a password that will do. -/
structure Submits (x : Crates) (u : Cases) (s : Sessions) (g : Generated) (req : VerifyRecoveryRequest) :
    Prop where
  email : (s.accounts.db.users.find? fun u => u.email = x.toLowercase (trim isWhiteSpace req.email)).map
    User.id = some g.user
  phrase : (req.recoveryPhrase <|> req.recoveryKey) = some g.phrase
  password : validatePassword u req.newPassword = .ok ()

/-- Every phrase that has not been consumed resets the password: a request that has got to the look-up
finds a key, and one that is submitted and runs through sets the new password.  And no phrase does so
twice. -/
structure Recovers (L : WordList) (x : Crates) (u : Cases) (s : Sessions) : Prop where
  finds : ∀ g ∈ s.generated, g.key ∉ s.resets → ∀ salt newPassword newHash,
    x.hashPassword salt newPassword = .ok newHash →
    ∃ key, findKey x salt g.user (hashPhrase x g.phrase) newPassword s.accounts = .ok (key, newHash)
  resets : ∀ g ∈ s.generated, g.key ∉ s.resets → ∀ now salt req newHash, Submits x u s g req →
    x.hashPassword salt req.newPassword = .ok newHash →
    ∃ a, verifyRecoveryPhrase L x u now salt req s.accounts = .ok () a ∧
      ∀ user ∈ a.db.users, user.id = g.user → user.passwordHash = newHash
  once : s.resets.Nodup

namespace Sessions

variable {L : WordList} {x : Crates} {u : Cases} {cfg : AuthConfig} {s : Sessions}

/-- A recovery that passes its checks waits to find its key. -/
theorem step_recover {now : ℤ} {salt : String} {req : VerifyRecoveryRequest} {hash : String}
    {user : Uuid} (hcheck : checkRecovery L x u req = .ok hash)
    (hfound : findRecovered x req s.accounts = .ok user) :
    step L x u cfg s (.recover now salt req) =
      s.arrive (.ok (.located now salt user hash req.newPassword)) := by
  simp only [step, hcheck, hfound]
  rfl

/-- A recovery runs through. -/
theorem verifyRecoveryPhrase_ok {now : ℤ} {salt : String} {req : VerifyRecoveryRequest} {a : Accounts}
    {hash key newHash : String} {user : Uuid} (hcheck : checkRecovery L x u req = .ok hash)
    (hfound : findRecovered x req a = .ok user)
    (hfind : findKey x salt user hash req.newPassword a = .ok (key, newHash)) :
    verifyRecoveryPhrase L x u now salt req a =
      .ok () (((a.setPassword user newHash now).useKey key).revokeAll user) := by
  refine ok_of_wp ?_
  simp only [verifyRecoveryPhrase, wp_bind, wp_ofExcept, wp_get, wp_modify, hcheck, hfound, hfind,
    Except.ok.injEq, reduceCtorEq, forall_eq', false_imp_iff, implies_true, and_self]

/-- A key that has not been redeemed is found, or another with its hash. -/
theorem findKey_of_kept (hkept : Kept L x s) (h : Sound s.vouchers) {g : Generated}
    (hg : g ∈ s.generated) (hkey : g.key ∉ s.resets) {salt newPassword newHash : String}
    (hhash : x.hashPassword salt newPassword = .ok newHash) :
    ∃ key, findKey x salt g.user (hashPhrase x g.phrase) newPassword s.accounts = .ok (key, newHash) := by
  obtain ⟨-, k, hk, hid, huser, hrecovery⟩ := hkept g hg
  have hunused : k.isUsed = false := 
    h.unused (r := toVoucher k) (List.mem_map_of_mem hk) fun hin =>
      hkey (hid ▸ (show k.id ∈ s.resets from hin))
  cases hfind : s.accounts.unusedKey g.user (hashPhrase x g.phrase) with
  | none =>
    have hmiss := List.find?_eq_none.mp hfind k hk
    simp [huser, hrecovery, hunused] at hmiss
  | some key =>
    refine ⟨key.id, ?_⟩
    rw [findKey, hfind, hashNewPassword, hhash]
    rfl

theorem recovers_of_sound (hlower : KeepsLowercase x) (hkept : Kept L x s) (h : Sound s.vouchers) :
    Recovers L x u s where
  finds g hg hkey salt newPassword newHash hhash := findKey_of_kept hkept h hg hkey hhash
  resets g hg hkey now salt req newHash hreq hhash := by
    obtain ⟨⟨entropy, hphrase⟩, -⟩ := hkept g hg
    obtain ⟨key, hfind⟩ := findKey_of_kept hkept h hg hkey hhash
    have hcheck : checkRecovery L x u req = .ok (hashPhrase x g.phrase) := by
      rw [hphrase]
      exact checkRecovery_phrase hlower entropy (hphrase ▸ hreq.phrase) hreq.password
    obtain ⟨user, huser, hid⟩ := Option.map_eq_some_iff.mp hreq.email
    have hfound : findRecovered x req s.accounts = .ok g.user := by
      rw [findRecovered, huser, ← hid]
    refine ⟨_, verifyRecoveryPhrase_ok hcheck hfound hfind, fun row hrow hrowid => ?_⟩
    obtain ⟨row, hrow, rfl⟩ := List.mem_map.mp hrow
    split at hrowid
    · rename_i hset
      rw [if_pos hset]
    · rename_i hset
      exact absurd hrowid hset
  once := h.once

theorem sound_vouchers_start (users : List User) (pk : (users.map User.id).Nodup) :
    Sound (start users pk).vouchers := by
  constructor <;> simp [start, vouchers]

/-- **The phrases recover** in a run in which each is looked up alone. -/
theorem recovers_of_run (hlower : KeepsLowercase x) {users : List User}
    {pk : (users.map User.id).Nodup} {es : List SessionEvent}
    (hes : Along (Alone x) (step L x u cfg) (start users pk) es) :
    Recovers L x u (run (step L x u cfg) (start users pk) es) := by
  have hinv := Along.invariant (P := fun s : Sessions => Sound s.vouchers ∧ Kept L x s)
    (fun s e h he => ⟨h.1.step (step_vouchers he), h.2.step e⟩)
    ⟨sound_vouchers_start users pk, fun g hg => by cases hg⟩ hes
  exact recovers_of_sound hlower hinv.2 hinv.1

end Sessions

end Pcos.Auth
