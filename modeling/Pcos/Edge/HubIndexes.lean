import Pcos.Edge.PairingHub
import Pcos.Foundations.KeyIndex

/-!
# Edge/HubIndexes — the two indexes of the pairing hub

The hub keeps its sessions under their ids and two indexes by hand.  `Hub.Indexed` says that the
indexes are exactly the codes and tokens of the sessions in memory; every request keeps it, as long
as a session comes with new keys, and so does the cleaning up before it.
-/

namespace Pcos.Edge

open Foundations

variable {C R : Type}

/-! ## Indexes -/

/-- The index holds the key of every session, under its id, and nothing else. -/
def Indexes (f : PairingSessionData C R → String) (idx : Dict String String)
    (sessions : Dict String (PairingSessionData C R)) : Prop :=
  ∀ k i, idx.get k = some i ↔ ∃ s, sessions.get i = some s ∧ f s = k

namespace Indexes

variable {f : PairingSessionData C R → String} {idx idx' : Dict String String}
  {sessions sessions' : Dict String (PairingSessionData C R)} {id : String}
  {s s' : PairingSessionData C R}

/-- Indexes over the same sessions find the same. -/
theorem get_congr (h : Indexes f idx sessions) (h' : Indexes f idx' sessions')
    (hs : ∀ i, sessions.get i = sessions'.get i) (k : String) : idx.get k = idx'.get k := by
  ext i
  rw [h k i, h' k i, hs i]

/-- Two sessions of one key are one. -/
theorem id_inj (h : Indexes f idx sessions) {i j : String} (hi : sessions.get i = some s)
    (hj : sessions.get j = some s') (hf : f s = f s') : i = j :=
  (Dict.Mirrors.eq_of_key h hi hj hf).1

theorem insert (h : Indexes f idx sessions) (hid : sessions.get id = none)
    (hf : ∀ i s₀, sessions.get i = some s₀ → f s₀ ≠ f s) :
    Indexes f (idx.set (f s) id) (sessions.set id s) := by
  refine Dict.Mirrors.set h fun i s₀ hs₀ => iff_of_false (hf i s₀ hs₀) ?_
  rintro rfl
  rw [hid] at hs₀
  cases hs₀

theorem update (h : Indexes f idx sessions) (hs : sessions.get id = some s) (hf : f s' = f s) :
    Indexes f idx (sessions.set id s') := by
  intro k i
  rw [h k i, Dict.get_set]
  by_cases hi : i = id
  · subst hi
    simp [hs, hf]
  · rw [if_neg hi]

theorem delete (h : Indexes f idx sessions) (hs : sessions.get id = some s) :
    Indexes f (idx.delete (f s)) (sessions.delete id) :=
  Dict.Mirrors.delete h hs

/-- The sessions that stay keep their entries. -/
theorem deleteAll (h : Indexes f idx sessions) {p : String × PairingSessionData C R → Bool}
    (hs' : ∀ i, sessions'.get i = (sessions.get i).filter fun s => !p (i, s)) :
    Indexes f (Dict.deleteAll p (fun e => f e.2) sessions.entries idx) sessions' := by
  intro k i
  rw [Dict.get_deleteAll]
  have hgone : (∃ e ∈ sessions.entries, p e ∧ f e.2 = k)
      ↔ ∃ j s, sessions.get j = some s ∧ p (j, s) ∧ f s = k := by
    simp [Prod.exists, Dict.mem_entries]
  split
  · rename_i hex
    obtain ⟨j, s, hj, hp, hfs⟩ := hgone.mp hex
    refine iff_of_false (by simp) ?_
    rintro ⟨s₀, hs₀, hfs₀⟩
    rw [hs', Option.filter_eq_some_iff] at hs₀
    obtain rfl := h.id_inj hs₀.1 hj (hfs₀.trans hfs.symm)
    obtain rfl : s₀ = s := Option.some.inj (hs₀.1.symm.trans hj)
    simp [hp] at hs₀
  · rename_i hex
    rw [h k i]
    refine exists_congr fun s₀ => and_congr_left fun hfs₀ => ?_
    rw [hs', Option.filter_eq_some_iff]
    constructor
    · intro hs₀
      refine ⟨hs₀, ?_⟩
      by_contra hp
      exact hex (hgone.mpr ⟨i, s₀, hs₀, by simpa using hp, hfs₀⟩)
    · exact And.left

/-- Setting the picked entries one after the other makes an index of them. -/
theorem setAll (h : Indexes f idx sessions) {stored : Dict String (PairingSessionData C R)}
    {p : String × PairingSessionData C R → Bool}
    (hs : ∀ i, sessions.get i = (stored.get i).filter fun s => p (i, s)) :
    Indexes f (Dict.setAll p (fun e => f e.2) (fun e => e.1) stored.entries .empty) sessions := by
  have hpicked : ∀ e, e ∈ stored.entries ∧ p e ↔ sessions.get e.1 = some e.2 := by
    intro e
    rw [hs, Option.filter_eq_some_iff, ← Dict.mem_entries]
  intro k i
  by_cases hex : ∃ e ∈ stored.entries, p e ∧ f e.2 = k
  · obtain ⟨e, he, hp, hfe⟩ := hex
    have hget := (hpicked e).mp ⟨he, hp⟩
    rw [Dict.get_setAll_of_mem (v := e.1) p _ _ _ ⟨e, he, hp, hfe⟩ fun e' he' hp' hfe' =>
      h.id_inj ((hpicked e').mp ⟨he', hp'⟩) hget (hfe'.trans hfe.symm)]
    constructor
    · rintro ⟨⟩
      exact ⟨e.2, hget, hfe⟩
    · rintro ⟨s₀, hs₀, hfs₀⟩
      rw [h.id_inj hget hs₀ (hfe.trans hfs₀.symm)]
  · rw [Dict.get_setAll_of_none p _ _ _ fun e he hp hfe => hex ⟨e, he, hp, hfe⟩]
    refine iff_of_false (by simp) ?_
    rintro ⟨s₀, hs₀, hfs₀⟩
    obtain ⟨he, hp⟩ := (hpicked (i, s₀)).mpr hs₀
    exact hex ⟨(i, s₀), he, hp, hfs₀⟩

end Indexes

namespace Hub

/-- The sessions are filed under their ids, and the indexes are theirs. -/
structure Indexed (h : Hub C R) : Prop where
  keyed : ∀ {i s}, h.sessions.get i = some s → s.id = i
  codes : Indexes PairingSessionData.pairingCode h.codeToId h.sessions
  tokens : Indexes PairingSessionData.enrollmentToken h.tokenToId h.sessions

theorem indexed_new : (new : Hub C R).Indexed where
  keyed h := by simp [new] at h
  codes k i := by simp [new]
  tokens k i := by simp [new]

/-! ## Cleaning up -/

/-- The sessions that have not expired. -/
def unexpired (now : ℤ) (h : Hub C R) (i : String) : Option (PairingSessionData C R) :=
  (h.sessions.get i).filter (·.unexpired now)

theorem filter_unexpired {now later : ℤ} (hle : now ≤ later)
    (s : Option (PairingSessionData C R)) :
    (s.filter (·.unexpired now)).filter (·.unexpired later) = s.filter (·.unexpired later) := by
  rw [Option.filter_filter]
  congr 1
  funext s
  rw [Bool.eq_iff_iff]
  simp only [PairingSessionData.unexpired, Bool.and_eq_true, decide_eq_true_eq]
  omega

theorem filter_some_of_lt {now : ℤ} {s : PairingSessionData C R} (h : now < s.expiresAt) :
    (some s).filter (·.unexpired now) = some s :=
  Option.filter_some_pos (p := fun s : PairingSessionData C R => s.unexpired now) (decide_eq_true h)

theorem filter_some_of_le {now : ℤ} {s : PairingSessionData C R} (h : s.expiresAt ≤ now) :
    (some s).filter (·.unexpired now) = none :=
  Option.filter_some_neg (p := fun s : PairingSessionData C R => s.unexpired now) (decide_eq_false (Int.not_lt.mpr h))

theorem cleanupExpired_eq (now : ℤ) (h : Hub C R) :
    h.cleanupExpired now =
      { h with
        sessions := .deleteAll (fun e => e.2.expiresAt ≤ now) Prod.fst h.sessions.entries h.sessions
        codeToId := .deleteAll (fun e => e.2.expiresAt ≤ now) (fun e => e.2.pairingCode)
          h.sessions.entries h.codeToId
        tokenToId := .deleteAll (fun e => e.2.expiresAt ≤ now) (fun e => e.2.enrollmentToken)
          h.sessions.entries h.tokenToId } := by
  suffices ∀ (es : List (String × PairingSessionData C R)) (g : Hub C R),
      es.foldl
        (fun h e =>
          if e.2.expiresAt ≤ now then
            { h with
              codeToId := h.codeToId.delete e.2.pairingCode
              tokenToId := h.tokenToId.delete e.2.enrollmentToken
              sessions := h.sessions.delete e.1 }
          else h) g
      = { g with
          sessions := .deleteAll (fun e => e.2.expiresAt ≤ now) Prod.fst es g.sessions
          codeToId := .deleteAll (fun e => e.2.expiresAt ≤ now) (fun e => e.2.pairingCode) es
            g.codeToId
          tokenToId := .deleteAll (fun e => e.2.expiresAt ≤ now) (fun e => e.2.enrollmentToken) es
            g.tokenToId } from this _ h
  intro es
  induction es with
  | nil => exact fun g => rfl
  | cons e es ih =>
    intro g
    rw [List.foldl_cons, ih]
    by_cases he : e.2.expiresAt ≤ now <;> simp [Dict.deleteAll, he]

theorem get_cleanupExpired (now : ℤ) (h : Hub C R) (i : String) :
    (h.cleanupExpired now).sessions.get i = h.unexpired now i := by
  rw [cleanupExpired_eq]
  simp only [Dict.get_deleteAll, unexpired]
  cases hs : h.sessions.get i with
  | none => simp
  | some s =>
    by_cases he : s.expiresAt ≤ now
    · rw [if_pos ⟨(i, s), Dict.mem_entries.mpr hs, decide_eq_true he, rfl⟩, filter_some_of_le he]
    · rw [if_neg, filter_some_of_lt (Int.not_le.mp he)]
      rintro ⟨⟨j, s'⟩, hs', hp, rfl⟩
      obtain rfl : s = s' := Option.some.inj (hs.symm.trans (Dict.mem_entries.mp hs'))
      exact he (of_decide_eq_true hp)

theorem Indexed.cleanupExpired {h : Hub C R} (hc : h.Indexed) (now : ℤ) :
    (h.cleanupExpired now).Indexed := by
  have hget := get_cleanupExpired now h
  have hfilter : ∀ i, (h.cleanupExpired now).sessions.get i
      = (h.sessions.get i).filter fun s => !decide (s.expiresAt ≤ now) := by
    intro i
    rw [hget, unexpired]
    congr 1
    funext s
    simp only [PairingSessionData.unexpired, ← decide_not, Int.not_le]
  constructor
  · intro i s hs
    rw [hget, unexpired, Option.filter_eq_some_iff] at hs
    exact hc.keyed hs.1
  · have := hc.codes.deleteAll (p := fun e => e.2.expiresAt ≤ now) hfilter
    rw [cleanupExpired_eq] at this ⊢
    exact this
  · have := hc.tokens.deleteAll (p := fun e => e.2.expiresAt ≤ now) hfilter
    rw [cleanupExpired_eq] at this ⊢
    exact this

/-! ## One request -/

theorem get_of_find {h : Hub C R} {key i : String} {s : PairingSessionData C R}
    (hf : h.find key = some (i, s)) : h.sessions.get i = some s := by
  obtain ⟨id, -, hmap⟩ := Option.bind_eq_some_iff.mp hf
  obtain ⟨s', hs', heq⟩ := Option.map_eq_some_iff.mp hmap
  obtain ⟨rfl, rfl⟩ := Prod.mk.inj heq
  exact hs'

/-- Objects with exact indexes and the same sessions find the same. -/
theorem find_congr {h g : Hub C R} (hh : h.Indexed) (hg : g.Indexed)
    (hs : ∀ i, h.sessions.get i = g.sessions.get i) (key : String) : h.find key = g.find key := by
  simp only [find, hh.codes.get_congr hg.codes hs key, hh.tokens.get_congr hg.tokens hs key, hs]

theorem Indexed.update {h : Hub C R} (hc : h.Indexed) {i : String}
    {s s' : PairingSessionData C R} (hs : h.sessions.get i = some s) (hid : s'.id = s.id)
    (hcode : s'.pairingCode = s.pairingCode) (htoken : s'.enrollmentToken = s.enrollmentToken) :
    (h.update i s').persist.Indexed := by
  refine ⟨?_, hc.codes.update hs hcode, hc.tokens.update hs htoken⟩
  intro j s₀ hj
  rw [Hub.persist, Hub.update, Dict.get_set] at hj
  split at hj
  · rename_i heq
    rw [← Option.some.inj hj, hid, hc.keyed hs, heq]
  · exact hc.keyed hj

theorem Indexed.drop {h : Hub C R} (hc : h.Indexed) {i : String}
    {s : PairingSessionData C R} (hs : h.sessions.get i = some s) :
    (h.drop i s).persist.Indexed := by
  refine ⟨?_, hc.codes.delete hs, hc.tokens.delete hs⟩
  intro j s₀ hj
  rw [Hub.persist, Hub.drop, Dict.get_delete] at hj
  split at hj
  · cases hj
  · exact hc.keyed hj

theorem Indexed.ipAttempts {h : Hub C R} (hc : h.Indexed)
    (ips : Dict String IpRecord) : { h with ipAttempts := ips }.Indexed :=
  ⟨hc.keyed, hc.codes, hc.tokens⟩

/-- The keys of a new session are not those of a session the object holds. -/
def NewKeys (h : Hub C R) : HubRequest C R → Prop
  | .create id _ code token _ => ∀ i s, h.sessions.get i = some s →
      s.id ≠ id ∧ s.pairingCode ≠ code ∧ s.enrollmentToken ≠ token
  | _ => True

theorem Indexed.create {h : Hub C R} (hc : h.Indexed)
    {id userId code token : String} {expiresAt : ℤ}
    (hnew : h.NewKeys (.create id userId code token expiresAt)) :
    (h.create now id userId code token expiresAt).1.Indexed := by
  have hid : h.sessions.get id = none := by
    by_contra hne
    obtain ⟨s, hs⟩ := Option.ne_none_iff_exists'.mp hne
    exact (hnew id s hs).1 (hc.keyed hs)
  let s : PairingSessionData C R :=
    ⟨id, userId, code, token, .pendingRedeem, 0, none, none, expiresAt, now⟩
  refine ⟨?_, hc.codes.insert (s := s) hid fun i s₀ hs => (hnew i s₀ hs).2.1,
    hc.tokens.insert (s := s) hid fun i s₀ hs => (hnew i s₀ hs).2.2⟩
  intro j s₀ hj
  rw [Hub.create, persist, Dict.get_set] at hj
  split at hj
  · rename_i heq
    rw [← Option.some.inj hj, heq]
  · exact hc.keyed hj

theorem Indexed.claim {h : Hub C R} (hc : h.Indexed) (ip key : String)
    (candidate : C) : (h.claim now ip key candidate).1.Indexed := by
  unfold Hub.claim
  split
  · exact hc
  split
  · unfold claimFailed
    dsimp only
    split
    · exact hc.ipAttempts _
    · exact hc.ipAttempts _
  · rename_i i s hfind
    have hs := get_of_find hfind
    dsimp only
    split
    · exact hc.ipAttempts _
    split
    · exact (hc.ipAttempts _).drop hs
    · exact (hc.ipAttempts _).update hs rfl rfl rfl

theorem Indexed.approve {h : Hub C R} (hc : h.Indexed) (key userId : String)
    (approved : Bool) (redeemResult : Option R) :
    (h.approve key userId approved redeemResult).1.Indexed := by
  unfold Hub.approve
  split
  · exact hc
  · rename_i i s hfind
    have hs := get_of_find hfind
    split
    · exact hc
    · cases approved with
      | true => exact hc.update hs rfl rfl rfl
      | false => exact hc.update hs rfl rfl rfl

theorem Indexed.consume {h : Hub C R} (hc : h.Indexed) (key : String) :
    (h.consume key).Indexed := by
  unfold Hub.consume
  split
  · exact hc
  · rename_i i s hfind
    exact hc.drop (get_of_find hfind)

/-! ## What a key finds -/

/-- A session is found under one of its keys. -/
theorem Indexed.named_of_find {h : Hub C R} (hc : h.Indexed) {key i : String}
    {s : PairingSessionData C R} (hf : h.find key = some (i, s)) :
    s.pairingCode = key ∨ s.enrollmentToken = key := by
  have hget := get_of_find hf
  obtain ⟨id, hid, hmap⟩ := Option.bind_eq_some_iff.mp hf
  obtain ⟨s', -, heq⟩ := Option.map_eq_some_iff.mp hmap
  obtain ⟨rfl, rfl⟩ := Prod.mk.inj heq
  rw [Option.orElse_eq_orElse, Option.orElse_eq_or, Option.or_eq_some_iff] at hid
  rcases hid with hcode | ⟨-, htoken⟩
  · obtain ⟨s₀, hs₀, hkey⟩ := (hc.codes key id).mp (Option.filter_eq_some_iff.mp hcode).1
    exact Or.inl (Option.some.inj (hget.symm.trans hs₀) ▸ hkey)
  · obtain ⟨s₀, hs₀, hkey⟩ := (hc.tokens key id).mp (Option.filter_eq_some_iff.mp htoken).1
    exact Or.inr (Option.some.inj (hget.symm.trans hs₀) ▸ hkey)

theorem Indexed.find_of_code {h : Hub C R} (hc : h.Indexed) {i : String}
    {s : PairingSessionData C R} (hget : h.sessions.get i = some s) (hi : i ≠ "") :
    h.find s.pairingCode = some (i, s) := by
  have hcode : h.codeToId.get s.pairingCode = some i := (hc.codes _ _).mpr ⟨s, hget, rfl⟩
  simp [find, truthy, hcode, Option.filter_some, hi, hget]

/-- A token finds its session where it is not the code of another. -/
theorem Indexed.find_of_token {h : Hub C R} (hc : h.Indexed) {i : String}
    {s : PairingSessionData C R} (hget : h.sessions.get i = some s) (hi : i ≠ "")
    (hno : ∀ j s', h.sessions.get j = some s' → s'.pairingCode ≠ s.enrollmentToken) :
    h.find s.enrollmentToken = some (i, s) := by
  have hcode : h.codeToId.get s.enrollmentToken = none := by
    by_contra hne
    obtain ⟨j, hj⟩ := Option.ne_none_iff_exists'.mp hne
    obtain ⟨s', hs', hkey⟩ := (hc.codes _ _).mp hj
    exact hno j s' hs' hkey
  have htoken : h.tokenToId.get s.enrollmentToken = some i := (hc.tokens _ _).mpr ⟨s, hget, rfl⟩
  simp [find, truthy, hcode, htoken, Option.filter_some, hi, hget]

/-! ## What a request does to the sessions -/

/-- A claim records its candidate in the session it finds, or changes nothing but the limiter and
what is dropped. -/
theorem claim_cases (now : ℤ) (h : Hub C R) (ip key : String) (candidate : C) :
    (∃ i s s', h.blockedFor now ip = none ∧ h.find key = some (i, s)
      ∧ s' = { s with candidateDevice := some candidate, status := .pendingApproval }
      ∧ (h.claim now ip key candidate).2 = .session s'
      ∧ (h.claim now ip key candidate).1.sessions = h.sessions.set i s')
    ∨ (∀ s', (h.claim now ip key candidate).2 ≠ .session s')
      ∧ ∀ i s, (h.claim now ip key candidate).1.sessions.get i = some s →
        h.sessions.get i = some s := by
  unfold Hub.claim
  split
  · exact Or.inr ⟨nofun, fun _ _ hs => hs⟩
  rename_i hfree
  split
  · unfold claimFailed
    dsimp only
    split
    · exact Or.inr ⟨nofun, fun _ _ hs => hs⟩
    · exact Or.inr ⟨nofun, fun _ _ hs => hs⟩
  · rename_i i s hfind
    dsimp only
    split
    · exact Or.inr ⟨nofun, fun _ _ hs => hs⟩
    split
    · refine Or.inr ⟨nofun, fun j s' hs' => ?_⟩
      rw [persist, drop, Dict.get_delete] at hs'
      split at hs'
      · cases hs'
      · exact hs'
    · exact Or.inl ⟨i, s, _, hfree, hfind, rfl, rfl, rfl⟩

/-- The owner's decision is written into the session that is found, or nothing changes. -/
theorem approve_cases (h : Hub C R) (key userId : String) (approved : Bool)
    (redeemResult : Option R) :
    (∃ i s s', h.find key = some (i, s) ∧ s.userId = userId
      ∧ s' = (if approved then { s with status := .approved, redeemResult := redeemResult }
        else { s with status := .rejected })
      ∧ (h.approve key userId approved redeemResult).2 = .session s'
      ∧ (h.approve key userId approved redeemResult).1.sessions = h.sessions.set i s')
    ∨ (∀ i s, h.find key = some (i, s) → s.userId ≠ userId)
      ∧ (∃ status message, (h.approve key userId approved redeemResult).2
        = .error status message none)
      ∧ (h.approve key userId approved redeemResult).1 = h := by
  unfold Hub.approve
  cases hfind : h.find key with
  | none => exact Or.inr ⟨nofun, ⟨_, _, rfl⟩, rfl⟩
  | some e =>
    obtain ⟨i, s⟩ := e
    by_cases howner : s.userId = userId
    · refine Or.inl ⟨i, s, _, rfl, howner, rfl, ?_⟩
      dsimp only
      rw [if_neg (not_not.mpr howner)]
      exact ⟨rfl, rfl⟩
    · refine Or.inr ⟨?_, ?_⟩
      · rintro j s' ⟨⟩
        exact howner
      · dsimp only
        rw [if_pos howner]
        exact ⟨⟨_, _, rfl⟩, rfl⟩

/-- What is consumed is gone; the other sessions stay. -/
theorem get_consume {h : Hub C R} {key i : String} {s : PairingSessionData C R}
    (hs : (h.consume key).sessions.get i = some s) :
    h.sessions.get i = some s ∧ ∀ j s', h.find key = some (j, s') → j ≠ i := by
  unfold Hub.consume at hs
  split at hs
  · rename_i hnone
    exact ⟨hs, fun j s' hf => by rw [hnone] at hf; cases hf⟩
  · rename_i j s₀ hfind
    rw [persist, drop, Dict.get_delete] at hs
    split at hs
    · cases hs
    · rename_i hne
      refine ⟨hs, fun j' s' hf => ?_⟩
      rw [hfind] at hf
      obtain ⟨rfl, rfl⟩ := Prod.mk.inj (Option.some.inj hf)
      exact fun heq => hne heq.symm

/-! ## A request with the cleaning up before it -/

theorem get_of_cleanupExpired {now : ℤ} {h : Hub C R} {i : String} {s : PairingSessionData C R}
    (hs : (h.cleanupExpired now).sessions.get i = some s) : h.sessions.get i = some s := by
  rw [get_cleanupExpired, unexpired, Option.filter_eq_some_iff] at hs
  exact hs.1

/-- What is found once the expired sessions are gone was there before. -/
theorem get_of_find_cleanupExpired {now : ℤ} {h : Hub C R} {key i : String}
    {s : PairingSessionData C R} (hf : (h.cleanupExpired now).find key = some (i, s)) :
    h.sessions.get i = some s :=
  get_of_cleanupExpired (get_of_find hf)

theorem get_fetch_create {now expiresAt : ℤ} {h : Hub C R} {id userId code token i : String}
    {s : PairingSessionData C R}
    (hs : (h.fetch now (.create id userId code token expiresAt)).1.sessions.get i = some s) :
    i = id ∧ s = ⟨id, userId, code, token, .pendingRedeem, 0, none, none, expiresAt, now⟩
      ∨ h.sessions.get i = some s := by
  change ((h.cleanupExpired now).sessions.set id _).get i = some s at hs
  rw [Dict.get_set] at hs
  split at hs
  · rename_i hi
    exact Or.inl ⟨hi, (Option.some.inj hs).symm⟩
  · exact Or.inr (get_of_cleanupExpired hs)

theorem get_fetch_claim {now : ℤ} {h : Hub C R} {cf fwd : Option String} {key i : String}
    {candidate : C} {s : PairingSessionData C R}
    (hs : (h.fetch now (.claim cf fwd key candidate)).1.sessions.get i = some s) :
    h.sessions.get i = some s
      ∨ ∃ s₀, (h.cleanupExpired now).blockedFor now (clientIp cf fwd) = none
        ∧ (h.cleanupExpired now).find key = some (i, s₀)
        ∧ s = { s₀ with candidateDevice := some candidate, status := .pendingApproval } := by
  obtain ⟨j, s₀, s', hfree, hfind, hs', -, hsessions⟩ | ⟨-, hold⟩ :=
    claim_cases now (h.cleanupExpired now) (clientIp cf fwd) key candidate
  · change (claim now _ _ key candidate).1.sessions.get i = some s at hs
    rw [hsessions, Dict.get_set] at hs
    split at hs
    · rename_i hi
      exact Or.inr ⟨s₀, hfree, hi ▸ hfind, (Option.some.inj hs).symm.trans hs'⟩
    · exact Or.inl (get_of_cleanupExpired hs)
  · exact Or.inl (get_of_cleanupExpired (hold i s hs))

/-- A claim that is answered with a session has recorded its candidate there. -/
theorem claimed_of_session {now : ℤ} {h : Hub C R} {cf fwd : Option String} {key : String}
    {candidate : C} {s : PairingSessionData C R}
    (hs : (h.fetch now (.claim cf fwd key candidate)).2 = .session s) :
    ∃ i s₀, (h.cleanupExpired now).blockedFor now (clientIp cf fwd) = none
      ∧ (h.cleanupExpired now).find key = some (i, s₀)
      ∧ s = { s₀ with candidateDevice := some candidate, status := .pendingApproval }
      ∧ (h.fetch now (.claim cf fwd key candidate)).1.sessions.get i = some s := by
  obtain ⟨i, s₀, s', hfree, hfind, hs', hanswer, hsessions⟩ | ⟨hnone, -⟩ :=
    claim_cases now (h.cleanupExpired now) (clientIp cf fwd) key candidate
  · obtain rfl : s' = s := HubResponse.session.inj (hanswer.symm.trans hs)
    refine ⟨i, s₀, hfree, hfind, hs', ?_⟩
    change (claim now _ _ key candidate).1.sessions.get i = _
    rw [hsessions, Dict.get_set, if_pos rfl]
  · exact absurd hs (hnone s)

theorem get_fetch_approve {now : ℤ} {h : Hub C R} {key userId i : String} {approved : Bool}
    {result : Option R} {s : PairingSessionData C R}
    (hs : (h.fetch now (.approve key userId approved result)).1.sessions.get i = some s) :
    ((h.cleanupExpired now).sessions.get i = some s
        ∧ ∀ s₀, (h.cleanupExpired now).find key = some (i, s₀) → s₀.userId ≠ userId)
      ∨ ∃ s₀, (h.cleanupExpired now).find key = some (i, s₀) ∧ s₀.userId = userId
        ∧ s = if approved then { s₀ with status := .approved, redeemResult := result }
          else { s₀ with status := .rejected } := by
  change ((h.cleanupExpired now).approve key userId approved result).1.sessions.get i = some s at hs
  obtain ⟨j, s₀, s', hfind, huser, hs', -, hsessions⟩ | ⟨hother, -, heq⟩ :=
    approve_cases (h.cleanupExpired now) key userId approved result
  · rw [hsessions, Dict.get_set] at hs
    split at hs
    · rename_i hi
      exact Or.inr ⟨s₀, hi ▸ hfind, huser, (Option.some.inj hs).symm.trans hs'⟩
    · rename_i hi
      refine Or.inl ⟨hs, fun s₁ hfind₁ => ?_⟩
      exact absurd (Prod.mk.inj (Option.some.inj (hfind.symm.trans hfind₁))).1.symm hi
  · rw [heq] at hs
    exact Or.inl ⟨hs, fun s₀ hfind => hother i s₀ hfind⟩

/-- An owner's decision is answered with a session where there is one that is theirs. -/
theorem ok_fetch_approve {now : ℤ} {h : Hub C R} {key userId i : String}
    {s : PairingSessionData C R} (approved : Bool) (result : Option R)
    (hfind : (h.cleanupExpired now).find key = some (i, s)) (huser : s.userId = userId) :
    ∃ s', (h.fetch now (.approve key userId approved result)).2 = .session s' := by
  obtain ⟨j, s₀, s', -, -, -, hanswer, -⟩ | ⟨hother, -, -⟩ :=
    approve_cases (h.cleanupExpired now) key userId approved result
  · exact ⟨s', hanswer⟩
  · exact absurd huser (hother i s hfind)

theorem get_fetch_consume {now : ℤ} {h : Hub C R} {key i : String} {s : PairingSessionData C R}
    (hs : (h.fetch now (.consume key)).1.sessions.get i = some s) :
    (h.cleanupExpired now).sessions.get i = some s
      ∧ ∀ j s', (h.cleanupExpired now).find key = some (j, s') → j ≠ i :=
  get_consume (h := h.cleanupExpired now) hs

/-- A claim that is turned away changes no session. -/
theorem get_of_turnedAway {now : ℤ} {h : Hub C R} {cf fwd : Option String} {key i : String}
    {candidate : C} {s : PairingSessionData C R}
    (hno : ∀ s', (h.fetch now (.claim cf fwd key candidate)).2 ≠ .session s')
    (hs : (h.fetch now (.claim cf fwd key candidate)).1.sessions.get i = some s) :
    h.sessions.get i = some s := by
  obtain ⟨-, -, s', -, -, -, hanswer, -⟩ | ⟨-, hold⟩ :=
    claim_cases now (h.cleanupExpired now) (clientIp cf fwd) key candidate
  · exact absurd hanswer (hno s')
  · exact get_of_cleanupExpired (hold i s hs)

/-- Every request leaves the indexes exact. -/
theorem Indexed.serve {h : Hub C R} (hc : h.Indexed) (now : ℤ) (req : HubRequest C R)
    (hnew : h.NewKeys req) : (h.serve now req).1.Indexed := by
  cases req with
  | create id userId code token expiresAt => exact hc.create hnew
  | claim cf fwd key candidate => exact hc.claim _ key candidate
  | approve key userId approved redeemResult => exact hc.approve key userId approved redeemResult
  | status key => exact hc
  | consume key => exact hc.consume key

theorem Indexed.fetch {h : Hub C R} (hc : h.Indexed) (now : ℤ) (req : HubRequest C R)
    (hnew : (h.cleanupExpired now).NewKeys req) : (h.fetch now req).1.Indexed :=
  (hc.cleanupExpired now).serve now req hnew

end Hub

end Pcos.Edge
