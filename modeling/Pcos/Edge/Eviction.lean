import Pcos.Edge.HubIndexes

/-!
# Edge/Eviction — the pairing hub and its rebuilt copy answer alike

`Coherent` is what every request keeps: the indexes are exact, and storage and memory agree on the
unexpired sessions.  Two coherent objects with the same unexpired sessions then look the same to the
next request (`serve_congr`), and the object that the constructor builds is one of them.
-/

namespace Pcos.Edge

open Foundations

variable {C R : Type}

/-! ## Requests and evictions

An object lives through requests and through evictions, each at its time.  Rate limiting set aside,
an eviction keeps the failed claims; the constructor itself forgets them. -/

inductive HubEvent (C R : Type)
  | request (now : ℤ) (req : HubRequest C R)
  | evict (now : ℤ) (keepLimiter : Bool)
deriving DecidableEq

namespace HubEvent

def now : HubEvent C R → ℤ
  | .request now _ => now
  | .evict now _ => now

def keepsLimiter : HubEvent C R → Bool
  | .request _ _ => true
  | .evict _ keep => keep

def isRequest : HubEvent C R → Bool
  | .request _ _ => true
  | .evict _ _ => false

end HubEvent

/-- The same requests, no eviction between them. -/
def requests (es : List (HubEvent C R)) : List (HubEvent C R) := es.filter (·.isRequest)

theorem requests_request (now : ℤ) (req : HubRequest C R) (es : List (HubEvent C R)) :
    requests (.request now req :: es) = .request now req :: requests es := rfl

theorem requests_evict (now : ℤ) (keep : Bool) (es : List (HubEvent C R)) :
    requests (.evict now keep :: es) = requests es := rfl

/-- The events come at increasing times. -/
def Timed : ℤ → List (HubEvent C R) → Prop
  | _, [] => True
  | t, e :: es => t ≤ e.now ∧ Timed e.now es

instance Timed.decidable : ∀ (t : ℤ) (es : List (HubEvent C R)), Decidable (Timed t es)
  | _, [] => isTrue trivial
  | _, e :: es => @instDecidableAnd _ _ _ (Timed.decidable e.now es)

namespace Hub

def step (h : Hub C R) : HubEvent C R → Hub C R
  | .request now req => (h.fetch now req).1
  | .evict now keepLimiter =>
    if keepLimiter then { h.rebuild now with ipAttempts := h.ipAttempts } else h.rebuild now

/-- The responses, in order. -/
def answers : Hub C R → List (HubEvent C R) → List (HubResponse C R)
  | _, [] => []
  | h, .request now req :: es => (h.fetch now req).2 :: answers (h.fetch now req).1 es
  | h, .evict now keep :: es => answers (h.step (.evict now keep)) es

/-- A session comes with an id, a code and a token that no unexpired session has. -/
def DistinctKeys (h : Hub C R) : HubEvent C R → Prop
  | .request now (.create id _ code token _) => ∀ e ∈ h.sessions.entries, now < e.2.expiresAt →
      e.2.id ≠ id ∧ e.2.pairingCode ≠ code ∧ e.2.enrollmentToken ≠ token
  | _ => True

instance (h : Hub C R) : ∀ e, Decidable (h.DistinctKeys e)
  | .request now (.create id _ code token _) => inferInstanceAs <| Decidable <|
      ∀ e ∈ h.sessions.entries, now < e.2.expiresAt →
        e.2.id ≠ id ∧ e.2.pairingCode ≠ code ∧ e.2.enrollmentToken ≠ token
  | .request _ (.claim _ _ _ _) => inferInstanceAs (Decidable True)
  | .request _ (.approve _ _ _ _) => inferInstanceAs (Decidable True)
  | .request _ (.status _) => inferInstanceAs (Decidable True)
  | .request _ (.consume _) => inferInstanceAs (Decidable True)
  | .evict _ _ => inferInstanceAs (Decidable True)

/-- Only sessions that are unexpired together differ in id, code and token. -/
def DistinctWhileUnexpired (h : Hub C R) : HubEvent C R → Prop
  | .request now (.create id userId code token expiresAt) => now < expiresAt →
      h.DistinctKeys (.request now (.create id userId code token expiresAt))
  | _ => True

instance (h : Hub C R) : ∀ e, Decidable (h.DistinctWhileUnexpired e)
  | .request now (.create id userId code token expiresAt) => inferInstanceAs <| Decidable <|
      now < expiresAt → h.DistinctKeys (.request now (.create id userId code token expiresAt))
  | .request _ (.claim _ _ _ _) => inferInstanceAs (Decidable True)
  | .request _ (.approve _ _ _ _) => inferInstanceAs (Decidable True)
  | .request _ (.status _) => inferInstanceAs (Decidable True)
  | .request _ (.consume _) => inferInstanceAs (Decidable True)
  | .evict _ _ => inferInstanceAs (Decidable True)

end Hub

/-- Restricted to the unexpired sessions, the index is their keys. -/
def LiveIndex (f : PairingSessionData C R → String) (now : ℤ) (idx : Dict String String)
    (sessions : Dict String (PairingSessionData C R)) : Prop :=
  ∀ k i, (idx.get k = some i ∧ ∃ s, sessions.get i = some s ∧ s.unexpired now)
    ↔ ∃ s, sessions.get i = some s ∧ s.unexpired now ∧ f s = k

/-! ## What every request keeps -/

namespace Hub

/-- The indexes are exact, and memory and storage agree on the unexpired sessions. -/
structure Coherent (now : ℤ) (h : Hub C R) : Prop where
  indexed : h.Indexed
  stored : ∀ i, (h.stored.get i).filter (·.unexpired now)
    = (h.sessions.get i).filter (·.unexpired now)

theorem coherent_new (now : ℤ) : (new : Hub C R).Coherent now := ⟨indexed_new, fun _ => rfl⟩

theorem Coherent.mono {now later : ℤ} (hle : now ≤ later) {h : Hub C R} (hc : h.Coherent now) :
    h.Coherent later where
  indexed := hc.indexed
  stored i := by rw [← filter_unexpired hle, hc.stored, filter_unexpired hle]

theorem Coherent.cleanupExpired {now : ℤ} {h : Hub C R} (hc : h.Coherent now) :
    (h.cleanupExpired now).Coherent now where
  indexed := hc.indexed.cleanupExpired now
  stored i := by
    rw [get_cleanupExpired, unexpired, filter_unexpired (Int.le_refl _), ← hc.stored,
      cleanupExpired_eq]

theorem Coherent.ipAttempts {now : ℤ} {h : Hub C R} (hc : h.Coherent now)
    (ips : Dict String IpRecord) : { h with ipAttempts := ips }.Coherent now :=
  ⟨hc.indexed.ipAttempts ips, hc.stored⟩

/-- A request writes all sessions to storage, or changes none. -/
theorem serve_stored (now : ℤ) (h : Hub C R) (req : HubRequest C R) :
    (h.serve now req).1.stored = (h.serve now req).1.sessions
      ∨ (h.serve now req).1.stored = h.stored ∧ (h.serve now req).1.sessions = h.sessions := by
  cases req with
  | create id userId code token expiresAt => exact Or.inl rfl
  | claim cf fwd key candidate =>
    simp only [serve, Hub.claim]
    split
    · exact Or.inr ⟨rfl, rfl⟩
    split
    · unfold claimFailed
      dsimp only
      split
      · exact Or.inr ⟨rfl, rfl⟩
      · exact Or.inr ⟨rfl, rfl⟩
    · split
      · exact Or.inr ⟨rfl, rfl⟩
      split
      · exact Or.inl rfl
      · exact Or.inl rfl
  | approve key userId approved redeemResult =>
    simp only [serve, Hub.approve]
    split
    · exact Or.inr ⟨rfl, rfl⟩
    split
    · exact Or.inr ⟨rfl, rfl⟩
    · exact Or.inl rfl
  | status key => exact Or.inr ⟨rfl, rfl⟩
  | consume key =>
    simp only [serve, Hub.consume]
    split
    · exact Or.inr ⟨rfl, rfl⟩
    · exact Or.inl rfl

/-- Every request leaves the object coherent. -/
theorem Coherent.serve {now : ℤ} {h : Hub C R} (hc : h.Coherent now) {req : HubRequest C R}
    (hnew : h.NewKeys req) : (h.serve now req).1.Coherent now where
  indexed := hc.indexed.serve now req hnew
  stored i := by
    rcases serve_stored now h req with heq | ⟨hstored, hsessions⟩
    · rw [heq]
    · rw [hstored, hsessions, hc.stored]

/-! ### The object that storage gives back -/

theorem rebuild_eq (now : ℤ) (h : Hub C R) :
    h.rebuild now =
      { sessions := .setAll (fun e => e.2.unexpired now) Prod.fst Prod.snd h.stored.entries .empty
        codeToId := .setAll (fun e => e.2.unexpired now) (fun e => e.2.pairingCode) (fun e => e.1)
          h.stored.entries .empty
        tokenToId := .setAll (fun e => e.2.unexpired now) (fun e => e.2.enrollmentToken)
          (fun e => e.1) h.stored.entries .empty
        ipAttempts := .empty
        stored := h.stored } := by
  suffices ∀ (es : List (String × PairingSessionData C R)) (g : Hub C R),
      es.foldl
        (fun h e =>
          if e.2.unexpired now then
            { h with
              sessions := h.sessions.set e.1 e.2
              codeToId := h.codeToId.set e.2.pairingCode e.1
              tokenToId := h.tokenToId.set e.2.enrollmentToken e.1 }
          else h) g
      = { g with
          sessions := .setAll (fun e => e.2.unexpired now) Prod.fst Prod.snd es g.sessions
          codeToId := .setAll (fun e => e.2.unexpired now) (fun e => e.2.pairingCode)
            (fun e => e.1) es g.codeToId
          tokenToId := .setAll (fun e => e.2.unexpired now) (fun e => e.2.enrollmentToken)
            (fun e => e.1) es g.tokenToId } from this _ _
  intro es
  induction es with
  | nil => exact fun g => rfl
  | cons e es ih =>
    intro g
    rw [List.foldl_cons, ih]
    by_cases he : e.2.unexpired now = true <;> simp [Dict.setAll, he]

theorem get_rebuild (now : ℤ) (h : Hub C R) (i : String) :
    (h.rebuild now).sessions.get i = (h.stored.get i).filter (·.unexpired now) := by
  rw [rebuild_eq]
  dsimp only
  cases hs : h.stored.get i with
  | none =>
    refine Dict.get_setAll_of_none _ _ _ _ ?_
    rintro ⟨j, s⟩ he - rfl
    rw [Dict.mem_entries, hs] at he
    cases he
  | some s =>
    have hentry : ∀ e ∈ h.stored.entries, e.1 = i → e.2 = s := by
      rintro ⟨j, s'⟩ he rfl
      exact Option.some.inj ((Dict.mem_entries.mp he).symm.trans hs)
    by_cases hu : now < s.expiresAt
    · rw [Dict.get_setAll_of_mem (v := s) _ _ _ _
        ⟨(i, s), Dict.mem_entries.mpr hs, decide_eq_true hu, rfl⟩ fun e he _ hi => hentry e he hi,
        filter_some_of_lt hu]
    · rw [Dict.get_setAll_of_none, filter_some_of_le (Int.not_lt.mp hu)]
      · rfl
      · intro e he hp hi
        rw [hentry e he hi] at hp
        exact hu (of_decide_eq_true hp)

/-- The rebuilt object holds the unexpired sessions of the one destroyed. -/
theorem Coherent.get_rebuild {now : ℤ} {h : Hub C R} (hc : h.Coherent now) (i : String) :
    (h.rebuild now).sessions.get i = h.unexpired now i := by
  rw [Hub.get_rebuild, hc.stored, unexpired]

theorem Coherent.rebuild {now : ℤ} {h : Hub C R} (hc : h.Coherent now) :
    (h.rebuild now).Coherent now := by
  have hget := hc.get_rebuild
  have hclean := hc.indexed.cleanupExpired now
  have hsame : ∀ i, (h.cleanupExpired now).sessions.get i
      = (h.stored.get i).filter fun s => s.unexpired now := by
    intro i
    rw [get_cleanupExpired, unexpired, hc.stored]
  refine ⟨⟨?_, ?_, ?_⟩, ?_⟩
  · intro i s hs
    rw [hget, unexpired, Option.filter_eq_some_iff] at hs
    exact hc.indexed.keyed hs.1
  · intro k i
    have := hclean.codes.setAll (p := fun e => e.2.unexpired now) hsame k i
    simp only [get_cleanupExpired, ← hget] at this
    rw [rebuild_eq] at this ⊢
    exact this
  · intro k i
    have := hclean.tokens.setAll (p := fun e => e.2.unexpired now) hsame k i
    simp only [get_cleanupExpired, ← hget] at this
    rw [rebuild_eq] at this ⊢
    exact this
  · intro i
    rw [Hub.get_rebuild, filter_unexpired (Int.le_refl _), rebuild_eq]

/-! ### The same request to two objects -/

/-- The two objects turn away the same addresses, or neither turns this request away. -/
def Limited (now : ℤ) (h g : Hub C R) (req : HubRequest C R) : Prop :=
  h.ipAttempts = g.ipAttempts
    ∨ (h.serve now req).2.limited = false ∧ (g.serve now req).2.limited = false

/-- The same response, and objects that the next request cannot tell apart; where `limiter` holds,
they turn away the same addresses too. -/
structure Alike (limiter : Prop) (x y : Hub C R × HubResponse C R) : Prop where
  response : x.2 = y.2
  sessions : ∀ i, x.1.sessions.get i = y.1.sessions.get i
  ipAttempts : limiter → x.1.ipAttempts = y.1.ipAttempts

theorem claim_congr {now : ℤ} {h g : Hub C R} (hh : h.Coherent now) (hg : g.Coherent now)
    (hs : ∀ i, h.sessions.get i = g.sessions.get i) {ip key : String} {candidate : C}
    (hip : h.ipAttempts = g.ipAttempts ∨ (h.claim now ip key candidate).2.limited = false
      ∧ (g.claim now ip key candidate).2.limited = false) :
    Alike (h.ipAttempts = g.ipAttempts) (h.claim now ip key candidate)
      (g.claim now ip key candidate) := by
  have hblocked : h.blockedFor now ip = g.blockedFor now ip := by
    rcases hip with hip | ⟨hh', hg'⟩
    · simp only [blockedFor, hip]
    · have hopen : ∀ {k : Hub C R}, (k.claim now ip key candidate).2.limited = false →
          k.blockedFor now ip = none := by
        intro k hk
        unfold Hub.claim at hk
        split at hk
        · simp [HubResponse.limited] at hk
        · assumption
      rw [hopen hh', hopen hg']
  have hfind := find_congr hh.indexed hg.indexed hs key
  unfold Hub.claim at hip ⊢
  rw [hblocked, hfind] at hip
  rw [hblocked, hfind]
  cases hb : g.blockedFor now ip with
  | some retryAfter => exact ⟨rfl, hs, id⟩
  | none =>
    rw [hb] at hip
    cases hf : g.find key with
    | none =>
      rw [hf] at hip
      dsimp only at hip ⊢
      unfold claimFailed at hip ⊢
      dsimp only at hip ⊢
      rcases hip with hip | ⟨hh', hg'⟩
      · have hcount : h.failedClaims now ip = g.failedClaims now ip := by
          simp only [failedClaims, hip]
        rw [hcount, hip]
        split
        · exact ⟨rfl, hs, fun _ => rfl⟩
        · exact ⟨rfl, hs, fun _ => rfl⟩
      · split at hh'
        · simp [HubResponse.limited] at hh'
        split at hg'
        · simp [HubResponse.limited] at hg'
        rename_i hlow hlow'
        rw [if_neg hlow, if_neg hlow']
        refine ⟨rfl, hs, fun hip => ?_⟩
        simp only [failedClaims, hip]
    | some e =>
      obtain ⟨i, s⟩ := e
      have hcleared : h.ipAttempts = g.ipAttempts →
          h.ipAttempts.delete ip = g.ipAttempts.delete ip := congrArg (Dict.delete · ip)
      dsimp only
      split
      · exact ⟨rfl, hs, hcleared⟩
      split
      · exact ⟨rfl, fun j => by simp [Hub.persist, Hub.drop, hs], hcleared⟩
      · exact ⟨rfl, fun j => by simp [Hub.persist, Hub.update, hs], hcleared⟩

/-- **Coherent objects with the same sessions answer alike**, and still hold the same. -/
theorem serve_congr {now : ℤ} {h g : Hub C R} (hh : h.Coherent now) (hg : g.Coherent now)
    (hs : ∀ i, h.sessions.get i = g.sessions.get i) (req : HubRequest C R)
    (hip : Limited now h g req) :
    Alike (h.ipAttempts = g.ipAttempts) (h.serve now req) (g.serve now req) := by
  cases req with
  | create id userId code token expiresAt =>
    exact ⟨rfl, fun j => by simp [serve, Hub.create, Hub.persist, hs], fun hip => hip⟩
  | claim cf fwd key candidate => exact claim_congr hh hg hs hip
  | approve key userId approved redeemResult =>
    simp only [serve, Hub.approve, find_congr hh.indexed hg.indexed hs key]
    cases g.find key with
    | none => exact ⟨rfl, hs, id⟩
    | some e =>
      obtain ⟨i, s⟩ := e
      dsimp only
      split
      · exact ⟨rfl, hs, id⟩
      · exact ⟨rfl, fun j => by simp [Hub.persist, Hub.update, hs], id⟩
  | status key =>
    refine ⟨?_, hs, fun hip => hip⟩
    simp only [serve, Hub.status, find_congr hh.indexed hg.indexed hs key]
  | consume key =>
    simp only [serve, Hub.consume, find_congr hh.indexed hg.indexed hs key]
    cases g.find key with
    | none => exact ⟨rfl, hs, id⟩
    | some e => exact ⟨rfl, fun j => by simp [Hub.persist, Hub.drop, hs], id⟩

/-! ## Requests and evictions -/

theorem newKeys_cleanupExpired {now : ℤ} {h : Hub C R} {req : HubRequest C R}
    (hd : h.DistinctKeys (.request now req)) : (h.cleanupExpired now).NewKeys req := by
  cases req with
  | create id userId code token expiresAt =>
    intro i s hs
    rw [get_cleanupExpired, unexpired, Option.filter_eq_some_iff] at hs
    exact hd (i, s) (Dict.mem_entries.mpr hs.1) (of_decide_eq_true hs.2)
  | _ => trivial

theorem NewKeys.congr {h g : Hub C R} {req : HubRequest C R}
    (hs : ∀ i, h.sessions.get i = g.sessions.get i) (hnew : h.NewKeys req) : g.NewKeys req := by
  cases req with
  | create id userId code token expiresAt => exact fun i s hi => hnew i s ((hs i).trans hi)
  | _ => trivial

theorem Coherent.step {t : ℤ} {h : Hub C R} (hc : h.Coherent t) {e : HubEvent C R}
    (ht : t ≤ e.now) (hd : h.DistinctKeys e) : (h.step e).Coherent e.now := by
  cases e with
  | request now req => exact (hc.mono ht).cleanupExpired.serve (newKeys_cleanupExpired hd)
  | evict now keep =>
    have hrebuilt := (hc.mono ht).rebuild
    unfold Hub.step
    cases keep with
    | true => exact hrebuilt.ipAttempts _
    | false => exact hrebuilt

/-- Evicted or not, the indexes hold the codes and the tokens of the sessions. -/
theorem Coherent.run {t : ℤ} {h : Hub C R} (hc : h.Coherent t) {es : List (HubEvent C R)}
    (htimes : Timed t es) (hd : Along Hub.DistinctKeys Hub.step h es) :
    ∃ later, (Foundations.run Hub.step h es).Coherent later := by
  induction es generalizing h t with
  | nil => exact ⟨t, hc⟩
  | cons e es ih => exact ih (hc.step htimes.1 hd.1) htimes.2 hd.2

theorem Coherent.liveIndexes {t : ℤ} {h : Hub C R} (hc : h.Coherent t) (later : ℤ) :
    LiveIndex PairingSessionData.pairingCode later h.codeToId h.sessions
      ∧ LiveIndex PairingSessionData.enrollmentToken later h.tokenToId h.sessions := by
  have hlive : ∀ {f : PairingSessionData C R → String} {idx : Dict String String},
      Indexes f idx h.sessions → LiveIndex f later idx h.sessions := by
    intro f idx hidx k i
    rw [hidx k i]
    constructor
    · rintro ⟨⟨s, hs, hf⟩, s', hs', hu⟩
      obtain rfl : s = s' := Option.some.inj (hs.symm.trans hs')
      exact ⟨s, hs, hu, hf⟩
    · rintro ⟨s, hs, hu, hf⟩
      exact ⟨⟨s, hs, hf⟩, s, hs, hu⟩
  exact ⟨hlive hc.indexed.codes, hlive hc.indexed.tokens⟩

theorem unexpired_congr {t now : ℤ} (hle : t ≤ now) {h g : Hub C R}
    (hs : ∀ i, h.unexpired t i = g.unexpired t i) (i : String) :
    h.unexpired now i = g.unexpired now i := by
  have := congrArg (Option.filter (·.unexpired now)) (hs i)
  rwa [unexpired, unexpired, filter_unexpired hle, filter_unexpired hle] at this

/-- Coherent objects with the same unexpired sessions answer the same requests alike, however
often the first is destroyed in between. -/
theorem answers_congr {t : ℤ} {h g : Hub C R} (hh : h.Coherent t) (hg : g.Coherent t)
    (hs : ∀ i, h.unexpired t i = g.unexpired t i) {es : List (HubEvent C R)} (htimes : Timed t es)
    (hd : Along Hub.DistinctKeys Hub.step h es)
    (hlimiter : (∀ e ∈ es, e.keepsLimiter) ∧ h.ipAttempts = g.ipAttempts
      ∨ (∀ r ∈ h.answers es, r.limited = false)
        ∧ ∀ r ∈ g.answers (requests es), r.limited = false) :
    h.answers es = g.answers (requests es) := by
  induction es generalizing h g t with
  | nil => rfl
  | cons e es ih =>
    obtain ⟨hnow, htimes⟩ := htimes
    obtain ⟨hd, hds⟩ := hd
    have hsnow := unexpired_congr hnow hs
    cases e with
    | request now req =>
      rw [requests_request] at hlimiter ⊢
      rw [Hub.answers, Hub.answers] at hlimiter ⊢
      have hh' := (hh.mono hnow).cleanupExpired
      have hg' := (hg.mono hnow).cleanupExpired
      have hsame : ∀ i, (h.cleanupExpired now).sessions.get i
          = (g.cleanupExpired now).sessions.get i := fun i => by
        rw [get_cleanupExpired, get_cleanupExpired]
        exact hsnow i
      have hnew := newKeys_cleanupExpired hd
      have hips : (h.cleanupExpired now).ipAttempts = (g.cleanupExpired now).ipAttempts
          ↔ h.ipAttempts = g.ipAttempts := by rw [cleanupExpired_eq, cleanupExpired_eq]
      have halike := serve_congr hh' hg' hsame req <| hlimiter.imp
        (fun hl => hips.mpr hl.2)
        fun hl => ⟨hl.1 _ List.mem_cons_self, hl.2 _ List.mem_cons_self⟩
      refine congrArg₂ List.cons halike.response ?_
      refine ih (hh'.serve hnew) (hg'.serve (hnew.congr hsame))
        (fun i => congrArg _ (halike.sessions i)) htimes hds ?_
      refine hlimiter.imp (fun hl => ?_) fun hl => ?_
      · exact ⟨fun e he => hl.1 e (List.mem_cons_of_mem _ he), halike.ipAttempts (hips.mpr hl.2)⟩
      · exact ⟨fun r hr => hl.1 r (List.mem_cons_of_mem _ hr),
          fun r hr => hl.2 r (List.mem_cons_of_mem _ hr)⟩
    | evict now keep =>
      have hsessions : ∀ i, (h.step (.evict now keep)).unexpired now i = h.unexpired now i := by
        intro i
        have hget : (h.step (.evict now keep)).sessions.get i = h.unexpired now i := by
          refine Eq.trans ?_ ((hh.mono hnow).get_rebuild i)
          unfold Hub.step
          cases keep <;> rfl
        rw [unexpired, hget, unexpired, filter_unexpired (Int.le_refl _)]
      rw [requests_evict] at hlimiter ⊢
      rw [Hub.answers] at hlimiter ⊢
      refine ih (hh.step hnow hd) (hg.mono hnow) (fun i => (hsessions i).trans (hsnow i)) htimes
        hds ?_
      refine hlimiter.imp (fun hl => ?_) id
      obtain rfl : keep = true := hl.1 _ List.mem_cons_self
      exact ⟨fun e he => hl.1 e (List.mem_cons_of_mem _ he), hl.2⟩

/-! ## The object survives eviction -/

/-- The limiter is set aside: its memory survives every eviction, or it turns no request away. -/
def LimiterAside (es : List (HubEvent C R)) : Prop :=
  (∀ e ∈ es, e.keepsLimiter = true)
    ∨ (∀ r ∈ (new : Hub C R).answers es, r.limited = false)
      ∧ ∀ r ∈ (new : Hub C R).answers (requests es), r.limited = false

instance (es : List (HubEvent C R)) : Decidable (LimiterAside es) := inferInstanceAs <| Decidable <|
  (∀ e ∈ es, e.keepsLimiter = true)
    ∨ (∀ r ∈ (new : Hub C R).answers es, r.limited = false)
      ∧ ∀ r ∈ (new : Hub C R).answers (requests es), r.limited = false

/-- **Eviction changes no answer, and the indexes stay exact**, as long as every session comes with
keys that no unexpired session has. -/
theorem answers_evicted {es : List (HubEvent C R)} {t : ℤ} (htimes : Timed t es)
    (hd : Along DistinctKeys step new es) :
    (LimiterAside es → (new : Hub C R).answers es = (new : Hub C R).answers (requests es))
      ∧ ∀ later,
        LiveIndex PairingSessionData.pairingCode later (run step new es).codeToId
          (run step new es).sessions
        ∧ LiveIndex PairingSessionData.enrollmentToken later (run step new es).tokenToId
          (run step new es).sessions := by
  constructor
  · intro hlimiter
    exact answers_congr (coherent_new t) (coherent_new t) (fun _ => rfl) htimes hd
      (hlimiter.imp_left fun hkeep => ⟨hkeep, rfl⟩)
  · intro later
    obtain ⟨now, hc⟩ := Coherent.run (coherent_new t) htimes hd
    exact hc.liveIndexes later

/-- A claimed session is evicted twice, and a second one takes its code once it has expired. -/
def evictedRun : List (HubEvent String String) :=
  [.request 0 (.create "s1" "owner" "123456" "aa" 60000),
    .evict 1000 false,
    .request 2000 (.claim (some "10.0.0.1") none "123456" "phone"),
    .evict 3000 false,
    .request 4000 (.approve "aa" "owner" true (some "tokens")),
    .request 60000 (.status "123456"),
    .request 61000 (.create "s2" "owner" "123456" "bb" 121000),
    .evict 62000 false,
    .request 63000 (.status "123456"),
    .request 64000 (.consume "bb")]

theorem answers_evictedRun :
    (new : Hub String String).answers evictedRun
        = (new : Hub String String).answers (requests evictedRun)
      ∧ ∀ later,
        LiveIndex PairingSessionData.pairingCode later (run step new evictedRun).codeToId
          (run step new evictedRun).sessions
        ∧ LiveIndex PairingSessionData.enrollmentToken later (run step new evictedRun).tokenToId
          (run step new evictedRun).sessions :=
  have h := @answers_evicted _ _ evictedRun 0 (by decide) (by decide)
  ⟨h.1 (by decide), h.2⟩

/-- A session that is created expired takes the code of another, which only a rebuilt object finds
again. -/
def shadowedRun : List (HubEvent String String) :=
  [.request 0 (.create "s1" "owner" "123456" "aa" 60000),
    .request 1000 (.create "s2" "owner" "123456" "bb" 500),
    .evict 2000 false,
    .request 3000 (.status "123456")]

theorem not_answers_evicted_shadowed :
    ¬ ∀ (es : List (HubEvent String String)) (t : ℤ), Timed t es →
      Along DistinctWhileUnexpired step new es → LimiterAside es →
      (new : Hub String String).answers es = (new : Hub String String).answers (requests es) := by
  intro h
  exact absurd (h shadowedRun 0 (by decide) (by decide) (by decide)) (by decide)

end Hub

end Pcos.Edge
