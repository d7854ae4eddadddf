import Pcos.Edge.Enrollment

/-!
# Edge/Agreement — D1 and the hub agree on a pairing session

Requests other than redemptions come one after the other, so at most one of them is under way, and
it is known which of the two stores it has written already (`Midway`).  A session that the hub holds
is that of a row of D1, or of a redemption that has deleted its row and has the hub to ask
(`Keyed`); with that a key leads to the same session in both stores.
-/

namespace Pcos.Edge

open Foundations

/-- Who a row is about: the keys of the session and its owner. -/
def PairingRow.identity (row : PairingRow) : SessionKeys × String := (row.keys, row.userId)

/-- The keys have an id, a code or a token in common. -/
def SessionKeys.Meets (k k' : SessionKeys) : Prop :=
  k.id = k'.id ∨ k.pairingCode = k'.pairingCode ∨ k.enrollmentToken = k'.enrollmentToken

/-- The session of the hub is that of a row. -/
structure Matches (h : HubSession) (x : SessionKeys × String) : Prop where
  id : h.id = x.1.id
  code : h.pairingCode = x.1.pairingCode
  token : h.enrollmentToken = x.1.enrollmentToken
  user : h.userId = x.2

namespace Stage

/-- The key that the request came with. -/
def key? : Stage → Option String
  | .rejectRow key _ => some key
  | .rejectHub key _ => some key
  | .approveDevice key _ => some key
  | .approveToken key _ _ => some key
  | .approveRow key _ _ => some key
  | .approveHub key _ _ => some key
  | .redeemDelete key _ _ _ => some key
  | .redeemConsume key _ _ _ => some key
  | _ => none

/-- The session that a redemption has not yet consumed in the hub. -/
def awaits : Stage → Option (SessionKeys × String)
  | .redeemDelete _ row _ _ => some row.identity
  | .redeemConsume _ row _ _ => some row.identity
  | _ => none

/-- One store has been written for the session, and the other has not. -/
def midway (id : String) : Stage → Prop
  | .claimRecord _ _ session => session.id = id
  | .rejectHub _ row => row.id = id
  | .approveHub _ row _ => row.id = id
  | _ => False

end Stage

/-- Keys that one key names meet: a code is shorter than a token. -/
theorem SessionKeys.meets_of_named {k k' : SessionKeys} {key : String} (h : k.named key = true)
    (h' : k'.named key = true) : k.Meets k' := by
  have hlen : ∀ k₁ k₂ : SessionKeys, k₁.pairingCode ≠ k₂.enrollmentToken := by
    intro k₁ k₂ heq
    have := k₁.length_code
    rw [heq, k₂.length_token] at this
    cases this
  simp only [named, Bool.or_eq_true, decide_eq_true_eq] at h h'
  rcases h with h | h <;> rcases h' with h' | h'
  · exact Or.inr (Or.inl (h.trans h'.symm))
  · exact absurd (h.trans h'.symm) (hlen k k')
  · exact absurd (h'.trans h.symm) (hlen k' k)
  · exact Or.inr (Or.inr (h.trans h'.symm))

namespace EdgeState

variable {s s' : EdgeState} {c : Call} {d : Draw} {request : EdgeRequest} {a : EdgeAction}

/-! ## One after the other -/

/-- No request is under way but redemptions. -/
def AtRest (s : EdgeState) : Prop := ∀ c ∈ s.inFlight, c.stage.redeems = true

instance (s : EdgeState) : Decidable s.AtRest :=
  inferInstanceAs (Decidable (∀ c ∈ s.inFlight, c.stage.redeems = true))

/-- A request begins when the ones before it are answered; redemptions may overlap. -/
def InTurn (s : EdgeState) : EdgeAction → Prop
  | .begin (.redeem _) _ => s.AtRest
  | .begin _ _ => s.inFlight = []
  | .resume _ _ => True

instance (s : EdgeState) : ∀ a, Decidable (s.InTurn a)
  | .begin (.redeem _) _ => inferInstanceAs (Decidable s.AtRest)
  | .begin (.pair _ _) _ => inferInstanceAs (Decidable (s.inFlight = []))
  | .begin (.claim _ _) _ => inferInstanceAs (Decidable (s.inFlight = []))
  | .begin (.approve _ _ _ _) _ => inferInstanceAs (Decidable (s.inFlight = []))
  | .resume _ _ => inferInstanceAs (Decidable True)

/-- Redemptions are under way, or one other request alone. -/
def Turn (s : EdgeState) : Prop :=
  s.AtRest ∨ ∃ c, s.inFlight = [c] ∧ c.stage.redeems = false

theorem Next.redeems_eq {n : ℕ} {stage stage' : Stage} (h : Next n stage (some stage') ds ts) :
    stage'.redeems = stage.redeems := by
  cases h <;> rfl

theorem atRest_of_nil (h : s.inFlight = []) : s.AtRest := by
  intro c hc
  rw [h] at hc
  cases hc

/-- Where the first section leads: nothing more is under way, or one request alone. -/
theorem Turn.begin (hturn : s.InTurn (.begin request d)) :
    (s.step (.begin request d)).Turn := by
  have hbegun := begun s request d
  change (s.begin request d).Turn
  generalize s.begin request d = s' at hbegun
  have hrest : s.AtRest := by
    cases request with
    | redeem body => exact hturn
    | _ => exact atRest_of_nil hturn
  cases hbegun with
  | refused status message => exact Or.inl hrest
  | paired hrow hnew => exact Or.inr ⟨_, congrArg (_ :: ·) hturn, rfl⟩
  | turnedAway hkey hask hr => exact Or.inl hrest
  | claiming hkey hask => exact Or.inr ⟨_, congrArg (_ :: ·) hturn, rfl⟩
  | rejecting hkey hselect => exact Or.inr ⟨_, congrArg (_ :: ·) hturn, rfl⟩
  | approving hkey hselect => exact Or.inr ⟨_, congrArg (_ :: ·) hturn, rfl⟩
  | redeeming hkey hselect hunexpired hstatus =>
    refine Or.inl fun c hc => ?_
    rcases List.mem_cons.mp hc with rfl | hc
    · rfl
    · exact hrest c hc

theorem Turn.step (h : s.Turn) (hturn : s.InTurn a) : (s.step a).Turn := by
  cases a with
  | begin request d => exact Turn.begin hturn
  | resume c d =>
    by_cases hc : c ∈ s.inFlight
    · obtain ⟨next, ds, ts, hr⟩ := EdgeState.resumed hc d
      rcases h with hrest | ⟨c', hflight, hredeems⟩
      · refine Or.inl fun q hq => ?_
        rw [hr.inFlight, List.mem_append, Option.mem_toList, Option.map_eq_some_iff] at hq
        rcases hq with ⟨stage, rfl, rfl⟩ | hq
        · exact hr.stage.redeems_eq.trans (hrest c hc)
        · exact hrest q (List.mem_of_mem_erase hq)
      · obtain rfl : c = c' := List.mem_singleton.mp (hflight ▸ hc)
        have hflight' := hr.inFlight
        rw [hflight, List.erase_cons_head, List.append_nil] at hflight'
        cases next with
        | none => exact Or.inl (atRest_of_nil hflight')
        | some stage => exact Or.inr ⟨_, hflight', hr.stage.redeems_eq.trans hredeems⟩
    · rwa [step_resume_of_notMem hc]

/-! ## Whose sessions the hub holds -/

/-- Who the rows of D1 are about. -/
def ids (s : EdgeState) : List (SessionKeys × String) := s.rows.map PairingRow.identity

/-- The session is in D1, or still to be consumed. -/
def Live (s : EdgeState) (x : SessionKeys × String) : Prop :=
  x ∈ s.ids ∨ ∃ c ∈ s.inFlight, c.stage.awaits = some x

/-- A call comes with a key of its row; the row is in D1 unless it is being redeemed, and not in the
hub while it is being opened. -/
structure Fits (s : EdgeState) (c : Call) : Prop where
  held : c.stage.redeems = false → ∀ row ∈ c.stage.row?, row.identity ∈ s.ids
  named : ∀ key ∈ c.stage.key?, ∀ row ∈ c.stage.row?, row.named key = true
  creating : ∀ row ttl, c.stage = .pairCreate row ttl → s.hub.sessions.get row.id = none

structure Keyed (s : EdgeState) : Prop where
  indexed : s.hub.Indexed
  meets : ∀ x y, s.Live x → s.Live y → x.1.Meets y.1 → x = y
  hub : ∀ i h, s.hub.sessions.get i = some h → ∃ x, s.Live x ∧ Matches h x
  calls : ∀ c ∈ s.inFlight, s.Fits c

theorem keyed_start : start.Keyed where
  indexed := Hub.indexed_new
  meets x _ h := by rcases h with h | ⟨_, h, -⟩ <;> cases h
  hub i h hget := by simp [start, Hub.new] at hget
  calls _ h := nomatch h

/-- A key leads in the hub to the session that it names. -/
theorem Keyed.find_eq (h : s.Keyed) {now : ℤ} {key i : String} {g : HubSession}
    {x : SessionKeys × String} (hfind : (s.hub.cleanupExpired now).find key = some (i, g))
    (hx : s.Live x) (hkey : x.1.named key = true) : Matches g x ∧ i = x.1.id := by
  have hget := Hub.get_of_find_cleanupExpired hfind
  obtain ⟨y, hy, hmatch⟩ := h.hub i g hget
  have hnamed : y.1.named key = true := by
    rcases (h.indexed.cleanupExpired now).named_of_find hfind with hcode | htoken
    · simp [SessionKeys.named, ← hmatch.code, hcode]
    · simp [SessionKeys.named, ← hmatch.token, htoken]
  obtain rfl := h.meets y x hy hx (SessionKeys.meets_of_named hnamed hkey)
  exact ⟨hmatch, (h.indexed.keyed hget).symm.trans hmatch.id⟩

/-- A session that the hub holds is found under its keys. -/
theorem Keyed.find_of_get (h : s.Keyed) {now : ℤ} {key : String} {g : HubSession}
    {x : SessionKeys × String} (hget : (s.hub.cleanupExpired now).sessions.get x.1.id = some g)
    (hx : s.Live x) (hkey : x.1.named key = true) :
    (s.hub.cleanupExpired now).find key = some (x.1.id, g) := by
  have hold : ∀ j g', (s.hub.cleanupExpired now).sessions.get j = some g' →
      ∃ y, s.Live y ∧ Matches g' y := fun j g' hj => h.hub j g' (Hub.get_of_cleanupExpired hj)
  have hindexed := h.indexed.cleanupExpired now
  obtain ⟨y, hy, hmatch⟩ := hold _ g hget
  obtain rfl := h.meets y x hy hx (Or.inl (hmatch.id.symm.trans (hindexed.keyed hget)))
  simp only [SessionKeys.named, Bool.or_eq_true, decide_eq_true_eq] at hkey
  rcases hkey with hcode | htoken
  · rw [← hcode, ← hmatch.code]
    exact hindexed.find_of_code hget y.1.id_ne
  · rw [← htoken, ← hmatch.token]
    refine hindexed.find_of_token hget y.1.id_ne fun j g' hj heq => ?_
    obtain ⟨z, -, hz⟩ := hold j g' hj
    have := z.1.length_code
    rw [← hz.code, heq, hmatch.token, y.1.length_token] at this
    cases this

theorem ids_updateRows {p : PairingRow → Bool} {f : PairingRow → PairingRow}
    (hf : ∀ row, (f row).identity = row.identity) : (s.updateRows p f).ids = s.ids := by
  rw [ids, updateRows, List.map_map, ids]
  refine List.map_congr_left fun row _ => ?_
  rw [Function.comp_apply]
  split
  · exact hf row
  · rfl

/-! ### What keeps the keys -/

/-- Nothing changes but the tables and the records of the run. -/
theorem Keyed.congr (h : s.Keyed) (hhub : s'.hub = s.hub) (hids : s'.ids = s.ids)
    (hflight : s'.inFlight = s.inFlight) : s'.Keyed := by
  have hlive : ∀ x, s'.Live x ↔ s.Live x := fun x => by rw [Live, hids, hflight, Live]
  refine ⟨hhub ▸ h.indexed, fun x y hx hy => h.meets x y ((hlive x).mp hx) ((hlive y).mp hy), ?_, ?_⟩
  · intro i g hget
    obtain ⟨x, hx, hmatch⟩ := h.hub i g (hhub ▸ hget)
    exact ⟨x, (hlive x).mpr hx, hmatch⟩
  · intro c hc
    obtain ⟨hheld, hnamed, hcreating⟩ := h.calls c (hflight ▸ hc)
    exact ⟨fun hr row hrow => hids ▸ hheld hr row hrow, hnamed, fun row ttl hs =>
      hhub ▸ hcreating row ttl hs⟩

/-- A call comes in, or goes on. -/
theorem Keyed.enter (h : s.Keyed) (hfits : s.Fits c)
    (hawaits : ∀ x, c.stage.awaits = some x → s.Live x) :
    { s with inFlight := c :: s.inFlight }.Keyed := by
  have hlive : ∀ x, { s with inFlight := c :: s.inFlight }.Live x → s.Live x := by
    rintro x (hx | ⟨q, hq, hx⟩)
    · exact Or.inl hx
    · rcases List.mem_cons.mp hq with rfl | hq
      · exact hawaits x hx
      · exact Or.inr ⟨q, hq, hx⟩
  refine ⟨h.indexed, fun x y hx hy => h.meets x y (hlive x hx) (hlive y hy), ?_, ?_⟩
  · intro i g hget
    obtain ⟨x, hx, hmatch⟩ := h.hub i g hget
    exact ⟨x, hx.imp_right fun ⟨q, hq, hx⟩ => ⟨q, List.mem_cons_of_mem _ hq, hx⟩, hmatch⟩
  · intro q hq
    rcases List.mem_cons.mp hq with rfl | hq
    · exact ⟨hfits.held, hfits.named, hfits.creating⟩
    · have := h.calls q hq
      exact ⟨this.held, this.named, this.creating⟩

/-- A call that has nothing to consume leaves. -/
theorem Keyed.leave (h : s.Keyed) (c : Call) (hawaits : c.stage.awaits = none) :
    { s with inFlight := s.inFlight.erase c }.Keyed := by
  refine ⟨h.indexed, ?_, ?_, ?_⟩
  · have hlive : ∀ x, { s with inFlight := s.inFlight.erase c }.Live x → s.Live x :=
      fun x hx => hx.imp_right fun ⟨q, hq, hx⟩ => ⟨q, List.mem_of_mem_erase hq, hx⟩
    exact fun x y hx hy => h.meets x y (hlive x hx) (hlive y hy)
  · intro i g hget
    obtain ⟨x, hx, hmatch⟩ := h.hub i g hget
    refine ⟨x, hx.imp_right ?_, hmatch⟩
    rintro ⟨q, hq, hx⟩
    refine ⟨q, (List.mem_erase_of_ne ?_).mpr hq, hx⟩
    rintro rfl
    cases hawaits.symm.trans hx
  · intro q hq
    have := h.calls q (List.mem_of_mem_erase hq)
    exact ⟨this.held, this.named, this.creating⟩

/-- The hub changes, and keeps of its sessions whose they are. -/
theorem Keyed.rehub (h : s.Keyed) {hub : PairingHub} (hindexed : hub.Indexed)
    (hold : ∀ i g, hub.sessions.get i = some g →
      ∃ g₀, s.hub.sessions.get i = some g₀ ∧ ∀ x, Matches g₀ x → Matches g x) :
    { s with hub := hub }.Keyed := by
  refine ⟨hindexed, h.meets, ?_, ?_⟩
  · intro i g hget
    obtain ⟨g₀, hget₀, hmatch⟩ := hold i g hget
    obtain ⟨x, hx, hmatch₀⟩ := h.hub i g₀ hget₀
    exact ⟨x, hx, hmatch x hmatch₀⟩
  · intro q hq
    have := h.calls q hq
    refine ⟨this.held, this.named, fun row ttl hs => ?_⟩
    by_contra hne
    obtain ⟨g, hget⟩ := Option.ne_none_iff_exists'.mp hne
    obtain ⟨g₀, hget₀, -⟩ := hold _ g hget
    rw [this.creating row ttl hs] at hget₀
    cases hget₀

theorem Keyed.claim (h : s.Keyed) (now : ℤ) (cf fwd : Option String) (key : String)
    (candidate : Candidate) : (s.askHub now (.claim cf fwd key candidate)).1.Keyed := by
  refine h.rehub (h.indexed.fetch now (.claim cf fwd key candidate) trivial) fun i g hget => ?_
  rcases Hub.get_fetch_claim hget with hget | ⟨g₀, -, hfind, rfl⟩
  · exact ⟨g, hget, fun x hx => hx⟩
  · exact ⟨g₀, Hub.get_of_find_cleanupExpired hfind, fun x hx => ⟨hx.id, hx.code, hx.token, hx.user⟩⟩

theorem Keyed.approve (h : s.Keyed) (now : ℤ) (key userId : String) (approved : Bool)
    (result : Option RedeemResult) :
    (s.askHub now (.approve key userId approved result)).1.Keyed := by
  refine h.rehub (h.indexed.fetch now (.approve key userId approved result) trivial)
    fun i g hget => ?_
  rcases Hub.get_fetch_approve hget with ⟨hget, -⟩ | ⟨g₀, hfind, -, rfl⟩
  · exact ⟨g, Hub.get_of_cleanupExpired hget, fun x hx => hx⟩
  · refine ⟨g₀, Hub.get_of_find_cleanupExpired hfind, fun x hx => ?_⟩
    cases approved with
    | true => exact ⟨hx.id, hx.code, hx.token, hx.user⟩
    | false => exact ⟨hx.id, hx.code, hx.token, hx.user⟩

/-- The hub opens a session that is in D1 alone. -/
theorem Keyed.create (h : s.Keyed) {row : PairingRow} (hrow : row.identity ∈ s.ids)
    (hnone : s.hub.sessions.get row.id = none) (hcalls : ∀ c ∈ s.inFlight, c.stage.redeems = true)
    (now : ℤ) :
    (s.askHub now (.create row.id row.userId row.keys.pairingCode row.keys.enrollmentToken
      row.expiresAt)).1.Keyed := by
  have hnew : ∀ i g, (s.hub.cleanupExpired now).sessions.get i = some g →
      ∀ x, Matches g x → x ≠ row.identity := by
    rintro i g hget x hmatch rfl
    have hget := Hub.get_of_cleanupExpired hget
    rw [← h.indexed.keyed hget, hmatch.id] at hget
    rw [show row.identity.1.id = row.id from rfl, hnone] at hget
    cases hget
  refine ⟨h.indexed.fetch now (.create row.id row.userId row.keys.pairingCode
    row.keys.enrollmentToken row.expiresAt) ?_, h.meets, ?_, ?_⟩
  · intro i g hget
    obtain ⟨x, hx, hmatch⟩ := h.hub i g (Hub.get_of_cleanupExpired hget)
    have hne := hnew i g hget x hmatch
    refine ⟨fun heq => hne ?_, fun heq => hne ?_, fun heq => hne ?_⟩
    · exact h.meets x _ hx (Or.inl hrow) (Or.inl (hmatch.id.symm.trans heq))
    · exact h.meets x _ hx (Or.inl hrow) (Or.inr (Or.inl (hmatch.code.symm.trans heq)))
    · exact h.meets x _ hx (Or.inl hrow) (Or.inr (Or.inr (hmatch.token.symm.trans heq)))
  · intro i g hget
    rcases Hub.get_fetch_create hget with ⟨-, rfl⟩ | hget
    · exact ⟨row.identity, Or.inl hrow, rfl, rfl, rfl, rfl⟩
    · exact h.hub i g hget
  · intro q hq
    have := h.calls q hq
    refine ⟨this.held, this.named, fun r ttl hs => ?_⟩
    have := hcalls q hq
    rw [hs] at this
    cases this

/-- A session is opened while nothing is under way. -/
theorem Keyed.pair (h : s.Keyed) (hflight : s.inFlight = []) {row : PairingRow} {n : ℕ} {ttl : ℤ}
    (hnew : ∀ r ∈ s.rows, r.id ≠ row.id ∧ r.keys.pairingCode ≠ row.keys.pairingCode
      ∧ r.keys.enrollmentToken ≠ row.keys.enrollmentToken)
    (hhub : s'.hub = s.hub) (hids : s'.ids = s.ids ++ [row.identity])
    (hflight' : s'.inFlight = [⟨n, request, .pairCreate row ttl⟩]) : s'.Keyed := by
  have hfresh : ∀ x ∈ s.ids, ¬ x.1.Meets row.keys := by
    intro x hx
    obtain ⟨r, hr, rfl⟩ := List.mem_map.mp hx
    obtain ⟨hid, hcode, htoken⟩ := hnew r hr
    rintro (hm | hm | hm)
    · exact hid hm
    · exact hcode hm
    · exact htoken hm
  have hlive : ∀ x, s.Live x ↔ x ∈ s.ids := by
    intro x
    rw [Live, hflight]
    simp
  have hlive' : ∀ x, s'.Live x ↔ x ∈ s.ids ∨ x = row.identity := by
    intro x
    rw [Live, hids, hflight', List.mem_append, List.mem_singleton]
    simp [Stage.awaits]
  have hmeets : ∀ x y : SessionKeys × String, x.1.Meets y.1 → y.1.Meets x.1 :=
    fun x y hm => hm.imp Eq.symm (Or.imp Eq.symm Eq.symm)
  refine ⟨hhub ▸ h.indexed, ?_, ?_, ?_⟩
  · intro x y hx hy hm
    rcases (hlive' x).mp hx with hx | rfl <;> rcases (hlive' y).mp hy with hy | rfl
    · exact h.meets x y ((hlive x).mpr hx) ((hlive y).mpr hy) hm
    · exact absurd hm (hfresh x hx)
    · exact absurd (hmeets _ _ hm) (hfresh y hy)
    · rfl
  · intro i g hget
    obtain ⟨x, hx, hmatch⟩ := h.hub i g (hhub ▸ hget)
    exact ⟨x, (hlive' x).mpr (Or.inl ((hlive x).mp hx)), hmatch⟩
  · intro q hq
    obtain rfl := List.mem_singleton.mp (hflight' ▸ hq)
    refine ⟨fun _ r hr => ?_, nofun, fun r t hs => ?_⟩
    · obtain rfl := Option.some.inj hr
      rw [hids]
      exact List.mem_append_right _ (List.mem_singleton_self _)
    · obtain ⟨rfl, rfl⟩ := Stage.pairCreate.inj hs
      rw [hhub]
      by_contra hne
      obtain ⟨g, hget⟩ := Option.ne_none_iff_exists'.mp hne
      obtain ⟨x, hx, hmatch⟩ := h.hub _ g hget
      exact hfresh x ((hlive x).mp hx) (Or.inl (hmatch.id.symm.trans (h.indexed.keyed hget)))

/-- The call works on a row of D1 that its key names. -/
theorem fits_of_select {key : String} {row : PairingRow} (hselect : s.select key = some row)
    (hrow : c.stage.row? = some row) (hkey : c.stage.key? = some key)
    (hcreating : ∀ r ttl, c.stage ≠ .pairCreate r ttl) : s.Fits c := by
  refine ⟨fun _ r hr => ?_, fun k hk r hr => ?_, fun r ttl hs => absurd hs (hcreating r ttl)⟩
  · obtain rfl := Option.some.inj (hrow.symm.trans hr)
    exact List.mem_map_of_mem (List.mem_of_find?_eq_some hselect)
  · obtain rfl := Option.some.inj (hrow.symm.trans hr)
    obtain rfl := Option.some.inj (hkey.symm.trans hk)
    exact List.find?_some (p := fun r : PairingRow => r.named key) hselect

theorem Keyed.begin (h : s.Keyed) (hturn : s.InTurn (.begin request d)) :
    (s.step (.begin request d)).Keyed := by
  have hbegun := begun s request d
  change (s.begin request d).Keyed
  generalize s.begin request d = s' at hbegun
  cases hbegun with
  | refused status message => exact h.congr rfl rfl rfl
  | paired hrow hnew => exact h.pair hturn hnew rfl List.map_append (congrArg (_ :: ·) hturn)
  | turnedAway hkey hask hr => exact (h.claim d.now _ none _ _).congr rfl rfl rfl
  | @claiming clientIp body key session hkey hask =>
    have hclaimed := h.claim d.now (some (clientIp.getD "")) none key (body.candidate d.now)
    let c : Call :=
      ⟨s.requests, .claim clientIp body, .claimRecord key (body.candidate d.now) session⟩
    have hfits : ∀ t : EdgeState, t.Fits c := fun t =>
      ⟨by rintro - _ ⟨⟩, by rintro _ ⟨⟩, by rintro _ _ ⟨⟩⟩
    exact (hclaimed.enter (hfits _) (by rintro _ ⟨⟩)).congr rfl rfl rfl
  | @rejecting token code key row hkey hselect =>
    let c : Call := ⟨s.requests, .approve (some row.userId) token code false, .rejectRow key row⟩
    have hfits : s.Fits c := fits_of_select hselect rfl rfl (by rintro _ _ ⟨⟩)
    exact (h.enter hfits (by rintro _ ⟨⟩)).congr rfl rfl rfl
  | @approving token code key row hkey hselect =>
    let c : Call := ⟨s.requests, .approve (some row.userId) token code true, .approveDevice key row⟩
    have hfits : s.Fits c := fits_of_select hselect rfl rfl (by rintro _ _ ⟨⟩)
    exact (h.enter hfits (by rintro _ ⟨⟩)).congr rfl rfl rfl
  | @redeeming body key row approved hkey hselect hunexpired hstatus =>
    let c : Call := ⟨s.requests, .redeem body, .redeemDelete key row body approved⟩
    have hfits : s.Fits c := fits_of_select hselect rfl rfl (by rintro _ _ ⟨⟩)
    refine (h.enter hfits ?_).congr rfl rfl rfl
    rintro x ⟨⟩
    exact Or.inl (List.mem_map_of_mem (List.mem_of_find?_eq_some hselect))

/-- A redemption deletes its row, and has the hub to ask yet. -/
theorem Keyed.delete (h : s.Keyed) (hrest : s.AtRest) (hc : c ∈ s.inFlight) {key : String}
    {row : PairingRow} {body : DeviceBody} {approved : Bool}
    (hstage : c.stage = .redeemDelete key row body approved) (hhub : s'.hub = s.hub)
    (hids : ∀ x, x ∈ s'.ids ↔ x ∈ s.ids ∧ x.1.id ≠ row.id)
    (hflight : s'.inFlight
      = { c with stage := .redeemConsume key row body approved } :: s.inFlight.erase c) :
    s'.Keyed := by
  have hrow : s.Live row.identity := Or.inr ⟨c, hc, by rw [hstage]; rfl⟩
  have hlive : ∀ x, s'.Live x ↔ s.Live x := by
    intro x
    constructor
    · rintro (hx | ⟨q, hq, hx⟩)
      · exact Or.inl ((hids x).mp hx).1
      · rw [hflight] at hq
        rcases List.mem_cons.mp hq with rfl | hq
        · cases hx
          exact hrow
        · exact Or.inr ⟨q, List.mem_of_mem_erase hq, hx⟩
    · intro hx
      have hself : s'.Live row.identity := Or.inr ⟨_, hflight ▸ List.mem_cons_self, rfl⟩
      by_cases hid : x.1.id = row.id
      · rwa [h.meets x row.identity hx hrow (Or.inl hid)]
      · rcases hx with hx | ⟨q, hq, hawaits⟩
        · exact Or.inl ((hids x).mpr ⟨hx, hid⟩)
        · refine Or.inr ⟨q, hflight ▸ List.mem_cons_of_mem _ ((List.mem_erase_of_ne ?_).mpr hq),
            hawaits⟩
          rintro rfl
          rw [hstage] at hawaits
          cases hawaits
          exact hid rfl
  refine ⟨hhub ▸ h.indexed, fun x y hx hy => h.meets x y ((hlive x).mp hx) ((hlive y).mp hy), ?_, ?_⟩
  · intro i g hget
    obtain ⟨x, hx, hmatch⟩ := h.hub i g (hhub ▸ hget)
    exact ⟨x, (hlive x).mpr hx, hmatch⟩
  · intro q hq
    rw [hflight] at hq
    rcases List.mem_cons.mp hq with rfl | hq
    · refine ⟨by rintro ⟨⟩, fun k hk r hr => (h.calls c hc).named k ?_ r ?_, by rintro _ _ ⟨⟩⟩
      · rw [hstage]
        exact hk
      · rw [hstage]
        exact hr
    · have hq := List.mem_of_mem_erase hq
      have hredeems := hrest q hq
      refine ⟨fun hno => ?_, (h.calls q hq).named, fun r ttl hs => ?_⟩
      · cases hredeems.symm.trans hno
      · rw [hs] at hredeems
        cases hredeems

/-- A redemption consumes its session: the hub does not hold it any more. -/
theorem Keyed.consume (h : s.Keyed) (hc : c ∈ s.inFlight) {key : String} {row : PairingRow}
    {body : DeviceBody} {approved : Bool} (hstage : c.stage = .redeemConsume key row body approved)
    (now : ℤ) :
    ({ s with inFlight := s.inFlight.erase c }.askHub now (.consume key)).1.Keyed := by
  have hrow : s.Live row.identity := Or.inr ⟨c, hc, by rw [hstage]; rfl⟩
  have hnamed : row.identity.1.named key = true :=
    (h.calls c hc).named key (by rw [hstage]; rfl) row (by rw [hstage]; rfl)
  refine ⟨h.indexed.fetch now (.consume key) trivial, ?_, ?_, ?_⟩
  · have hlive : ∀ x, { s with inFlight := s.inFlight.erase c }.Live x → s.Live x :=
      fun x hx => hx.imp_right fun ⟨q, hq, hx⟩ => ⟨q, List.mem_of_mem_erase hq, hx⟩
    exact fun x y hx hy => h.meets x y (hlive x hx) (hlive y hy)
  · intro i g hget
    obtain ⟨hget, hother⟩ := Hub.get_fetch_consume hget
    obtain ⟨x, hx, hmatch⟩ := h.hub i g (Hub.get_of_cleanupExpired hget)
    refine ⟨x, hx.imp_right ?_, hmatch⟩
    rintro ⟨q, hq, hawaits⟩
    refine ⟨q, (List.mem_erase_of_ne ?_).mpr hq, hawaits⟩
    rintro rfl
    rw [hstage] at hawaits
    cases hawaits
    have hi : i = row.identity.1.id :=
      ((h.indexed.cleanupExpired now).keyed hget).symm.trans hmatch.id
    subst hi
    exact hother _ g (h.find_of_get hget hrow hnamed) rfl
  · intro q hq
    have hfits := h.calls q (List.mem_of_mem_erase hq)
    refine ⟨hfits.held, hfits.named, fun r ttl hs => ?_⟩
    by_contra hne
    obtain ⟨g, hget⟩ := Option.ne_none_iff_exists'.mp hne
    have hget := Hub.get_of_cleanupExpired (Hub.get_fetch_consume hget).1
    rw [hfits.creating r ttl hs] at hget
    cases hget

/-- A call goes on with what it has to consume. -/
theorem Keyed.swap (h : s.Keyed) (hc : c ∈ s.inFlight) {c' : Call} (hfits : s.Fits c')
    (hawaits : c'.stage.awaits = c.stage.awaits) :
    { s with inFlight := c' :: s.inFlight.erase c }.Keyed := by
  have hentered := h.enter hfits fun x hx => Or.inr ⟨c, hc, hawaits ▸ hx⟩
  have hlive : ∀ x, { s with inFlight := c' :: s.inFlight.erase c }.Live x
      ↔ { s with inFlight := c' :: s.inFlight }.Live x := by
    refine fun x => or_congr_right ⟨?_, ?_⟩
    · rintro ⟨q, hq, hx⟩
      exact ⟨q, (List.mem_cons.mp hq).elim (· ▸ List.mem_cons_self)
        fun hq => List.mem_cons_of_mem _ (List.mem_of_mem_erase hq), hx⟩
    · rintro ⟨q, hq, hx⟩
      by_cases hqc : q = c
      · exact ⟨c', List.mem_cons_self, hawaits.trans (hqc ▸ hx)⟩
      · refine ⟨q, (List.mem_cons.mp hq).elim (· ▸ List.mem_cons_self) fun hq => ?_, hx⟩
        exact List.mem_cons_of_mem _ ((List.mem_erase_of_ne hqc).mpr hq)
  refine ⟨h.indexed, fun x y hx hy => hentered.meets x y ((hlive x).mp hx) ((hlive y).mp hy), ?_, ?_⟩
  · intro i g hget
    obtain ⟨x, hx, hmatch⟩ := hentered.hub i g hget
    exact ⟨x, (hlive x).mpr hx, hmatch⟩
  · intro q hq
    have := hentered.calls q ((List.mem_cons.mp hq).elim (· ▸ List.mem_cons_self)
      fun hq => List.mem_cons_of_mem _ (List.mem_of_mem_erase hq))
    exact ⟨this.held, this.named, this.creating⟩

/-- A call fits after its section as before, when it goes on with its row and its key. -/
theorem Fits.goOn (h : s.Fits c) (stage : Stage) (hids : s'.ids = s.ids)
    (hredeems : stage.redeems = c.stage.redeems) (hrow : stage.row? = c.stage.row?)
    (hkey : ∀ key ∈ stage.key?, key ∈ c.stage.key?)
    (hnew : ∀ row ttl, stage ≠ .pairCreate row ttl) : s'.Fits { c with stage := stage } where
  held hno row hr := by
    rw [hids]
    exact h.held (hredeems ▸ hno) row (hrow ▸ hr)
  named key hk row hr := h.named key (hkey key hk) row (hrow ▸ hr)
  creating row ttl hs := absurd hs (hnew row ttl)

theorem Turn.alone (h : s.Turn) (hc : c ∈ s.inFlight) (hredeems : c.stage.redeems = false) :
    s.inFlight = [c] := by
  rcases h with hrest | ⟨c', hflight, -⟩
  · cases hredeems.symm.trans (hrest c hc)
  · rw [hflight, List.mem_singleton] at hc
    rw [hflight, hc]

theorem Turn.atRest (h : s.Turn) (hc : c ∈ s.inFlight) (hredeems : c.stage.redeems = true) :
    s.AtRest := by
  rcases h with hrest | ⟨c', hflight, hno⟩
  · exact hrest
  · rw [hflight, List.mem_singleton] at hc
    rw [hc, hno] at hredeems
    cases hredeems

theorem Keyed.resume (h : s.Keyed) (hturn : s.Turn) (hc : c ∈ s.inFlight) (d : Draw) :
    (s.step (.resume c d)).Keyed := by
  have hfits := h.calls c hc
  rw [step, if_pos hc]
  obtain ⟨n, request, stage⟩ := c
  cases stage with
  | pairCreate row ttl =>
    have halone := hturn.alone hc rfl
    refine ((h.leave _ rfl).create (hfits.held rfl row rfl) (hfits.creating row ttl rfl) ?_
      d.now).congr rfl rfl rfl
    intro q hq
    rw [halone, List.erase_cons_head] at hq
    cases hq
  | claimRecord key candidate session =>
    exact (h.leave _ rfl).congr rfl (ids_updateRows (s := s) fun _ => rfl) rfl
  | rejectRow key row =>
    let f : PairingRow → PairingRow := fun row => { row with status := .rejected }
    have hids : (s.updateRows (·.id = row.id) f).ids = s.ids := ids_updateRows fun _ => rfl
    have hrows : ({ s with inFlight := s.inFlight.erase ⟨n, request, .rejectRow key row⟩ }.updateRows
      (·.id = row.id) f).Keyed := (h.leave _ rfl).congr rfl hids rfl
    exact (hrows.enter (hfits.goOn (.rejectHub key row) hids rfl rfl (fun _ hk => hk) (by rintro _ _ ⟨⟩))
      (by rintro _ ⟨⟩)).congr rfl rfl rfl
  | rejectHub key row => exact ((h.leave _ rfl).approve d.now key row.userId false none).congr rfl rfl rfl
  | approveDevice key row =>
    exact ((h.leave _ rfl).enter (hfits.goOn (.approveToken key row _) rfl rfl rfl (fun _ hk => hk) (by rintro _ _ ⟨⟩))
      (by rintro _ ⟨⟩)).congr rfl rfl rfl
  | approveToken key row device =>
    exact ((h.leave _ rfl).enter (hfits.goOn (.approveRow key row _) rfl rfl rfl (fun _ hk => hk) (by rintro _ _ ⟨⟩))
      (by rintro _ ⟨⟩)).congr rfl rfl rfl
  | approveRow key row result =>
    let f : PairingRow → PairingRow := fun r =>
      { r with status := .approved, candidateDeviceJson := some ⟨row.candidate, some result⟩ }
    have hids : (s.updateRows (·.id = row.id) f).ids = s.ids := ids_updateRows fun _ => rfl
    have hrows : ({ s with
      inFlight := s.inFlight.erase ⟨n, request, .approveRow key row result⟩ }.updateRows
        (·.id = row.id) f).Keyed := (h.leave _ rfl).congr rfl hids rfl
    exact (hrows.enter (hfits.goOn (.approveHub key row result) hids rfl rfl (fun _ hk => hk) (by rintro _ _ ⟨⟩))
      (by rintro _ ⟨⟩)).congr rfl rfl rfl
  | approveHub key row result =>
    exact ((h.leave _ rfl).approve d.now key row.userId true (some result)).congr rfl rfl rfl
  | redeemDelete key row body approved =>
    refine h.delete (hturn.atRest hc rfl) hc rfl rfl (fun x => ?_) rfl
    simp only [EdgeState.resume, goOn, deleteRow, ids, List.mem_map, List.mem_filter,
      decide_eq_true_eq]
    constructor
    · rintro ⟨r, ⟨hr, hne⟩, rfl⟩
      exact ⟨⟨r, hr, rfl⟩, hne⟩
    · rintro ⟨⟨r, hr, rfl⟩, hne⟩
      exact ⟨r, ⟨hr, hne⟩, rfl⟩
  | redeemConsume key row body approved =>
    rw [EdgeState.resume]
    have hconsumed := h.consume hc rfl d.now
    cases approved with
    | true =>
      dsimp only
      rw [if_pos rfl]
      split
      · exact hconsumed.congr rfl rfl rfl
      · have hold : ∀ i g, (s.hub.fetch d.now (.consume key)).1.sessions.get i = some g →
            ∃ g₀, s.hub.sessions.get i = some g₀ ∧ ∀ x, Matches g₀ x → Matches g x :=
          fun i g hget => ⟨g, Hub.get_of_cleanupExpired (Hub.get_fetch_consume hget).1, fun x hx => hx⟩
        have hhub := h.rehub (h.indexed.fetch d.now (.consume key) trivial) hold
        exact (hhub.swap hc (hfits.goOn (.redeemDelete key row body false) rfl rfl rfl (fun _ hk => hk) (by rintro _ _ ⟨⟩)) rfl).congr
          rfl rfl rfl
    | false =>
      exact (hconsumed.enter (hfits.goOn (.redeemDevice row body) rfl rfl rfl (by rintro _ ⟨⟩) (by rintro _ _ ⟨⟩))
        (by rintro _ ⟨⟩)).congr rfl rfl rfl
  | redeemDevice row body =>
    exact ((h.leave _ rfl).enter (hfits.goOn (.redeemToken row body _) rfl rfl rfl (fun _ hk => hk) (by rintro _ _ ⟨⟩))
      (by rintro _ ⟨⟩)).congr rfl rfl rfl
  | redeemToken row body device => exact (h.leave _ rfl).congr rfl rfl rfl

theorem Keyed.step (h : s.Keyed) (hturn : s.Turn) (hinturn : s.InTurn a) : (s.step a).Keyed := by
  cases a with
  | begin request d => exact h.begin hinturn
  | resume c d =>
    by_cases hc : c ∈ s.inFlight
    · exact h.resume hturn hc d
    · rwa [step_resume_of_notMem hc]

/-! ## The two stores agree -/

/-- What holds between the two writes of a request. -/
def Midway (s : EdgeState) : Stage → Prop
  | .pairCreate row _ => ∀ r ∈ s.rows, r.id = row.id → r.status = .pendingRedeem
  | .claimRecord key _ session => s.hub.sessions.get session.id = some session
    ∧ session.status = .pendingApproval
    ∧ (session.pairingCode = key ∨ session.enrollmentToken = key)
  | .rejectHub _ row => ∀ r ∈ s.rows, r.id = row.id → r.status = .rejected
  | .approveHub _ row _ => ∀ r ∈ s.rows, r.id = row.id → r.status = .approved
  | _ => True

/-- A session has one status in D1 and in the hub, unless a request has yet to tell one of them. -/
structure Agreed (s : EdgeState) : Prop where
  midway : ∀ c ∈ s.inFlight, s.Midway c.stage
  status : ∀ row ∈ s.rows, ∀ g, s.hub.sessions.get row.id = some g →
    g.status = row.status ∨ ∃ c ∈ s.inFlight, c.stage.midway row.id

theorem agreed_start : start.Agreed where
  midway _ h := nomatch h
  status _ h := nomatch h

theorem not_midway_of_redeems {stage : Stage} (h : stage.redeems = true) (id : String) :
    ¬ stage.midway id := by
  cases stage with
  | redeemDelete key row body approved => exact not_false
  | redeemConsume key row body approved => exact not_false
  | redeemDevice row body => exact not_false
  | redeemToken row body device => exact not_false
  | _ => cases h

theorem midway_of_redeems {stage : Stage} (h : stage.redeems = true) : s.Midway stage := by
  cases stage <;> trivial

/-- While redemptions alone are under way the stores agree. -/
theorem Agreed.eq_of_atRest (h : s.Agreed) (hrest : s.AtRest) {row : PairingRow} (hrow : row ∈ s.rows)
    {g : HubSession} (hget : s.hub.sessions.get row.id = some g) : g.status = row.status := by
  rcases h.status row hrow g hget with heq | ⟨c, hc, hmid⟩
  · exact heq
  · exact absurd hmid (not_midway_of_redeems (hrest c hc) _)

/-- The first section of a request that changes neither store. -/
theorem Agreed.enter (h : s.Agreed) (hrest : s.AtRest) (hhub : s'.hub = s.hub)
    (hrows : s'.rows = s.rows) (hmid : ∀ q ∈ s'.inFlight, q ∈ s.inFlight ∨ s'.Midway q.stage) :
    s'.Agreed where
  midway q hq := (hmid q hq).elim (fun hq => midway_of_redeems (hrest q hq)) id
  status _ hrow _ hget :=
    Or.inl (h.eq_of_atRest hrest (hrows ▸ hrow) (hhub ▸ hget))

theorem Agreed.begin (h : s.Agreed) (hk : s.Keyed) (hturn : s.InTurn (.begin request d)) :
    (s.step (.begin request d)).Agreed := by
  have hk' := hk.begin hturn
  have hrest : s.AtRest := by
    cases request with
    | redeem body => exact hturn
    | _ => exact atRest_of_nil hturn
  have hbegun := begun s request d
  change (s.begin request d).Keyed at hk'
  change (s.begin request d).Agreed
  generalize s.begin request d = s' at hk' hbegun
  have hin : ∀ (stage : Stage) {q : Call}, s.Midway stage →
      q ∈ (⟨s.requests, request, stage⟩ : Call) :: s.inFlight →
        q ∈ s.inFlight ∨ s.Midway q.stage := by
    intro stage q hmid hq
    rcases List.mem_cons.mp hq with rfl | hq
    · exact Or.inr hmid
    · exact Or.inl hq
  cases hbegun with
  | refused status message => exact h.enter hrest rfl rfl fun q hq => Or.inl hq
  | @paired userId expires ttl row hrow hnew =>
    constructor
    · intro q hq
      rcases List.mem_cons.mp hq with rfl | hq
      · intro r hr hid
        rcases List.mem_append.mp hr with hr | hr
        · exact absurd hid (hnew r hr).1
        · rw [List.mem_singleton.mp hr, hrow]
      · exact midway_of_redeems (hrest q hq)
    · intro r hr g hget
      rcases List.mem_append.mp hr with hr | hr
      · exact Or.inl (h.eq_of_atRest hrest hr hget)
      · obtain rfl := List.mem_singleton.mp hr
        have hnone := (hk'.calls _ List.mem_cons_self).creating r ttl rfl
        cases hnone.symm.trans hget
  | turnedAway hkey hask hr =>
    refine ⟨fun q hq => midway_of_redeems (hrest q hq), fun r hrow g hget => Or.inl ?_⟩
    refine h.eq_of_atRest hrest hrow (Hub.get_of_turnedAway (fun session hs => ?_) hget)
    exact hr session (hask.symm.trans hs)
  | claiming hkey hask =>
    obtain ⟨i, g₀, -, hfind, hsession, hgot⟩ := Hub.claimed_of_session hask
    have hid : _ = i := hk'.indexed.keyed hgot
    constructor
    · intro q hq
      rcases List.mem_cons.mp hq with rfl | hq
      · have hnamed := (hk.indexed.cleanupExpired d.now).named_of_find hfind
        refine ⟨hid ▸ hgot, by rw [hsession], ?_⟩
        rw [hsession]
        exact hnamed
      · exact midway_of_redeems (hrest q hq)
    · intro r hrow g hget
      rcases Hub.get_fetch_claim hget with hget | ⟨g₁, -, hfind₁, -⟩
      · exact Or.inl (h.eq_of_atRest hrest hrow hget)
      · refine Or.inr ⟨_, List.mem_cons_self, ?_⟩
        have heq : i = r.id := (Prod.mk.inj (Option.some.inj (hfind.symm.trans hfind₁))).1
        exact hid.trans heq
  | rejecting hkey hselect =>
    exact h.enter hrest rfl rfl fun q hq => hin (.rejectRow _ _) trivial hq
  | approving hkey hselect =>
    exact h.enter hrest rfl rfl fun q hq => hin (.approveDevice _ _) trivial hq
  | redeeming hkey hselect hunexpired hstatus =>
    exact h.enter hrest rfl rfl fun q hq => hin (.redeemDelete _ _ _ _) trivial hq

/-- Once the hub has heard of the decision, the stores agree on it. -/
theorem Agreed.decided (h : s.Agreed) (approved : Bool) (result : Option RedeemResult)
    (hk : s.Keyed) (halone : s.inFlight = [c]) {key : String} {row : PairingRow}
    (hkey : key ∈ c.stage.key?) (hrow : row ∈ c.stage.row?) (hredeems : c.stage.redeems = false)
    (hstatus : ∀ r ∈ s.rows, r.id = row.id → r.status = if approved then .approved else .rejected)
    (hmid : ∀ id, c.stage.midway id → row.id = id) {now : ℤ} {r : PairingRow} (hr : r ∈ s.rows)
    {g : HubSession} (hget : (s.hub.fetch now (.approve key row.userId approved
      result)).1.sessions.get r.id = some g) : g.status = r.status := by
  have hfits := hk.calls c (halone ▸ List.mem_singleton_self c)
  have hlive : s.Live row.identity := Or.inl (hfits.held hredeems row hrow)
  have hnamed : row.identity.1.named key = true := hfits.named key hkey row hrow
  rcases Hub.get_fetch_approve hget with ⟨hget, hother⟩ | ⟨g₀, hfind, -, rfl⟩
  · rcases h.status r hr g (Hub.get_of_cleanupExpired hget) with heq | ⟨q, hq, hqmid⟩
    · exact heq
    · obtain rfl := List.mem_singleton.mp (halone ▸ hq)
      have hid : row.identity.1.id = r.id := hmid r.id hqmid
      rw [← hid] at hget hother
      have hfind := hk.find_of_get hget hlive hnamed
      exact absurd (hk.find_eq hfind hlive hnamed).1.user (hother g hfind)
  · rw [hstatus r hr (hk.find_eq hfind hlive hnamed).2]
    cases approved <;> rfl

/-- D1 has been written for a session, and the hub is next. -/
theorem Agreed.written {c' : Call} {id : String} {f : PairingRow → PairingRow}
    {status : PairingStatus}
    (hagree : ∀ {row g}, row ∈ s.rows → s.hub.sessions.get row.id = some g → g.status = row.status)
    (hf : ∀ r, (f r).status = status ∧ (f r).id = r.id) (hhub : s'.hub = s.hub)
    (hrows : s'.rows = (s.updateRows (·.id = id) f).rows) (hflight : s'.inFlight = [c'])
    (hmid : c'.stage.midway id)
    (hmidway : (∀ r ∈ s'.rows, r.id = id → r.status = status) → s'.Midway c'.stage) :
    s'.Agreed := by
  constructor
  · intro q hq
    obtain rfl := List.mem_singleton.mp (hflight ▸ hq)
    refine hmidway fun r hr hid => ?_
    rcases mem_updateRows (hrows ▸ hr) with ⟨-, hno⟩ | ⟨r₀, -, -, rfl⟩
    · exact absurd hid (of_decide_eq_false hno)
    · exact (hf r₀).1
  · intro r hr g hget
    rcases mem_updateRows (hrows ▸ hr) with ⟨hr, -⟩ | ⟨r₀, -, hpick, rfl⟩
    · exact Or.inl (hagree hr (hhub ▸ hget))
    · refine Or.inr ⟨c', hflight ▸ List.mem_singleton_self c', ?_⟩
      rw [(hf r₀).2, of_decide_eq_true hpick]
      exact hmid

theorem Agreed.resume (h : s.Agreed) (hk : s.Keyed) (hturn : s.Turn) (hc : c ∈ s.inFlight)
    (d : Draw) : (s.step (.resume c d)).Agreed := by
  cases hredeems : c.stage.redeems with
  | true =>
    have hrest := hturn.atRest hc hredeems
    refine ⟨fun q hq => midway_of_redeems ?_, fun row hrow g hget => Or.inl ?_⟩
    · cases callStep hq with
      | same hq => exact hrest q hq
      | next ha hc' hnext => exact hnext.redeems_eq.trans (hrest _ hc')
      | paired ha => cases ha
      | claiming ha => cases ha
      | rejecting ha => cases ha
      | approving ha => cases ha
      | redeeming ha => cases ha
    · have hgold : s.hub.sessions.get row.id = some g := by
        cases hubStep hget with
        | same hget => exact hget
        | claimed ha => cases ha
        | created ha hc' hstage hid =>
          cases ha
          rw [hstage] at hredeems
          cases hredeems
        | rejected ha hc' hstage hfind =>
          cases ha
          rw [hstage] at hredeems
          cases hredeems
        | approved ha hc' hstage hfind =>
          cases ha
          rw [hstage] at hredeems
          cases hredeems
      refine h.eq_of_atRest hrest ?_ hgold
      cases rowStep hrow with
      | same hrow => exact hrow
      | opened ha => cases ha
      | claimed hold ha hc' hstage hkey hclaimed =>
        cases ha
        rw [hstage] at hredeems
        cases hredeems
      | rejected hold ha hc' hstage hid =>
        cases ha
        rw [hstage] at hredeems
        cases hredeems
      | approved hold ha hc' hstage hid =>
        cases ha
        rw [hstage] at hredeems
        cases hredeems
  | false =>
    have halone := hturn.alone hc hredeems
    have hmid := h.midway c hc
    have hfits := hk.calls c hc
    -- the stores agree on a session that the call is not midway with
    have hagree : ∀ {row g}, row ∈ s.rows → s.hub.sessions.get row.id = some g →
        ¬ c.stage.midway row.id → g.status = row.status := by
      intro row g hrow hget hno
      rcases h.status row hrow g hget with heq | ⟨q, hq, hqmid⟩
      · exact heq
      · obtain rfl := List.mem_singleton.mp (halone ▸ hq)
        exact absurd hqmid hno
    rw [step, if_pos hc]
    obtain ⟨n, request, stage⟩ := c
    have hnil : s.inFlight.erase ⟨n, request, stage⟩ = [] := by
      rw [halone, List.erase_cons_head]
    cases stage with
    | pairCreate row ttl =>
      refine ⟨fun q hq => absurd (hnil ▸ hq) List.not_mem_nil, fun r hr g hget => Or.inl ?_⟩
      rcases Hub.get_fetch_create hget with ⟨hid, rfl⟩ | hget
      · exact (hmid r hr hid).symm
      · exact hagree hr hget not_false
    | claimRecord key candidate session =>
      obtain ⟨hget, hstatus, hnamed⟩ := hmid
      obtain ⟨x, hx, hmatch⟩ := hk.hub _ _ hget
      have hxkey : x.1.named key = true := by
        simpa [SessionKeys.named, ← hmatch.code, ← hmatch.token] using hnamed
      refine ⟨fun q hq => absurd (hnil ▸ hq) List.not_mem_nil, fun r hr g hgot => Or.inl ?_⟩
      rcases mem_updateRows hr with ⟨hr, hno⟩ | ⟨r₀, hr₀, hkey, rfl⟩
      · refine hagree hr hgot fun hid => ?_
        have hlive : s.Live r.identity := Or.inl (List.mem_map_of_mem hr)
        have hsame : x.1.id = r.identity.1.id := hmatch.id.symm.trans hid
        rw [hk.meets x _ hx hlive (Or.inl hsame)] at hxkey
        cases hxkey.symm.trans hno
      · have hlive : s.Live r₀.identity := Or.inl (List.mem_map_of_mem hr₀)
        obtain rfl := hk.meets x _ hx hlive (SessionKeys.meets_of_named hxkey hkey)
        have hid : session.id = r₀.id := hmatch.id
        rw [hid] at hget
        rw [Option.some.inj (hgot.symm.trans hget)]
        exact hstatus
    | rejectRow key row =>
      exact .written (fun hr hget => hagree hr hget not_false)
        (f := fun r => { r with status := .rejected }) (fun r => ⟨rfl, rfl⟩) rfl rfl
        (congrArg (_ :: ·) hnil) rfl (fun hall => hall)
    | rejectHub key row =>
      refine ⟨fun q hq => absurd (hnil ▸ hq) List.not_mem_nil, fun r hr g hget => Or.inl ?_⟩
      exact h.decided false none hk halone rfl rfl rfl hmid (fun id hid => hid) hr hget
    | approveDevice key row =>
      refine ⟨fun q hq => ?_, fun r hr g hget => Or.inl (hagree hr hget not_false)⟩
      rcases List.mem_cons.mp hq with rfl | hq
      · trivial
      · exact absurd (hnil ▸ hq) List.not_mem_nil
    | approveToken key row device =>
      refine ⟨fun q hq => ?_, fun r hr g hget => Or.inl (hagree hr hget not_false)⟩
      rcases List.mem_cons.mp hq with rfl | hq
      · trivial
      · exact absurd (hnil ▸ hq) List.not_mem_nil
    | approveRow key row result =>
      exact .written (fun hr hget => hagree hr hget not_false)
        (f := fun r => { r with
          status := .approved
          candidateDeviceJson := some ⟨row.candidate, some result⟩ }) (fun r => ⟨rfl, rfl⟩) rfl rfl
        (congrArg (_ :: ·) hnil) rfl (fun hall => hall)
    | approveHub key row result =>
      refine ⟨fun q hq => absurd (hnil ▸ hq) List.not_mem_nil, fun r hr g hget => Or.inl ?_⟩
      exact h.decided true (some result) hk halone rfl rfl rfl hmid (fun id hid => hid) hr hget
    | _ => cases hredeems

/-! ## A session is used once, and the stores agree -/

/-- **A session is used once, and the stores agree on it.** -/
structure PairedOnce (s : EdgeState) : Prop where
  devices : ∀ session, (s.devicesOf session).length ≤ 1
  tokens : ∀ session, (s.tokensOf session).length ≤ 1
  /-- A request whose answer is not 2xx has inserted no device and no token. -/
  refused : ∀ answer ∈ s.answers, answer.response.ok = false → ¬ s.Provisioned answer.number
  /-- An approval provisions only sessions that were claimed. -/
  claimed : ∀ row ∈ s.devices, ∀ n, row.origin = .approval n → row.session ∈ s.claimed
  /-- Once the requests are answered, D1 and the hub have one status for a session they both hold. -/
  agree : s.AtRest → ∀ row ∈ s.rows, ∀ g, s.hub.sessions.get row.id = some g → g.status = row.status

/-- Everything that is kept along a run. -/
structure Kept (s : EdgeState) : Prop where
  turn : s.Turn
  keyed : s.Keyed
  agreed : s.Agreed
  claimed : s.Claimed
  numbered : s.Numbered
  accounted : ∀ session, s.Accounted session

theorem kept_start : start.Kept where
  turn := Or.inl (atRest_of_nil rfl)
  keyed := keyed_start
  agreed := agreed_start
  claimed := claimed_start
  numbered := numbered_start
  accounted := accounted_start

theorem Agreed.step (h : s.Agreed) (hk : s.Keyed) (hturn : s.Turn) (hinturn : s.InTurn a) :
    (s.step a).Agreed := by
  cases a with
  | begin request d => exact h.begin hk hinturn
  | resume c d =>
    by_cases hc : c ∈ s.inFlight
    · exact h.resume hk hturn hc d
    · rwa [step_resume_of_notMem hc]

theorem Kept.step (h : s.Kept) (hturn : s.InTurn a) (hok : s.Provisionable a) :
    (s.step a).Kept where
  turn := h.turn.step hturn
  keyed := h.keyed.step h.turn hturn
  agreed := h.agreed.step h.keyed h.turn hturn
  claimed := h.claimed.step hok
  numbered := h.numbered.step hok
  accounted session := (h.accounted session).step hok

theorem Kept.pairedOnce (h : s.Kept) : s.PairedOnce where
  devices session := Nat.le_trans (Nat.le_add_left _ _) (h.accounted session).devices
  tokens session := Nat.le_trans (Nat.le_add_left _ _) <| Nat.le_trans (h.accounted session).tokens <|
    Nat.le_trans (Nat.le_add_left _ _) (h.accounted session).devices
  refused := h.numbered.refused
  claimed := h.claimed.devices
  agree hrest _ hrow _ hget := h.agreed.eq_of_atRest hrest hrow hget

/-- **Every session is used once, and the stores agree on it**, in every state of a run whose
requests come in turn, redemptions apart, and provision only what is theirs to provision. -/
theorem pairedOnce_of_run {as : List EdgeAction}
    (h : Along (fun s a => s.InTurn a ∧ s.Provisionable a) step start as) :
    (run step start as).PairedOnce :=
  (h.invariant (P := Kept) (fun _ _ hs hok => hs.step hok.1 hok.2) kept_start).pairedOnce

namespace Sample

def keys : SessionKeys :=
  ⟨"session", "123456", "0123456789abcdef0123456789abcdef", by decide, by decide, by decide⟩

def draw (now : ℤ) : Draw := ⟨now, keys, "device", some "cloud", "access", "refresh"⟩

def phone : DeviceBody :=
  ⟨none, some "123456", some "Phone", none, some "Android", none, none, none⟩

/-- The request that came last goes on for some sections. -/
def further (now : ℤ) : ℕ → List EdgeAction → List EdgeAction
  | 0, as => as
  | n + 1, as =>
    match (run EdgeState.step start as).inFlight with
    | [] => as
    | c :: _ => further now n (as ++ [.resume c (draw now)])

/-- Alice opens a session. -/
def paired : List EdgeAction := further 0 1 [.begin (.pair (some "alice") none) (draw 0)]

/-- The phone claims it. -/
def claimed : List EdgeAction :=
  further 1000 1 (paired ++ [.begin (.claim (some "10.0.0.1") phone) (draw 1000)])

/-- Alice approves the phone. -/
def approved : List EdgeAction :=
  further 2000 4 (claimed ++ [.begin (.approve (some "alice") none (some "123456") true) (draw 2000)])

end Sample

open Sample in
theorem pairedOnce_redeemed :
    (run step start (further 3000 2 (approved ++ [.begin (.redeem phone) (draw 3000)]))).PairedOnce :=
  pairedOnce_of_run (by decide)

open Sample in
/-- Two parties redeem a session before either of them has deleted its row. -/
def redeemedTwice : List EdgeAction :=
  further 1000 4 (further 1000 4
    (paired ++ [.begin (.redeem phone) (draw 1000), .begin (.redeem phone) (draw 1000)]))

theorem not_pairedOnce_redeemedTwice :
    ¬ ∀ as, Along InTurn step start as → (run step start as).PairedOnce := by
  intro h
  exact absurd ((h redeemedTwice (by decide)).devices "session") (by decide)

end EdgeState

end Pcos.Edge
