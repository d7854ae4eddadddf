import Pcos.Backend.Pairing
import Pcos.Backend.System
import Pcos.Foundations.KeyIndex

/-!
# Backend/PairingIndex — the two indexes of the pairing store (`device/src/service.rs`)

A session is filed under its id, and found by its code and by its token.  A code is drawn at random
and never compared with the codes in use, so `insert` may redirect the entry of another session, and
`remove` may take an entry away that leads to another session by now.

    insert (id, code) ──▸ code_to_id[code] = id          remove id ──▸ code_to_id.remove(code)

As long as every session comes with keys of its own, the indexes mirror the sessions, and a key leads
to the one session that it belongs to.
-/

namespace Pcos

open Foundations

/-- A session is asked for by its code or by its token. -/
def PairingSession.HasKey (s : PairingSession) (key : String) : Prop :=
  key = s.pairingCode ∨ key = s.enrollmentToken

/-- A call of the store. -/
inductive StoreEvent
  | insert (session : PairingSession)
  | remove (id : Uuid)
  | removeByKey (key : String)
  | cleanupExpired (now : ℤ)

namespace PairingStore

/-- `remove_by_key` -/
def removeByKey (st : PairingStore) (key : String) : PairingStore :=
  match st.codeToId.get key <|> st.tokenToId.get key with
  | some id => st.remove id
  | none => st

def serve (st : PairingStore) : StoreEvent → PairingStore
  | .insert session => st.insert session
  | .remove id => st.remove id
  | .removeByKey key => st.removeByKey key
  | .cleanupExpired now => st.cleanupExpired now

/-! ## What the indexes are for -/

/-- Every session is found by both its keys, and a key finds the session that it belongs to. -/
structure Indexed (st : PairingStore) : Prop where
  code : ∀ {i s}, st.sessions.get i = some s → st.getByKey s.pairingCode = some s
  token : ∀ {i s}, st.sessions.get i = some s → st.getByKey s.enrollmentToken = some s
  own : ∀ {key s}, st.getByKey key = some s → s.HasKey key
  other : ∀ {key s i s'}, st.getByKey key = some s → st.sessions.get i = some s' →
    s'.HasKey key → s' = s

/-- The session comes with keys that no other session has; one that is set again keeps its keys. -/
def Fresh (st : PairingStore) (session : PairingSession) : Prop :=
  ∀ i s, st.sessions.get i = some s →
    if i = session.id then
      s.pairingCode = session.pairingCode ∧ s.enrollmentToken = session.enrollmentToken
    else ∀ key, s.HasKey key → ¬session.HasKey key

/-- A session that is inserted is fresh. -/
def FreshInsert (st : PairingStore) : StoreEvent → Prop
  | .insert session => st.Fresh session
  | _ => True

/-! ## The invariant -/

/-- The indexes are those of the sessions, and the code of a session is no other one's token. -/
structure Mirrored (st : PairingStore) : Prop where
  codes : Dict.Mirrors st.sessions PairingSession.pairingCode st.codeToId
  tokens : Dict.Mirrors st.sessions PairingSession.enrollmentToken st.tokenToId
  apart : ∀ {i s i' s'}, st.sessions.get i = some s → st.sessions.get i' = some s' →
    s.pairingCode = s'.enrollmentToken → i = i'

variable {st : PairingStore} {session s : PairingSession} {i : Uuid}

theorem mirrored_new : new.Mirrored where
  codes := .empty
  tokens := .empty
  apart h := by simp [new] at h

theorem Fresh.code_iff (h : st.Fresh session) (hs : st.sessions.get i = some s) :
    s.pairingCode = session.pairingCode ↔ i = session.id := by
  have := h i s hs
  split at this
  · rename_i hi
    exact iff_of_true this.1 hi
  · rename_i hi
    exact iff_of_false (fun heq => this _ (Or.inl rfl) (Or.inl heq)) hi

theorem Fresh.token_iff (h : st.Fresh session) (hs : st.sessions.get i = some s) :
    s.enrollmentToken = session.enrollmentToken ↔ i = session.id := by
  have := h i s hs
  split at this
  · rename_i hi
    exact iff_of_true this.2 hi
  · rename_i hi
    exact iff_of_false (fun heq => this _ (Or.inr rfl) (Or.inr heq)) hi

/-- A key of the fresh session is a key of its own. -/
theorem Fresh.id_of_key (h : st.Fresh session) (hs : st.sessions.get i = some s) {key : String}
    (hkey : s.HasKey key) (hkey' : session.HasKey key) : i = session.id := by
  by_contra hi
  have := h i s hs
  rw [if_neg hi] at this
  exact this key hkey hkey'

namespace Mirrored

theorem insert (h : st.Mirrored) (hfresh : st.Fresh session) : (st.insert session).Mirrored where
  codes := h.codes.set fun _ _ hs => hfresh.code_iff hs
  tokens := h.tokens.set fun _ _ hs => hfresh.token_iff hs
  apart {i s i' s'} hs hs' heq := by
    rw [sessions_insert, Dict.get_set] at hs hs'
    split at hs <;> split at hs'
    · rename_i hi hi'
      rw [hi, hi']
    · rename_i hi _
      obtain rfl := Option.some.inj hs
      exact hi.trans (hfresh.id_of_key hs' (Or.inr heq) (Or.inl rfl)).symm
    · rename_i hi'
      obtain rfl := Option.some.inj hs'
      exact (hfresh.id_of_key hs (Or.inl heq.symm) (Or.inr rfl)).trans hi'.symm
    · exact h.apart hs hs' heq

theorem remove (h : st.Mirrored) (id : Uuid) : (st.remove id).Mirrored := by
  have hget : ∀ {i s}, (st.remove id).sessions.get i = some s → st.sessions.get i = some s := by
    intro i s hs
    rw [get_remove] at hs
    split at hs
    · cases hs
    · exact hs
  refine ⟨?_, ?_, fun hs hs' heq => h.apart (hget hs) (hget hs') heq⟩
  all_goals
    unfold PairingStore.remove
    split
  · rename_i sess hsess
    exact h.codes.delete hsess
  · exact h.codes
  · rename_i sess hsess
    exact h.tokens.delete hsess
  · exact h.tokens

theorem removeByKey (h : st.Mirrored) (key : String) : (st.removeByKey key).Mirrored := by
  unfold PairingStore.removeByKey
  split
  · exact h.remove _
  · exact h

theorem cleanupExpired (h : st.Mirrored) (now : ℤ) : (st.cleanupExpired now).Mirrored :=
  run_invariant (fun _ id h => h.remove id) h _

/-- **Every call keeps the indexes.** -/
theorem serve (h : st.Mirrored) (e : StoreEvent) (hfresh : st.FreshInsert e) :
    (st.serve e).Mirrored := by
  cases e with
  | insert session => exact h.insert hfresh
  | remove id => exact h.remove id
  | removeByKey key => exact h.removeByKey key
  | cleanupExpired now => exact h.cleanupExpired now

/-! ### What a key finds -/

/-- The token of a session is the code of no other. -/
theorem get_code_token (h : st.Mirrored) (hs : st.sessions.get i = some s) {j : Uuid}
    (hj : st.codeToId.get s.enrollmentToken = some j) : j = i := by
  obtain ⟨s', hs', hkey⟩ := (h.codes _ _).mp hj
  exact h.apart hs' hs hkey

theorem getByKey_code (h : st.Mirrored) (hs : st.sessions.get i = some s) :
    st.getByKey s.pairingCode = some s := by
  rw [getByKey, h.codes.get_key hs]
  exact hs

theorem getByKey_token (h : st.Mirrored) (hs : st.sessions.get i = some s) :
    st.getByKey s.enrollmentToken = some s := by
  rw [getByKey, h.tokens.get_key hs]
  cases hcode : st.codeToId.get s.enrollmentToken with
  | none => exact hs
  | some j =>
    obtain rfl := h.get_code_token hs hcode
    exact hs

theorem hasKey_of_getByKey (h : st.Mirrored) {key : String} (hs : st.getByKey key = some s) :
    s.HasKey key := by
  obtain ⟨j, hj, hget⟩ := Option.bind_eq_some_iff.mp hs
  rw [Option.orElse_eq_orElse, Option.orElse_eq_or, Option.or_eq_some_iff] at hj
  rcases hj with hcode | ⟨-, htoken⟩
  · obtain ⟨s', hs', hkey⟩ := (h.codes _ _).mp hcode
    exact Or.inl (Option.some.inj (hget.symm.trans hs') ▸ hkey.symm)
  · obtain ⟨s', hs', hkey⟩ := (h.tokens _ _).mp htoken
    exact Or.inr (Option.some.inj (hget.symm.trans hs') ▸ hkey.symm)

theorem getByKey_of_hasKey (h : st.Mirrored) (hs : st.sessions.get i = some s) {key : String}
    (hkey : s.HasKey key) : st.getByKey key = some s := by
  rcases hkey with rfl | rfl
  · exact h.getByKey_code hs
  · exact h.getByKey_token hs

theorem indexed (h : st.Mirrored) : st.Indexed where
  code hs := h.getByKey_code hs
  token hs := h.getByKey_token hs
  own hs := h.hasKey_of_getByKey hs
  other hs hs' hkey := Option.some.inj ((h.getByKey_of_hasKey hs' hkey).symm.trans hs)

end Mirrored

/-! ## Sessions of new ids -/

/-- A session that is inserted has an id that no stored session has. -/
def NewId (st : PairingStore) : StoreEvent → Prop
  | .insert session => st.sessions.get session.id = none
  | _ => True

/-- Two sessions of one key are not both found by it. -/
theorem Indexed.fresh_of_insert (h : (st.insert session).Indexed)
    (hid : st.sessions.get session.id = none) : st.Fresh session := by
  intro i s hs
  have hi : i ≠ session.id := by
    rintro rfl
    rw [hid] at hs
    cases hs
  rw [if_neg hi]
  intro key hkey hkey'
  have hstored : (st.insert session).sessions.get i = some s := by
    rw [sessions_insert, Dict.get_set, if_neg hi, hs]
  have hnew : (st.insert session).sessions.get session.id = some session := by
    rw [sessions_insert, Dict.get_set, if_pos rfl]
  have hfound : (st.insert session).getByKey key = some session := by
    rcases hkey' with rfl | rfl
    · exact h.code hnew
    · exact h.token hnew
  have heq : s = session := h.other hfound hstored hkey
  exact hi ((st.keyed hs).symm.trans (congrArg PairingSession.id heq))

theorem freshInsert_of_indexed {e : StoreEvent} (h : (st.serve e).Indexed) (hid : st.NewId e) :
    st.FreshInsert e := by
  cases e with
  | insert session => exact h.fresh_of_insert hid
  | remove | removeByKey | cleanupExpired => trivial

theorem along_fresh_of_indexed {es : List StoreEvent}
    (h : ∀ es', es' <+: es → (run serve st es').Indexed) (hid : Along NewId serve st es) :
    Along FreshInsert serve st es := by
  induction es generalizing st with
  | nil => trivial
  | cons e es ih =>
    have hfirst : (st.serve e).Indexed := h [e] ⟨es, rfl⟩
    refine ⟨freshInsert_of_indexed hfirst hid.1, ih (fun es' hes' => ?_) hid.2⟩
    exact h (e :: es') (List.cons_prefix_cons.mpr ⟨rfl, hes'⟩)

/-! ## Runs -/

theorem indexed_of_along {es es' : List StoreEvent} (h : Along FreshInsert serve new es)
    (hes' : es' <+: es) : (run serve new es').Indexed := by
  obtain ⟨rest, rfl⟩ := hes'
  have hrun := (Along.append_iff.mp h).1
  exact (hrun.invariant (fun _ e hst hok => hst.serve e hok) mirrored_new).indexed

/-- **A store whose sessions come with keys of their own finds them by these keys**, after every
call of the run; and where ids are new, no other store does. -/
theorem indexed_throughout (es : List StoreEvent) :
    (Along FreshInsert serve new es → ∀ es', es' <+: es → (run serve new es').Indexed)
    ∧ (Along NewId serve new es → (∀ es', es' <+: es → (run serve new es').Indexed) →
        Along FreshInsert serve new es) :=
  ⟨fun h _ hes' => indexed_of_along h hes', fun hid h => along_fresh_of_indexed h hid⟩

end PairingStore

namespace Sample

def pairing (id user : Uuid) (email code token : String) : PairingSession :=
  ⟨id, user, email, code, token, 300000, .pendingRedeem, 0, none, none⟩

def alicePairing : PairingSession := pairing id1 alice "alice@pcos.local" "123456" "tok_alice"

def bobPairing : PairingSession := pairing id2 bob "bob@pcos.local" "654321" "tok_bob"

/-- The code that was drawn for Alice is drawn once more. -/
def bobSameCode : PairingSession := pairing id2 bob "bob@pcos.local" "123456" "tok_bob"

end Sample

open Sample PairingStore in
/-- Alice's session ends, and Bob's code goes with it. -/
theorem equal_codes_collide :
    ¬(∀ es es', es' <+: es → (run serve new es').Indexed)
    ∧ (run serve new [.insert alicePairing, .insert bobSameCode]).getByKey "123456"
        = some bobSameCode
    ∧ (run serve new [.insert alicePairing, .insert bobSameCode, .remove id1]).getByKey "123456"
        = none := by
  refine ⟨fun h => ?_, by decide, by decide⟩
  have halice := (h _ [.insert alicePairing, .insert bobSameCode] (List.prefix_refl _)).code
    (i := id1) (s := alicePairing) (by decide)
  revert halice
  decide

open Sample PairingStore in
theorem keys_of_their_own :
    (run serve new [.insert alicePairing, .insert bobPairing, .removeByKey "tok_alice"]).Indexed := by
  refine (indexed_throughout [.insert alicePairing, .insert bobPairing, .removeByKey "tok_alice",
    .cleanupExpired 0]).1 ⟨?_, ?_, trivial, trivial, trivial⟩ _ ⟨[.cleanupExpired 0], rfl⟩
  · intro i s hs
    cases hs
  · intro i s hs
    have hs' : (if i = id1 then some alicePairing else none) = some s := by
      rw [← hs]
      exact (Dict.get_set Dict.empty id1 i alicePairing).symm
    split at hs'
    · obtain rfl := Option.some.inj hs'
      rename_i hi
      rw [if_neg (by rw [hi]; decide)]
      rintro key (rfl | rfl) (hkey | hkey) <;> revert hkey <;> decide
    · cases hs'

end Pcos
