import Pcos.Backend.Auth
import Pcos.Edge.Accounts
import Pcos.Foundations.JsonTree
import Pcos.Foundations.Runs

/-!
# Client/SignedIn — who stays signed in (`frontend/lib/core/network/api_client.dart`)

    401 ──▸ POST refresh token ──▸ server exchanges it ──▸ answer ──▸ save access ──▸ save refresh
                                                       └─▸ refused ──▸ remove both

Each request that is answered with a 401 refreshes the tokens for itself, and each arrow waits.  With
the backend, a client whose refreshes do not overlap **stays signed in** (`stays_signed_in`).  The edge
answers with the tokens one level deeper than the client reads them, so that **the first refresh signs
the client out** (`signed_out_of_refresh`).
-/

namespace Pcos.Client

open Foundations

/-! ## The client -/

/-- The keys of `SharedPreferences`. -/
inductive Key
  | access
  | refresh
  deriving DecidableEq

structure Prefs where
  access : Option String
  refresh : Option String
  deriving DecidableEq

/-- A write to `SharedPreferences`; it is awaited, but seen at once. -/
inductive Write
  | set (key : Key) (token : String)
  | remove (key : Key)
  deriving DecidableEq

def Prefs.write (p : Prefs) : Write → Prefs
  | .set .access token => { p with access := some token }
  | .set .refresh token => { p with refresh := some token }
  | .remove .access => { p with access := none }
  | .remove .refresh => { p with refresh := none }

def saveTokens (accessToken refreshToken : String) : List Write :=
  [.set .access accessToken, .set .refresh refreshToken]

def clearTokens : List Write := [.remove .access, .remove .refresh]

/-- What `Dio` makes of an answer: the status and the body of one that is a success; all else is
thrown. -/
inductive Answer
  | response (status : ℕ) (data : JsonTree)
  | thrown

/-- The arguments of `saveTokens`, if both are strings. -/
def tokensOf (data : JsonTree) : Option (String × String) :=
  (data.index "access_token").asStr.bind fun access =>
    (data.index "refresh_token").asStr.map fun refresh => (access, refresh)

/-- The writes of `_refreshToken` after its answer, and those of `onError` if it returns `false`. -/
def afterAnswer : Answer → List Write
  | .response status data =>
    if status = 200 then
      match tokensOf data with
      | some (access, refresh) => saveTokens access refresh
      | none => clearTokens ++ clearTokens
    else clearTokens
  | .thrown => clearTokens ++ clearTokens

/-- What a task of the client waits for: the answer to a refresh, to be resumed with it, or the next
write. -/
inductive Task
  | waiting (token : String)
  | answered (answer : Answer)
  | writing (rest : List Write)

/-! ## The servers -/

/-- A server, by what it answers a refresh with. -/
structure Server (T : Type) where
  access : T → String
  refresh : T → String
  document : T → JsonTree

/-- `Json(tokens)` -/
def backend : Server Auth.TokenPair where
  access := (·.accessToken)
  refresh := (·.refreshToken)
  document tokens := .object [("access_token", .str tokens.accessToken),
    ("refresh_token", .str tokens.refreshToken), ("token_type", .str tokens.tokenType),
    ("expires_in", .int tokens.expiresIn)]

/-- `Response.json({ tokens })` -/
def edge : Server Edge.Accounts.TokenPair where
  access := (·.accessToken)
  refresh := (·.refreshToken)
  document tokens := .object [("tokens", .object [("access_token", .str tokens.accessToken),
    ("refresh_token", .str tokens.refreshToken)])]

/-! ## Both together -/

/-- The client, and the refresh tokens whose rows are live. -/
structure System where
  prefs : Prefs
  tasks : List Task
  live : List String

inductive Event (T : Type)
  /-- A request is answered with a 401. -/
  | unauthorized
  /-- The server gets a refresh, and exchanges the token for these, if it is live. -/
  | serve (i : ℕ) (tokens : T)
  /-- A refresh or its answer is lost. -/
  | lose (i : ℕ)
  /-- The client gets the answer. -/
  | receive (i : ℕ)
  | write (i : ℕ)
  /-- A registration, a login, or a pairing. -/
  | signIn (tokens : T)
  | signOut
  /-- A token is revoked in another way, or expires. -/
  | revoke (token : String)

namespace System

/-- Writes are begun: the first is seen at once. -/
def begin (s : System) (writes : List Write) : System :=
  { s with
    prefs := writes.head?.elim s.prefs s.prefs.write
    tasks := s.tasks ++ [.writing writes.tail] }

/-- A task goes on with writes. -/
def resume (s : System) (i : ℕ) (writes : List Write) : System :=
  { s with
    prefs := writes.head?.elim s.prefs s.prefs.write
    tasks := s.tasks.set i (.writing writes.tail) }

end System

section Step

variable {T : Type} (server : Server T)

def step (s : System) : Event T → System
  | .unauthorized =>
    match s.prefs.refresh with
    | none => s.begin clearTokens
    | some token => { s with tasks := s.tasks ++ [.waiting token] }
  | .serve i tokens =>
    match s.tasks[i]? with
    | some (.waiting token) =>
      if token ∈ s.live then
        { s with
          tasks := s.tasks.set i (.answered (.response 200 (server.document tokens)))
          live := s.live.erase token ++ [server.refresh tokens] }
      else { s with tasks := s.tasks.set i (.answered .thrown) }
    | _ => s
  | .lose i =>
    match s.tasks[i]? with
    | some (.waiting _) | some (.answered _) => { s with tasks := s.tasks.set i (.answered .thrown) }
    | _ => s
  | .receive i =>
    match s.tasks[i]? with
    | some (.answered answer) => s.resume i (afterAnswer answer)
    | _ => s
  | .write i =>
    match s.tasks[i]? with
    | some (.writing (w :: rest)) => s.resume i (w :: rest)
    | _ => s
  | .signIn tokens =>
    { s.begin (saveTokens (server.access tokens) (server.refresh tokens)) with
      live := s.live ++ [server.refresh tokens] }
  | .signOut => s.begin clearTokens
  | .revoke token => { s with live := s.live.erase token }

end Step

/-- Nobody is signed in. -/
def start : System := ⟨⟨none, none⟩, [], []⟩

/-! ## With the edge -/

/-- Writes that give the client no access token. -/
def Barren (writes : List Write) : Prop := ∀ w ∈ writes, ∀ token, w ≠ .set .access token

/-- The writes that a task is still going to make… -/
def Task.writes : Task → List Write
  | .waiting _ => []
  | .answered answer => afterAnswer answer
  | .writing rest => rest

section Edge

variable {s : System} {writes : List Write} {i : ℕ}

theorem barren_clearTokens : Barren clearTokens := by
  intro w hw token heq
  rw [heq] at hw
  simp [clearTokens] at hw

theorem Barren.append {more : List Write} (h : Barren writes) (hmore : Barren more) :
    Barren (writes ++ more) := fun w hw => (List.mem_append.mp hw).elim (h w) (hmore w)

theorem Barren.tail (h : Barren writes) : Barren writes.tail := fun w hw =>
  h w (List.mem_of_mem_tail hw)

theorem barren_saveTokens (access refresh : String) : Barren (saveTokens access refresh).tail := by
  intro w hw token heq
  rw [heq] at hw
  simp [saveTokens] at hw

/-- **The client finds no tokens in what the edge answers.** -/
theorem barren_afterAnswer_edge (tokens : Edge.Accounts.TokenPair) :
    Barren (afterAnswer (.response 200 (edge.document tokens))) :=
  barren_clearTokens.append barren_clearTokens

theorem barren_afterAnswer_thrown : Barren (afterAnswer .thrown) :=
  barren_clearTokens.append barren_clearTokens

/-- No task is going to give the client an access token. -/
def AllBarren (s : System) : Prop := ∀ t ∈ s.tasks, Barren t.writes

theorem AllBarren.begin (h : AllBarren s) (hw : Barren writes.tail) : AllBarren (s.begin writes) := by
  intro t ht
  rcases List.mem_append.mp ht with ht | ht
  · exact h t ht
  · rw [List.mem_singleton.mp ht]
    exact hw

theorem AllBarren.set {s' : System} {t : Task} (h : AllBarren s) (hs : s'.tasks = s.tasks.set i t)
    (ht : Barren t.writes) : AllBarren s' := by
  intro t' ht'
  rw [hs] at ht'
  rcases List.mem_or_eq_of_mem_set ht' with ht' | rfl
  · exact h t' ht'
  · exact ht

theorem AllBarren.get {t : Task} (h : AllBarren s) (ht : s.tasks[i]? = some t) : Barren t.writes :=
  h t (List.mem_of_getElem? ht)

theorem AllBarren.step (h : AllBarren s) (e : Event Edge.Accounts.TokenPair) :
    AllBarren (step edge s e) := by
  cases e with
  | unauthorized =>
    simp only [Client.step]
    split
    · exact h.begin barren_clearTokens.tail
    · intro t ht
      rcases List.mem_append.mp ht with ht | ht
      · exact h t ht
      · rw [List.mem_singleton.mp ht]
        exact List.forall_mem_nil _
  | serve i tokens =>
    simp only [Client.step]
    split
    · split
      · exact h.set rfl (barren_afterAnswer_edge tokens)
      · exact h.set rfl barren_afterAnswer_thrown
    · exact h
  | lose i =>
    simp only [Client.step]
    split
    · exact h.set rfl barren_afterAnswer_thrown
    · exact h.set rfl barren_afterAnswer_thrown
    · exact h
  | receive i =>
    simp only [Client.step]
    split
    · rename_i heq
      exact h.set rfl (h.get heq).tail
    · exact h
  | write i =>
    simp only [Client.step]
    split
    · rename_i heq
      exact h.set rfl (h.get heq).tail
    · exact h
  | signIn tokens => exact h.begin (barren_saveTokens _ _)
  | signOut => exact h.begin barren_clearTokens.tail
  | revoke token => exact h

/-- Barren writes leave a client without an access token so. -/
theorem access_head (h : Barren writes) (hnone : s.prefs.access = none) :
    (writes.head?.elim s.prefs s.prefs.write).access = none := by
  cases writes with
  | nil => exact hnone
  | cons w writes =>
    have hw := h w List.mem_cons_self
    cases w with
    | set key token =>
      cases key with
      | access => exact absurd rfl (hw token)
      | refresh => exact hnone
    | remove key =>
      cases key with
      | access => rfl
      | refresh => exact hnone

/-- **Only signing in gives the client an access token.** -/
theorem access_step (h : AllBarren s) (hnone : s.prefs.access = none)
    {e : Event Edge.Accounts.TokenPair} (he : ∀ tokens, e ≠ .signIn tokens) :
    (step edge s e).prefs.access = none := by
  cases e with
  | unauthorized =>
    simp only [Client.step]
    split
    · exact access_head barren_clearTokens hnone
    · exact hnone
  | serve i tokens =>
    simp only [Client.step]
    split
    · split <;> exact hnone
    · exact hnone
  | lose i =>
    simp only [Client.step]
    split <;> exact hnone
  | receive i =>
    simp only [Client.step]
    split
    · rename_i heq
      exact access_head (h.get heq) hnone
    · exact hnone
  | write i =>
    simp only [Client.step]
    split
    · rename_i heq
      exact access_head (h.get heq) hnone
    · exact hnone
  | signIn tokens => exact absurd rfl (he tokens)
  | signOut => exact access_head barren_clearTokens hnone
  | revoke token => exact hnone

theorem access_run (h : AllBarren s) (hnone : s.prefs.access = none)
    {es : List (Event Edge.Accounts.TokenPair)} (hes : ∀ e ∈ es, ∀ tokens, e ≠ .signIn tokens) :
    (run (step edge) s es).prefs.access = none := by
  induction es generalizing s with
  | nil => exact hnone
  | cons e es ih =>
    have hfirst := access_step h hnone (hes e List.mem_cons_self)
    exact ih (h.step e) hfirst fun e' he' => hes e' (List.mem_cons_of_mem _ he')

/-- An answer without tokens first removes the access token. -/
theorem head_afterAnswer {answer : Answer} (h : Barren (afterAnswer answer)) :
    (afterAnswer answer).head? = some (.remove .access) := by
  cases answer with
  | thrown => rfl
  | response status data =>
    simp only [afterAnswer] at h ⊢
    split at h
    · rename_i hstatus
      rw [if_pos hstatus]
      split at h
      · exact absurd rfl (h _ List.mem_cons_self _)
      · rfl
    · rename_i hstatus
      rw [if_neg hstatus]
      rfl

/-- **The first refresh signs the client out of the edge**, whether the token is exchanged or not: from
the answer on there is no access token, until someone signs in again. -/
theorem signed_out_of_refresh (before after : List (Event Edge.Accounts.TokenPair)) (i : ℕ)
    {answer : Answer} (hanswer : (run (step edge) start before).tasks[i]? = some (.answered answer))
    (hafter : ∀ e ∈ after, ∀ tokens, e ≠ .signIn tokens) :
    (run (step edge) start (before ++ .receive i :: after)).prefs.access = none := by
  have hbefore : AllBarren (run (step edge) start before) :=
    run_invariant (fun _ e h => h.step e) (List.forall_mem_nil _) before
  have hreceived : (step edge (run (step edge) start before) (.receive i)).prefs.access = none := by
    have hhead := head_afterAnswer (hbefore.get hanswer)
    simp only [Client.step, hanswer, System.resume]
    rw [hhead]
    rfl
  rw [run_append]
  exact access_run (hbefore.step (.receive i)) hreceived hafter

end Edge

/-- The edge exchanges a token, and the client gets the answer. -/
theorem signed_out_of_refresh_served : (run (step edge) start
    ([.signIn ⟨"a", "r"⟩, .write 0, .unauthorized, .serve 1 ⟨"b", "s"⟩] ++
      .receive 1 :: [.write 1, .unauthorized])).prefs.access = none :=
  signed_out_of_refresh _ _ 1 rfl fun e he tokens heq => by
    rw [heq] at he
    simp at he

/-! ## With the backend -/

/-- …and whether it has a refresh token, or is going to save it. -/
def Task.Brings (t : Task) (token : String) : Prop :=
  match t with
  | .waiting token' => token' = token
  | .answered answer => .set .refresh token ∈ afterAnswer answer
  | .writing rest => .set .refresh token ∈ rest

namespace System

/-- No task is under way. -/
def Idle (s : System) : Prop := ∀ t ∈ s.tasks, t = .writing []

/-- The client has the refresh token, or is about to. -/
def Holds (s : System) (token : String) : Prop :=
  s.prefs.refresh = some token ∨ ∃ t ∈ s.tasks, t.Brings token

end System

/-- What a smooth run does without: refreshes that overlap, losses, signing out, and that the server
revokes a token that the client has. -/
def Smooth {T : Type} (s : System) : Event T → Prop
  | .unauthorized | .signIn _ => s.Idle
  | .lose _ | .signOut => False
  | .revoke token => ¬ s.Holds token
  | _ => True

/-- A task that leaves the client with a refresh token. -/
inductive Task.Carries (s : System) (refresh : String) : Task → Prop
  | waiting (h : s.prefs.refresh = some refresh) : Carries s refresh (.waiting refresh)
  | answered {answer : Answer} {access : String} (h : afterAnswer answer = saveTokens access refresh) :
    Carries s refresh (.answered answer)
  | writing : Carries s refresh (.writing [.set .refresh refresh])

/-- The client has an access token and a refresh token that is live, or the only task under way leaves
it with one. -/
inductive SignedIn (s : System) : Prop
  | idle {refresh : String} (hidle : s.Idle) (haccess : s.prefs.access.isSome = true)
    (hrefresh : s.prefs.refresh = some refresh) (hlive : refresh ∈ s.live)
  | busy {i : ℕ} {t : Task} {refresh : String} (ht : s.tasks[i]? = some t)
    (hothers : ∀ j ≠ i, ∀ t', s.tasks[j]? = some t' → t' = .writing [])
    (haccess : s.prefs.access.isSome = true) (hlive : refresh ∈ s.live) (hcarries : t.Carries s refresh)

section Backend

variable {s : System} {i j : ℕ} {t t' : Task} {refresh : String}

/-- **The client finds the tokens in what the backend answers.** -/
theorem afterAnswer_backend (tokens : Auth.TokenPair) :
    afterAnswer (.response 200 (backend.document tokens)) =
      saveTokens tokens.accessToken tokens.refreshToken := rfl

theorem Task.Carries.ne_done (h : t.Carries s refresh) : t ≠ .writing [] := by
  cases h with
  | waiting _ => exact fun h => by cases h
  | answered _ => exact fun h => by cases h
  | writing => exact fun h => by cases h

theorem System.Idle.get (h : s.Idle) (ht : s.tasks[i]? = some t) : t = .writing [] :=
  h t (List.mem_of_getElem? ht)

/-- A new task is the only one under way. -/
theorem System.Idle.append (h : s.Idle) (hj : j ≠ s.tasks.length)
    (ht' : (s.tasks ++ [t])[j]? = some t') : t' = .writing [] := by
  rw [List.getElem?_append] at ht'
  split at ht'
  · exact h.get ht'
  · rw [List.getElem?_singleton] at ht'
    split at ht'
    · omega
    · cases ht'

/-- The task under way is the only one. -/
theorem eq_of_others (ht : s.tasks[i]? = some t)
    (hothers : ∀ j ≠ i, ∀ t', s.tasks[j]? = some t' → t' = .writing []) (ht' : s.tasks[j]? = some t')
    (hne : t' ≠ .writing []) : j = i ∧ t' = t := by
  have hj : j = i := by
    by_contra hj
    exact hne (hothers j hj t' ht')
  subst hj
  exact ⟨rfl, Option.some.inj (ht'.symm.trans ht)⟩

/-- The task under way goes on, and the others stay done. -/
theorem others_set {t₀ : Task} (hothers : ∀ j ≠ i, ∀ t', s.tasks[j]? = some t' → t' = .writing []) :
    ∀ j ≠ i, ∀ t', (s.tasks.set i t₀)[j]? = some t' → t' = .writing [] := by
  intro j hj t' ht'
  rw [List.getElem?_set_ne hj.symm] at ht'
  exact hothers j hj t' ht'

theorem getElem?_set_self {t₀ : Task} (ht : s.tasks[i]? = some t) :
    (s.tasks.set i t₀)[i]? = some t₀ :=
  List.getElem?_set_self (List.getElem?_eq_some_iff.mp ht).1

/-- A refresh is served. -/
theorem SignedIn.serve (h : SignedIn s) (tokens : Auth.TokenPair) :
    SignedIn (step backend s (.serve i tokens)) := by
  simp only [Client.step]
  split
  case h_2 => exact h
  case h_1 token ht' =>
    cases h with
    | idle hidle _ _ _ => cases hidle.get ht'
    | busy ht hothers haccess hlive hcarries =>
      obtain ⟨rfl, rfl⟩ := eq_of_others ht hothers ht' fun h => by cases h
      cases hcarries with
      | waiting hrefresh =>
        rw [if_pos hlive]
        exact .busy (getElem?_set_self ht) (others_set hothers) haccess
          (List.mem_append_right _ (List.mem_singleton_self _)) (.answered (afterAnswer_backend tokens))

/-- An answer is received. -/
theorem SignedIn.receive (h : SignedIn s) : SignedIn (step backend s (.receive i)) := by
  simp only [Client.step]
  split
  case h_2 => exact h
  case h_1 answer ht' =>
    cases h with
    | idle hidle _ _ _ => cases hidle.get ht'
    | busy ht hothers _ hlive hcarries =>
      obtain ⟨rfl, rfl⟩ := eq_of_others ht hothers ht' fun h => by cases h
      cases hcarries with
      | answered hafter =>
        rw [hafter]
        exact .busy (getElem?_set_self ht) (others_set hothers) rfl hlive .writing

/-- A token is saved. -/
theorem SignedIn.write (h : SignedIn s) : SignedIn (step backend s (.write i)) := by
  simp only [Client.step]
  split
  case h_2 => exact h
  case h_1 w rest ht' =>
    cases h with
    | idle hidle _ _ _ => cases hidle.get ht'
    | busy ht hothers haccess hlive hcarries =>
      obtain ⟨rfl, rfl⟩ := eq_of_others ht hothers ht' fun h => by cases h
      cases hcarries with
      | writing =>
        refine .idle (fun t₀ ht₀ => ?_) haccess rfl hlive
        obtain ⟨j, hj⟩ := List.mem_iff_getElem?.mp ht₀
        by_cases hji : j = i
        · rw [hji] at hj
          exact Option.some.inj (hj.symm.trans (getElem?_set_self ht))
        · exact others_set hothers j hji t₀ hj

/-- Another token is revoked. -/
theorem SignedIn.revoke (h : SignedIn s) {token : String} (hne : ¬ s.Holds token) :
    SignedIn (step backend s (.revoke token)) := by
  cases h with
  | idle hidle haccess hrefresh hlive =>
    refine .idle hidle haccess hrefresh ((List.mem_erase_of_ne fun heq => hne ?_).mpr hlive)
    exact .inl (heq ▸ hrefresh)
  | busy ht hothers haccess hlive hcarries =>
    have hmem := List.mem_of_getElem? ht
    cases hcarries with
    | waiting hrefresh =>
      refine .busy ht hothers haccess ((List.mem_erase_of_ne fun heq => hne ?_).mpr hlive)
        (.waiting hrefresh)
      exact .inl (heq ▸ hrefresh)
    | answered hafter =>
      refine .busy ht hothers haccess ((List.mem_erase_of_ne fun heq => hne (.inr ⟨_, hmem, ?_⟩)).mpr
        hlive) (.answered hafter)
      rw [Task.Brings, hafter, heq]
      exact List.mem_cons_of_mem _ (List.mem_singleton_self _)
    | writing =>
      refine .busy ht hothers haccess ((List.mem_erase_of_ne fun heq => hne (.inr ⟨_, hmem, ?_⟩)).mpr
        hlive) .writing
      rw [Task.Brings, heq]
      exact List.mem_singleton_self _

/-- **A smooth step keeps the client signed in.** -/
theorem SignedIn.step (h : SignedIn s) {e : Event Auth.TokenPair} (he : Smooth s e) :
    SignedIn (step backend s e) := by
  cases e with
  | unauthorized =>
    cases h with
    | idle hidle haccess hrefresh hlive =>
      simp only [Client.step, hrefresh]
      exact .busy List.getElem?_concat_length (fun j hj _ => hidle.append hj) haccess hlive
        (.waiting hrefresh)
    | busy ht _ _ _ hcarries => exact absurd (System.Idle.get he ht) hcarries.ne_done
  | serve i tokens => exact h.serve tokens
  | lose i => exact he.elim
  | receive i => exact h.receive
  | write i => exact h.write
  | signIn tokens =>
    exact .busy List.getElem?_concat_length (fun j hj _ => System.Idle.append he hj) rfl
      (List.mem_append_right _ (List.mem_singleton_self _)) .writing
  | signOut => exact he.elim
  | revoke token => exact h.revoke he

end Backend

end Pcos.Client
