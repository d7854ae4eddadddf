import Pcos.Edge.PresenceHub

/-!
# Edge/Tunnel — many requests over one tunnel

Responses, timers and failed sends remove and resolve through one map.  Seen from one request, all
they amount to is a `Life`:

    racing ──own message │ own timer──▸ won ──resumes──▸ answered

`Follows` reads the life off the hub, and every event moves it on as `Life.next` says
(`Follows.step`).  So **each request that was sent is answered once, with the first message that
carries its id or with the timeout** (`multiplexed`).
-/

namespace Pcos.Edge

open Foundations

/-! ## The life of one request -/

inductive Life
  | racing
  | won (agentResult : Json)
  | answered (agentResult : Json)

namespace PresenceEvent

/-- The message of the event, if it carries the id. -/
def carries (id : String) : PresenceEvent → Option Json
  | .receives _ (some data) => if data.requestId = some id then some data else none
  | _ => none

/-- The result that the event gives the call of that number and id, while it waits. -/
def settles (call : ℕ) (id : String) (e : PresenceEvent) : Option Json :=
  match e with
  | .expires call' => if call' = call then some (timeoutResult id) else none
  | e => e.carries id

/-- The handler of the call goes on. -/
def isResume (call : ℕ) : PresenceEvent → Bool
  | .resumes call' => call' = call
  | _ => false

end PresenceEvent

namespace Life

def next (call : ℕ) (id : String) : Life → PresenceEvent → Life
  | .racing, e => ((e.settles call id).map .won).getD .racing
  | .won r, e => if e.isResume call then .answered r else .won r
  | .answered r, _ => .answered r

def waiting : Life → Waiting
  | .racing => .racing
  | .won r => .won r
  | .answered _ => .done

/-- What the map holds for the call. -/
def pending (call : ℕ) : Life → Option ℕ
  | .racing => some call
  | _ => none

def answers : Life → List FsAnswer
  | .answered r => [respond r]
  | _ => []

/-- The result, once there is one. -/
def result : Life → Option Json
  | .racing => none
  | .won r => some r
  | .answered r => some r

variable {call : ℕ} {id : String}

theorem result_next (l : Life) (e : PresenceEvent) :
    (l.next call id e).result = l.result.or (e.settles call id) := by
  rcases l with _ | r | r
  · simp only [next, result, Option.none_or]
    rcases e.settles call id with _ | r
    · rfl
    · rfl
  · by_cases he : e.isResume call = true
    · simp only [next, if_pos he, result, Option.some_or]
    · simp only [next, if_neg he, result, Option.some_or]
  · rfl

/-- The result of a life is the first that settles it. -/
theorem result_run (l : Life) (es : List PresenceEvent) :
    (run (next call id) l es).result = l.result.or (es.findSome? (·.settles call id)) := by
  induction es generalizing l with
  | nil => exact (Option.or_none).symm
  | cons e es ih =>
    have hrun : run (next call id) l (e :: es) = run (next call id) (l.next call id e) es := rfl
    rw [hrun, ih, result_next, Option.or_assoc, List.findSome?_cons]
    rcases e.settles call id with _ | r
    · rfl
    · rfl

/-- Where there is an answer, it stays. -/
theorem run_answered (r : Json) (es : List PresenceEvent) :
    run (next call id) (.answered r) es = .answered r := by
  induction es with
  | nil => rfl
  | cons e es ih => exact ih

/-- Once the handler goes on with a result, there is an answer. -/
theorem exists_answered (l : Life) (hl : l.result ≠ none) (es : List PresenceEvent) :
    ∃ r, run (next call id) l (.resumes call :: es) = .answered r := by
  rcases l with _ | r | r
  · exact absurd rfl hl
  · refine ⟨r, ?_⟩
    have hnext : run (next call id) (.won r) (.resumes call :: es) =
        run (next call id) (.answered r) es := by
      simp only [run, List.foldl_cons, next, PresenceEvent.isResume, decide_true, if_true]
    rw [hnext, run_answered]
  · exact ⟨r, run_answered r _⟩

end Life

/-- What settles a call is the first message that carries its id, or its timer. -/
theorem settles_or {call : ℕ} {id : String} {es : List PresenceEvent} {r : Json}
    (h : es.findSome? (·.settles call id) = some r) :
    es.findSome? (·.carries id) = some r ∨ r = timeoutResult id ∧ .expires call ∈ es := by
  induction es with
  | nil => cases h
  | cons e es ih =>
    rw [List.findSome?_cons] at h ⊢
    by_cases htimer : e = .expires call
    · subst htimer
      simp only [PresenceEvent.settles, if_true, Option.some.injEq] at h
      exact Or.inr ⟨h.symm, List.mem_cons_self⟩
    · have hcarries : e.settles call id = e.carries id := by
        cases e with
        | expires call' =>
          have hne : call' ≠ call := fun heq => htimer (heq ▸ rfl)
          simp only [PresenceEvent.settles, if_neg hne, PresenceEvent.carries]
        | connects deviceId => rfl
        | closes socket => rfl
        | receives socket data => rfl
        | proxies body requestId sendError => rfl
        | resumes call' => rfl
        | disconnects deviceId => rfl
      rw [hcarries] at h
      rcases hfound : e.carries id with _ | r'
      · rw [hfound] at h
        exact (ih h).imp_right (And.imp_right (List.mem_cons_of_mem _))
      · rw [hfound] at h
        exact Or.inl h

/-! ## The hub, seen from one request -/

namespace PresenceHub

variable {h h' : PresenceHub} {call other : ℕ} {waiting : Waiting} {r : Json}

theorem calls_setWaiting (m : ℕ) :
    (h.setWaiting call waiting).calls[m]? =
      if call = m then h.calls[m]?.map fun c => { c with waiting := waiting } else h.calls[m]? := by
  rw [setWaiting, List.getElem?_modify]
  split
  · rfl
  · exact Option.map_id'

theorem resolve_calls_of_ne (hne : other ≠ call) :
    (h.resolve other r).calls[call]? = h.calls[call]? := by
  unfold resolve
  split
  · rw [calls_setWaiting, if_neg hne]
  · rfl

theorem ids_setWaiting (m : ℕ) :
    (h.setWaiting call waiting).calls[m]?.map ProxyCall.requestId =
      h.calls[m]?.map ProxyCall.requestId := by
  rw [calls_setWaiting]
  split
  · rw [Option.map_map]
    rfl
  · rfl

theorem ids_resolve (m : ℕ) :
    (h.resolve call r).calls[m]?.map ProxyCall.requestId =
      h.calls[m]?.map ProxyCall.requestId := by
  unfold resolve
  split
  · exact ids_setWaiting m
  · rfl

theorem pendingRequests_resolve : (h.resolve call r).pendingRequests = h.pendingRequests := by
  unfold resolve
  split
  · rfl
  · rfl

theorem answers_resolve : (h.resolve call r).answers = h.answers := by
  unfold resolve
  split
  · rfl
  · rfl

/-- The hub holds for the call what its life says. -/
structure Follows (h : PresenceHub) (call : ℕ) (id : String) (l : Life) : Prop where
  stands : ∃ deviceId, h.calls[call]? = some ⟨id, deviceId, l.waiting⟩
  pending : h.pendingRequests.get id = l.pending call
  own : ∀ id', h.pendingRequests.get id' = some call → id' = id
  unique : ∀ c m, h.calls[m]? = some c → c.requestId = id → m = call
  answers : h.answersOf call = l.answers

variable {id : String} {l : Life}

/-- What happens to the others is nothing to the call. -/
theorem Follows.frame (hf : h.Follows call id l) (hcall : h'.calls[call]? = h.calls[call]?)
    (hpending : h'.pendingRequests.get id = h.pendingRequests.get id)
    (hown : ∀ id', h'.pendingRequests.get id' = some call → h.pendingRequests.get id' = some call)
    (hids : ∀ m : ℕ, h'.calls[m]?.map ProxyCall.requestId = h.calls[m]?.map ProxyCall.requestId)
    (hanswers : h'.answersOf call = h.answersOf call) : h'.Follows call id l where
  stands := by rw [hcall]; exact hf.stands
  pending := hpending.trans hf.pending
  own id' hid' := hf.own id' (hown id' hid')
  unique c m hm hid := by
    have hsome : h.calls[m]?.map ProxyCall.requestId = some id := by
      rw [← hids m, hm, Option.map_some, hid]
    obtain ⟨c', hc', hid'⟩ := Option.map_eq_some_iff.mp hsome
    exact hf.unique c' m hc' hid'
  answers := hanswers.trans hf.answers

/-- The call's own race is won. -/
theorem Follows.resolve (hf : h.Follows call id .racing) (r : Json) :
    ({ h with pendingRequests := h.pendingRequests.delete id }.resolve call r).Follows call id
      (.won r) := by
  obtain ⟨deviceId, hcall⟩ := hf.stands
  have hresolve : { h with pendingRequests := h.pendingRequests.delete id }.resolve call r =
      { h with pendingRequests := h.pendingRequests.delete id }.setWaiting call (.won r) := by
    rw [PresenceHub.resolve, hcall]
    rfl
  refine ⟨⟨deviceId, ?_⟩, ?_, fun id' hid' => ?_, fun c m hm hid => ?_, hresolve ▸ hf.answers⟩
  · rw [hresolve, calls_setWaiting, if_pos rfl, hcall]
    rfl
  · rw [pendingRequests_resolve, Dict.get_delete, if_pos rfl]
    rfl
  · rw [pendingRequests_resolve, Dict.get_delete] at hid'
    split at hid'
    · cases hid'
    · exact hf.own id' hid'
  · have hsome := congrArg (Option.map ProxyCall.requestId) hm
    rw [ids_resolve, Option.map_some, hid] at hsome
    obtain ⟨c', hc', hid'⟩ := Option.map_eq_some_iff.mp hsome
    exact hf.unique c' m hc' hid'

/-- The race of another call is won. -/
theorem Follows.resolve_other (hf : h.Follows call id l) {id' : String} (hid : id' ≠ id)
    (hne : other ≠ call) (r : Json) :
    ({ h with pendingRequests := h.pendingRequests.delete id' }.resolve other r).Follows call id
      l := by
  refine hf.frame (resolve_calls_of_ne hne) ?_ (fun id'' hid'' => ?_) ids_resolve ?_
  · rw [pendingRequests_resolve, Dict.get_delete, if_neg hid.symm]
  · rw [pendingRequests_resolve, Dict.get_delete] at hid''
    split at hid''
    · cases hid''
    · exact hid''
  · rw [answersOf, answers_resolve, answersOf]

/-- No id is taken twice: `crypto.randomUUID` gives distinct values. -/
def FreshId (h : PresenceHub) : PresenceEvent → Prop
  | .proxies _ requestId _ => ∀ c ∈ h.calls, c.requestId ≠ requestId
  | _ => True

instance FreshId.decidable (h : PresenceHub) : ∀ e, Decidable (h.FreshId e)
  | .proxies _ requestId _ => inferInstanceAs (Decidable (∀ c ∈ h.calls, c.requestId ≠ requestId))
  | .connects _ => isTrue trivial
  | .closes _ => isTrue trivial
  | .receives _ _ => isTrue trivial
  | .expires _ => isTrue trivial
  | .resumes _ => isTrue trivial
  | .disconnects _ => isTrue trivial

/-- An event that leaves calls, map and answers as they are. -/
theorem Follows.quiet (hf : h.Follows call id l) (hcalls : h'.calls = h.calls)
    (hpending : h'.pendingRequests = h.pendingRequests) (hanswers : h'.answers = h.answers) :
    h'.Follows call id l :=
  hf.frame (by rw [hcalls]) (by rw [hpending]) (fun id' hid' => hpending ▸ hid')
    (fun m => by rw [hcalls]) (by rw [answersOf, hanswers, answersOf])

theorem next_of_settles_eq_none {e : PresenceEvent} (hsettles : e.settles call id = none)
    (hresume : e.isResume call = false) : l.next call id e = l := by
  rcases l with _ | r | r
  · simp only [Life.next, hsettles, Option.map_none, Option.getD_none]
  · simp only [Life.next, hresume, Bool.false_eq_true, if_false]
  · rfl

/-- A message. -/
theorem Follows.receive (hf : h.Follows call id l) (socket : ℕ) (data : Option Json) :
    (h.receive data).Follows call id (l.next call id (.receives socket data)) := by
  rcases data with _ | data
  · rwa [next_of_settles_eq_none rfl rfl]
  have hsettles : (PresenceEvent.receives socket (some data)).settles call id =
      if data.requestId = some id then some data else none := rfl
  simp only [PresenceHub.receive]
  rcases hid : data.requestId with _ | id'
  · rwa [next_of_settles_eq_none (by rw [hsettles, hid]; rfl) rfl]
  by_cases hown : id' = id
  · subst hown
    dsimp only
    rw [hf.pending]
    rcases l with _ | r | r
    · simp only [Life.pending, Life.next, hsettles, hid, if_true, Option.map_some, Option.getD_some]
      exact hf.resolve data
    · exact hf
    · exact hf
  · rw [next_of_settles_eq_none
      (by rw [hsettles, hid, if_neg fun heq => hown (Option.some.inj heq)]) rfl]
    dsimp only
    rcases hother : h.pendingRequests.get id' with _ | other
    · exact hf
    · have hne : other ≠ call := fun heq => hown (hf.own id' (heq ▸ hother))
      exact hf.resolve_other hown hne data

/-- A timer. -/
theorem Follows.expire (hf : h.Follows call id l) (other : ℕ) :
    (h.expire other).Follows call id (l.next call id (.expires other)) := by
  unfold PresenceHub.expire
  by_cases hown : other = call
  · subst hown
    obtain ⟨deviceId, hcall⟩ := hf.stands
    rw [hcall]
    simp only [Dict.has, hf.pending]
    rcases l with _ | r | r
    · simp only [Life.pending, Option.isSome_some, if_true, Life.next, PresenceEvent.settles,
        Option.map_some, Option.getD_some]
      exact hf.resolve _
    · exact hf
    · exact hf
  · rw [next_of_settles_eq_none (by simp only [PresenceEvent.settles, if_neg hown]) rfl]
    rcases hother : h.calls[other]? with _ | c
    · exact hf
    · have hid : c.requestId ≠ id := fun hid => hown (hf.unique c other hother hid)
      dsimp only
      split
      · exact hf.resolve_other hid hown _
      · exact hf

theorem answersOf_append {answer : FsAnswer} (hanswers : h'.answers = h.answers ++ [(other, answer)]) :
    h'.answersOf call = h.answersOf call ++ if other = call then [answer] else [] := by
  unfold answersOf
  rw [hanswers, List.filter_append, List.map_append]
  by_cases heq : other = call
  · simp [heq]
  · simp [heq]

/-- The handler goes on. -/
theorem Follows.resume (hf : h.Follows call id l) (other : ℕ) :
    (h.resume other).Follows call id (l.next call id (.resumes other)) := by
  unfold PresenceHub.resume
  by_cases hown : other = call
  · subst hown
    obtain ⟨deviceId, hcall⟩ := hf.stands
    rw [hcall]
    rcases l with _ | r | r
    · exact hf
    · simp only [Life.next, PresenceEvent.isResume, decide_true, if_true, Option.map_some,
        Life.waiting]
      refine ⟨⟨deviceId, ?_⟩, hf.pending, hf.own, fun c m hm hid => ?_, ?_⟩
      · change (h.setWaiting other .done).calls[other]? = _
        rw [calls_setWaiting, if_pos rfl, hcall]
        rfl
      · have hsome := congrArg (Option.map ProxyCall.requestId) hm
        change (h.setWaiting other .done).calls[m]?.map _ = _ at hsome
        rw [ids_setWaiting, Option.map_some, hid] at hsome
        obtain ⟨c', hc', hid'⟩ := Option.map_eq_some_iff.mp hsome
        exact hf.unique c' m hc' hid'
      · rw [answersOf_append rfl, hf.answers, if_pos rfl]
        rfl
    · exact hf
  · have hresume : (PresenceEvent.resumes other).isResume call = false := decide_eq_false hown
    rw [next_of_settles_eq_none rfl hresume]
    split
    · refine hf.frame ?_ rfl (fun _ h => h) ids_setWaiting ?_
      · change (h.setWaiting other .done).calls[call]? = _
        rw [calls_setWaiting, if_neg hown]
      · rw [answersOf_append rfl, if_neg hown, List.append_nil]
    · exact hf

theorem lt_of_get {c : ProxyCall} (hcall : h.calls[call]? = some c) : call < h.calls.length :=
  (List.getElem?_eq_some_iff.mp hcall).1

/-- Another request comes in. -/
theorem Follows.proxy (hf : h.Follows call id l) {body : FsRequest} {requestId : String}
    {sendError : Option String} (hfresh : h.FreshId (.proxies body requestId sendError)) :
    (h.proxy body requestId sendError).1.Follows call id l := by
  obtain ⟨deviceId, hcall⟩ := hf.stands
  have hlt : call < h.calls.length := lt_of_get hcall
  have hid : requestId ≠ id := fun heq =>
    hfresh _ (List.mem_of_getElem? hcall) heq.symm
  have hunique : ∀ (waiting : Waiting) (c : ProxyCall) (m : ℕ),
      (h.calls ++ [⟨requestId, body.deviceId, waiting⟩])[m]? = some c → c.requestId = id →
        m = call := by
    intro waiting c m hm hcid
    rw [List.getElem?_append] at hm
    split at hm
    · exact hf.unique c m hm hcid
    · rw [List.getElem?_singleton] at hm
      split at hm
      · obtain rfl := Option.some.inj hm
        exact absurd hcid hid
      · cases hm
  unfold PresenceHub.proxy
  split
  · exact hf
  split
  · refine ⟨⟨deviceId, ?_⟩, ?_, fun id' hid' => ?_, hunique _, ?_⟩
    · exact (List.getElem?_append_left hlt).trans hcall
    · rw [Dict.get_delete, if_neg hid.symm, Dict.get_set, if_neg hid.symm]
      exact hf.pending
    · rw [Dict.get_delete] at hid'
      split at hid'
      · cases hid'
      · rename_i hne
        rw [Dict.get_set, if_neg hne] at hid'
        exact hf.own id' hid'
    · rw [answersOf_append rfl, if_neg (Nat.ne_of_gt hlt), List.append_nil]
      exact hf.answers
  · refine ⟨⟨deviceId, ?_⟩, ?_, fun id' hid' => ?_, hunique _, hf.answers⟩
    · exact (List.getElem?_append_left hlt).trans hcall
    · rw [Dict.get_set, if_neg hid.symm]
      exact hf.pending
    · rw [Dict.get_set] at hid'
      split at hid'
      · exact absurd (Option.some.inj hid') (Nat.ne_of_gt hlt)
      · exact hf.own id' hid'

/-- **Every event moves the call on as its life says.** -/
theorem Follows.step (hf : h.Follows call id l) {e : PresenceEvent} (hfresh : h.FreshId e) :
    (h.step e).Follows call id (l.next call id e) := by
  cases e with
  | receives socket data => exact hf.receive socket data
  | expires other => exact hf.expire other
  | resumes other => exact hf.resume other
  | proxies body requestId sendError =>
    rw [next_of_settles_eq_none rfl rfl]
    exact hf.proxy hfresh
  | connects deviceId =>
    rw [next_of_settles_eq_none rfl rfl]
    simp only [PresenceHub.step, connect]
    split
    · exact hf
    · exact hf.quiet rfl rfl rfl
  | closes socket =>
    rw [next_of_settles_eq_none rfl rfl]
    simp only [PresenceHub.step, close]
    split
    · exact hf
    split
    · exact hf
    · exact hf.quiet rfl rfl rfl
  | disconnects deviceId =>
    rw [next_of_settles_eq_none rfl rfl]
    simp only [PresenceHub.step, disconnect]
    split
    · exact hf
    · exact hf.quiet rfl rfl rfl

theorem Follows.run (hf : h.Follows call id l) {es : List PresenceEvent}
    (h' : Along FreshId PresenceHub.step h es) :
    (Foundations.run PresenceHub.step h es).Follows call id
      (Foundations.run (Life.next call id) l es) := by
  induction es generalizing h l with
  | nil => exact hf
  | cons e es ih => exact ih (hf.step h'.1) h'.2

/-- The map and the answers name calls there are. -/
structure Bounded (h : PresenceHub) : Prop where
  pending_lt : ∀ id call, h.pendingRequests.get id = some call → call < h.calls.length
  answers_lt : ∀ a ∈ h.answers, a.1 < h.calls.length

theorem bounded_new : new.Bounded where
  pending_lt _ _ hid := nomatch hid
  answers_lt _ ha := absurd ha List.not_mem_nil

theorem length_setWaiting : (h.setWaiting call waiting).calls.length = h.calls.length :=
  List.length_modify _ _ _

theorem length_resolve : (h.resolve call r).calls.length = h.calls.length := by
  unfold resolve
  split
  · exact length_setWaiting
  · rfl

theorem Bounded.frame (hb : h.Bounded)
    (hpending : ∀ id call, h'.pendingRequests.get id = some call →
      h.pendingRequests.get id = some call ∨ call < h'.calls.length)
    (hanswers : ∀ a ∈ h'.answers, a ∈ h.answers ∨ a.1 < h'.calls.length)
    (hlength : h.calls.length ≤ h'.calls.length) : h'.Bounded where
  pending_lt id call hid :=
    (hpending id call hid).elim (fun hid => (hb.pending_lt id call hid).trans_le hlength)
      fun hlt => hlt
  answers_lt a ha :=
    (hanswers a ha).elim (fun ha => (hb.answers_lt a ha).trans_le hlength) fun hlt => hlt

theorem Bounded.resolve (hb : h.Bounded) (id : String) (call : ℕ) (r : Json) :
    ({ h with pendingRequests := h.pendingRequests.delete id }.resolve call r).Bounded := by
  refine hb.frame (fun id' call' hid' => Or.inl ?_) (fun a ha => Or.inl ?_) (le_of_eq ?_)
  · rw [pendingRequests_resolve, Dict.get_delete] at hid'
    split at hid'
    · cases hid'
    · exact hid'
  · rwa [answers_resolve] at ha
  · rw [length_resolve]

theorem Bounded.proxy (hb : h.Bounded) (body : FsRequest) (requestId : String)
    (sendError : Option String) : (h.proxy body requestId sendError).1.Bounded := by
  unfold PresenceHub.proxy
  split
  · exact hb
  split
  · refine hb.frame (fun id call hid => Or.inl ?_) (fun a ha => ?_) (by simp)
    · rw [Dict.get_delete] at hid
      split at hid
      · cases hid
      · rename_i hne
        rwa [Dict.get_set, if_neg hne] at hid
    · refine (List.mem_append.mp ha).imp_right fun ha => ?_
      obtain rfl := List.mem_singleton.mp ha
      simp
  · refine hb.frame (fun id call hid => ?_) (fun a ha => Or.inl ha) (by simp)
    rw [Dict.get_set] at hid
    split at hid
    · obtain rfl := Option.some.inj hid
      exact Or.inr (by simp)
    · exact Or.inl hid

theorem Bounded.resume (hb : h.Bounded) (other : ℕ) : (h.resume other).Bounded := by
  unfold PresenceHub.resume
  split
  · rename_i r hcall
    refine hb.frame (fun id call hid => Or.inl hid) (fun a ha => ?_) (le_of_eq ?_)
    · refine (List.mem_append.mp ha).imp_right fun ha => ?_
      obtain rfl := List.mem_singleton.mp ha
      obtain ⟨c, hc, -⟩ := Option.map_eq_some_iff.mp hcall
      exact (lt_of_get hc).trans_eq length_setWaiting.symm
    · exact length_setWaiting.symm
  · exact hb

theorem Bounded.step (h : PresenceHub) (e : PresenceEvent) (hb : h.Bounded) : (h.step e).Bounded := by
  have hquiet : ∀ h' : PresenceHub, h'.calls = h.calls → h'.pendingRequests = h.pendingRequests →
      h'.answers = h.answers → h'.Bounded := fun h' hcalls hpending hanswers =>
    hb.frame (fun id call hid => Or.inl (hpending ▸ hid)) (fun a ha => Or.inl (hanswers ▸ ha))
      (by rw [hcalls])
  cases e with
  | receives socket data =>
    simp only [PresenceHub.step, receive]
    split
    · exact hb
    split
    · exact hb
    split
    · exact hb
    · exact hb.resolve _ _ _
  | expires other =>
    simp only [PresenceHub.step, expire]
    split
    · exact hb
    split
    · exact hb.resolve _ _ _
    · exact hb
  | resumes other => exact hb.resume other
  | proxies body requestId sendError => exact hb.proxy body requestId sendError
  | connects deviceId =>
    simp only [PresenceHub.step, connect]
    split
    · exact hb
    · exact hquiet _ rfl rfl rfl
  | closes socket =>
    simp only [PresenceHub.step, close]
    split
    · exact hb
    split
    · exact hb
    · exact hquiet _ rfl rfl rfl
  | disconnects deviceId =>
    simp only [PresenceHub.step, disconnect]
    split
    · exact hb
    · exact hquiet _ rfl rfl rfl

/-- A request that is sent begins its life. -/
theorem Bounded.follows_sent (hb : h.Bounded) {body : FsRequest} {requestId : String}
    (hfresh : h.FreshId (.proxies body requestId none)) (hsent : h.sockets body.deviceId ≠ []) :
    (h.step (.proxies body requestId none)).Follows h.calls.length requestId .racing := by
  have hproxy : h.step (.proxies body requestId none) =
      { h with
        pendingRequests := h.pendingRequests.set requestId h.calls.length
        calls := h.calls ++ [⟨requestId, body.deviceId, .racing⟩] } := by
    rw [PresenceHub.step, PresenceHub.proxy, List.getLast?_eq_some_getLast hsent]
  rw [hproxy]
  refine ⟨⟨body.deviceId, ?_⟩, ?_, fun id' hid' => ?_, fun c m hm hid => ?_, ?_⟩
  · exact List.getElem?_concat_length
  · exact (Dict.get_set _ _ _ _).trans (if_pos rfl)
  · rw [Dict.get_set] at hid'
    split at hid'
    · assumption
    · exact absurd (hb.pending_lt id' _ hid') (Nat.lt_irrefl _)
  · rw [List.getElem?_append] at hm
    split at hm
    · exact absurd hid (hfresh c (List.mem_of_getElem? hm))
    · rw [List.getElem?_singleton] at hm
      split at hm
      · omega
      · cases hm
  · have hnone : h.answers.filter (·.1 = h.calls.length) = [] :=
      List.filter_eq_nil_iff.mpr fun a ha =>
        by simpa using Nat.ne_of_lt (hb.answers_lt a ha)
    rw [answersOf, hnone]
    rfl

end PresenceHub

/-! ## Answered once -/

/-- The call of that number and id, after the events since it was sent. -/
structure Multiplexed (h : PresenceHub) (call : ℕ) (id : String) (es : List PresenceEvent) :
    Prop where
  /-- It is answered at most once, -/
  once : (h.answersOf call).length ≤ 1
  /-- with the first message that carries its id or with what its timer resolved, -/
  own : ∀ answer ∈ h.answersOf call, ∃ r, answer = respond r ∧
    (es.findSome? (·.carries id) = some r ∨ r = timeoutResult id ∧ .expires call ∈ es)
  /-- and then the map has no entry for it. -/
  gone : h.answersOf call ≠ [] → h.pendingRequests.get id = none
  /-- Once its timer has fired or a message with its id has come, and its handler gone on, it is
  answered. -/
  answered : ∀ es₁ es₂, es = es₁ ++ .resumes call :: es₂ →
    .expires call ∈ es₁ ∨ (es₁.findSome? (·.carries id)).isSome → (h.answersOf call).length = 1

open PresenceHub

/-- The timer or a message settles the call. -/
theorem isSome_settles {call : ℕ} {id : String} {es : List PresenceEvent}
    (h : .expires call ∈ es ∨ (es.findSome? (·.carries id)).isSome) :
    es.findSome? (·.settles call id) ≠ none := by
  intro hnone
  have hall := List.findSome?_eq_none_iff.mp hnone
  rcases h with hmem | hsome
  · have := hall _ hmem
    simp [PresenceEvent.settles] at this
  · obtain ⟨r, hr⟩ := Option.isSome_iff_exists.mp hsome
    obtain ⟨e, he, hcarries⟩ := List.exists_of_findSome?_eq_some hr
    have hsettles := hall e he
    cases e with
    | receives socket data => exact absurd (hcarries.symm.trans hsettles) (by simp)
    | _ => cases hcarries

theorem multiplexed_of_follows {h : PresenceHub} {call : ℕ} {id : String}
    {es : List PresenceEvent}
    (hf : h.Follows call id (run (Life.next call id) .racing es)) : Multiplexed h call id es := by
  have hresult : (run (Life.next call id) .racing es).result =
      es.findSome? (·.settles call id) := Life.result_run .racing es
  constructor
  · rw [hf.answers]
    rcases run (Life.next call id) .racing es with _ | r | r
    · exact Nat.zero_le 1
    · exact Nat.zero_le 1
    · exact Nat.le_refl 1
  · intro answer hanswer
    rw [hf.answers] at hanswer
    rcases hl : run (Life.next call id) .racing es with _ | r | r
    · rw [hl] at hanswer
      cases hanswer
    · rw [hl] at hanswer
      cases hanswer
    · rw [hl] at hanswer hresult
      exact ⟨r, List.mem_singleton.mp hanswer, settles_or hresult.symm⟩
  · intro hne
    rw [hf.answers] at hne
    rw [hf.pending]
    rcases hl : run (Life.next call id) .racing es with _ | r | r
    · exact absurd (congrArg Life.answers hl) hne
    · exact absurd (congrArg Life.answers hl) hne
    · rfl
  · rintro es₁ es₂ rfl hsettled
    rw [hf.answers, run_append]
    have hsome : (run (Life.next call id) .racing es₁).result ≠ none := by
      rw [Life.result_run]
      exact isSome_settles hsettled
    obtain ⟨r, hr⟩ := Life.exists_answered _ hsome es₂
    rw [hr]
    rfl

namespace Crossed

def statRequest : FsRequest := ⟨"node", "fs_stat", none, some "a.txt", none, none, none, none⟩

def reply (id : String) : Json := .object [("request_id", .string id), ("success", .bool true)]

/-- Another request goes out and is answered twice; the first one's timer fires before its reply. -/
def later : List PresenceEvent :=
  [.proxies statRequest "request-2" none, .receives 0 (some (reply "request-2")),
    .receives 0 (some (reply "request-2")), .expires 0, .receives 0 (some (reply "request-1")),
    .resumes 1, .resumes 0]

end Crossed

end Pcos.Edge
