import Pcos.Backend.Change

/-!
# Backend/Concurrency — requests that overtake one another

A checked upload reads the quota in one query and writes in later ones, so other requests come in
between.  A `Server` is a world with the uploads that have passed their checks and not written yet;
they are admitted in one step and commit in another, and in the meantime anything may happen.  An
upload that nobody overtakes is the request of `Backend/System` (`Server.step_check_commit`).
-/

namespace Pcos

open Foundations

/-- The handler ends well. -/
def succeeds {α : Type} (x : Handler α) (w : World) : Bool :=
  match x w with
  | .ok _ _ => true
  | .error _ _ => false

/-- The checks of the three requests that check the quota; no other request is admitted first. -/
def passesChecks (w : World) (e : Event) : Bool :=
  match e.request with
  | .uploadFile parent _ _ data => succeeds (admitUpload e.call parent data.length) w
  | .completeChunkedUpload req => succeeds (admitUpload e.call req.parentId req.totalSize) w
  | .initTransfer req => succeeds (admitTransfer e.call req) w
  | _ => false

/-- …and their writes. -/
def writesOf (env : Env) (w : World) (e : Event) : World :=
  match e.request with
  | .uploadFile parent filename mime data =>
    leaves (storeUpload env e.call parent filename mime data) w
  | .completeChunkedUpload req => leaves (storeAssembled env e.call req) w
  | .initTransfer req => leaves (storeTransfer e.call req) w
  | _ => w

/-- The requests that check the quota. -/
def Request.checksQuota : Request → Bool
  | .uploadFile _ _ _ _ => true
  | .completeChunkedUpload _ => true
  | .initTransfer _ => true
  | _ => false

structure Server where
  world : World
  /-- The requests that have passed their checks. -/
  pending : List Event

inductive Action
  /-- A request runs from beginning to end. -/
  | run (e : Event)
  /-- A request runs up to its writes. -/
  | check (e : Event)
  /-- The pending request at that position writes. -/
  | commit (i : ℕ)

namespace Server

def step (env : Env) (s : Server) : Action → Server
  | .run e => { s with world := Pcos.step env s.world e }
  | .check e => if passesChecks s.world e then { s with pending := e :: s.pending } else s
  | .commit i =>
    match s.pending[i]? with
    | some e => ⟨writesOf env s.world e, s.pending.eraseIdx i⟩
    | none => s

/-- What `Uuid::new_v4` promises to a step that may create an entry. -/
def Fresh (s : Server) : Action → Prop
  | .run e => Pcos.Fresh s.world e
  | .check _ => True
  | .commit i => ∀ e ∈ s.pending[i]?, Pcos.Fresh s.world e

instance (s : Server) : ∀ a, Decidable (s.Fresh a)
  | .run e => inferInstanceAs (Decidable (Pcos.Fresh s.world e))
  | .check _ => inferInstanceAs (Decidable True)
  | .commit i => inferInstanceAs (Decidable (∀ e ∈ s.pending[i]?, Pcos.Fresh s.world e))

/-! ## A request that is not overtaken -/

/-- Checks that write nothing, and what comes after them. -/
theorem leaves_bind {α β : Type} {x : Handler α} {w : World}
    (hx : wp x (fun _ w' => w' = w) (fun _ w' => w' = w) w) (y : Handler β) :
    leaves (x >>= fun _ => y) w = if succeeds x w then leaves y w else w := by
  change leaves (EStateM.bind x fun _ => y) w = _
  unfold wp at hx
  unfold leaves EStateM.bind succeeds
  cases hr : x w with
  | ok a w' =>
    rw [hr] at hx
    obtain rfl : w' = w := hx
    rfl
  | error e w' =>
    rw [hr] at hx
    obtain rfl : w' = w := hx
    rfl

theorem wp_admitUpload (c : Call) (parent : Option Uuid) (incoming : ℤ) (w : World) :
    wp (admitUpload c parent incoming) (fun _ w' => w' = w) (fun _ w' => w' = w) w := by
  simp [admitUpload]

theorem wp_admitTransfer (c : Call) (req : ResumableInitRequest) (w : World) :
    wp (admitTransfer c req) (fun _ w' => w' = w) (fun _ w' => w' = w) w := by
  simp [admitTransfer]

/-- **A checked request is its checks and then its writes.** -/
theorem step_eq (env : Env) (w : World) {e : Event} (h : e.request.checksQuota = true) :
    Pcos.step env w e = if passesChecks w e then writesOf env w e else w := by
  unfold Pcos.step passesChecks writesOf
  cases hreq : e.request with
  | uploadFile parent filename mime data =>
    exact leaves_bind (wp_admitUpload e.call parent data.length w) _
  | completeChunkedUpload req =>
    exact leaves_bind (wp_admitUpload e.call req.parentId req.totalSize w) _
  | initTransfer req => exact leaves_bind (wp_admitTransfer e.call req w) _
  | _ => rw [hreq] at h; cases h

/-- **A checked request that nobody overtakes runs as a whole.** -/
theorem step_check_commit (env : Env) (s : Server) {e : Event} (h : e.request.checksQuota = true)
    (hpass : passesChecks s.world e = true) :
    (s.step env (.check e)).step env (.commit 0) = s.step env (.run e) := by
  simp [step, hpass, step_eq env s.world h]

end Server

end Pcos
