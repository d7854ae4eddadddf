import Mathlib.Logic.Basic

/-!
# Foundations/Wp — handlers that keep their effects when they fail

`EStateM` returns the state it got to along with a result *or* an error, as a request handler does
that has written a file before its query is refused.  `wp x Q E s` says that `x`, started in `s`,
ends well in a state that satisfies `Q` or fails in one that satisfies `E`; the rules below take a
handler apart along its `do` block.
-/

namespace Foundations

variable {ε σ α β : Type}

/-- The handler ends well in `Q`, or fails in `E`. -/
def wp (x : EStateM ε σ α) (Q : α → σ → Prop) (E : ε → σ → Prop) (s : σ) : Prop :=
  match x s with
  | .ok a s' => Q a s'
  | .error e s' => E e s'

/-- The state a handler leaves, whether it ends well or fails. -/
def leaves (x : EStateM ε σ α) (s : σ) : σ :=
  match x s with
  | .ok _ s' => s'
  | .error _ s' => s'

/-- Go on if the condition holds, and fail otherwise. -/
def ensure (c : Bool) (e : ε) : EStateM ε σ Unit := if c then pure () else throw e

/-- Unwrap an optional value, or fail. -/
def okOr (o : Option α) (e : ε) : EStateM ε σ α :=
  match o with
  | some a => pure a
  | none => throw e

/-- The result of a handler as a value, also where it fails. -/
def attempt {ε' : Type} (x : EStateM ε σ α) : EStateM ε' σ (Except ε α) := fun s =>
  match x s with
  | .ok a s' => .ok (.ok a) s'
  | .error e s' => .ok (.error e) s'

variable {Q Q' : α → σ → Prop} {E E' : ε → σ → Prop} {s : σ}

theorem wp_mono {x : EStateM ε σ α} (h : wp x Q E s) (hQ : ∀ a s', Q a s' → Q' a s')
    (hE : ∀ e s', E e s' → E' e s') : wp x Q' E' s := by
  unfold wp at *
  split at h
  case h_1 a s' _ => exact hQ a s' h
  case h_2 e s' _ => exact hE e s' h

/-- Good ends and failures one at a time. -/
theorem wp_of {x : EStateM ε σ α} (hQ : wp x Q (fun _ _ => True) s)
    (hE : wp x (fun _ _ => True) E s) : wp x Q E s := by
  unfold wp at *
  split
  case h_1 heq => simpa only [heq] using hQ
  case h_2 heq => simpa only [heq] using hE

/-- Two postconditions of one handler. -/
theorem wp_and {x : EStateM ε σ α} (h : wp x Q E s) (h' : wp x Q' E' s) :
    wp x (fun a s' => Q a s' ∧ Q' a s') (fun e s' => E e s' ∧ E' e s') s := by
  unfold wp at *
  split
  case h_1 heq =>
    rw [heq] at h h'
    exact ⟨h, h'⟩
  case h_2 heq =>
    rw [heq] at h h'
    exact ⟨h, h'⟩

/-- What holds of a good end holds of the one there is. -/
theorem wp.of_eq {x : EStateM ε σ α} (h : wp x Q E s) {a : α} {s' : σ} (heq : x s = .ok a s') :
    Q a s' := by
  simpa only [wp, heq] using h

theorem wp.of_error {x : EStateM ε σ α} (h : wp x Q E s) {e : ε} {s' : σ} (heq : x s = .error e s') :
    E e s' := by
  simpa only [wp, heq] using h

/-- A handler that can only end well, and in one way, ends so. -/
theorem ok_of_wp {x : EStateM ε σ α} {a : α} {s' : σ}
    (h : wp x (fun b t => b = a ∧ t = s') (fun _ _ => False) s) : x s = .ok a s' := by
  unfold wp at h
  split at h
  · rename_i heq
    rw [heq, h.1, h.2]
  · exact h.elim

/-- A handler that cannot fail ends in its postcondition. -/
theorem exists_ok_of_wp {x : EStateM ε σ α} (h : wp x Q (fun _ _ => False) s) :
    ∃ a s', x s = .ok a s' ∧ Q a s' := by
  unfold wp at h
  split at h
  case h_1 a s' heq => exact ⟨a, s', heq, h⟩
  case h_2 => exact h.elim

/-- After a run that is known, its postcondition. -/
theorem wp_iff_of_ok {x : EStateM ε σ α} {a : α} {s' : σ} (h : x s = .ok a s') :
    wp x Q E s ↔ Q a s' := by
  rw [wp, h]

/-- What holds of the end state on both exits holds of the state that is left. -/
theorem wp.leaves {x : EStateM ε σ α} {P : σ → Prop} (h : wp x (fun _ => P) (fun _ => P) s) :
    P (leaves x s) := by
  unfold wp at h
  unfold Foundations.leaves
  split at h <;> exact h

@[simp] theorem wp_pure (a : α) : wp (pure a) Q E s ↔ Q a s := Iff.rfl

@[simp] theorem wp_throw (e : ε) : wp (throw e : EStateM ε σ α) Q E s ↔ E e s := Iff.rfl

@[simp] theorem wp_bind (x : EStateM ε σ β) (f : β → EStateM ε σ α) :
    wp (x >>= f) Q E s ↔ wp x (fun a s' => wp (f a) Q E s') E s := by
  change (match EStateM.bind x f s with
    | .ok a s' => Q a s'
    | .error e s' => E e s') ↔ _
  unfold wp EStateM.bind
  cases x s <;> rfl

@[simp] theorem wp_discard (x : EStateM ε σ α) {Q : Unit → σ → Prop} :
    wp (discard x) Q E s ↔ wp x (fun _ => Q ()) E s := by
  have h : discard x = x >>= fun _ => pure () := by
    funext s
    change EStateM.map _ x s = EStateM.bind x _ s
    unfold EStateM.map EStateM.bind
    cases x s <;> rfl
  rw [h, wp_bind]
  rfl

@[simp] theorem wp_adaptExcept {ε' : Type} (f : ε → ε') (x : EStateM ε σ α) {E : ε' → σ → Prop} :
    wp (EStateM.adaptExcept f x) Q E s ↔ wp x Q (fun e => E (f e)) s := by
  unfold wp EStateM.adaptExcept
  cases x s <;> rfl

@[simp] theorem wp_attempt {ε' : Type} (x : EStateM ε σ α) {Q : Except ε α → σ → Prop}
    {E : ε' → σ → Prop} :
    wp (attempt x) Q E s ↔ wp x (fun a => Q (.ok a)) (fun e => Q (.error e)) s := by
  unfold wp attempt
  cases x s <;> rfl

/-- A handler ends one way or the other. -/
theorem not_wp_false (x : EStateM ε σ α) : ¬ wp x (fun _ _ => False) (fun _ _ => False) s := by
  unfold wp
  cases x s <;> exact id

@[simp] theorem wp_get {Q : σ → σ → Prop} : wp (get : EStateM ε σ σ) Q E s ↔ Q s s := Iff.rfl

@[simp] theorem wp_set {Q : PUnit → σ → Prop} (s' : σ) :
    wp (set s' : EStateM ε σ PUnit) Q E s ↔ Q ⟨⟩ s' := Iff.rfl

@[simp] theorem wp_modify {Q : PUnit → σ → Prop} (f : σ → σ) :
    wp (modify f : EStateM ε σ PUnit) Q E s ↔ Q ⟨⟩ (f s) := Iff.rfl

theorem leaves_modify (f : σ → σ) : leaves (modify f : EStateM ε σ PUnit) s = f s := rfl

@[simp] theorem wp_ensure {Q : Unit → σ → Prop} (c : Bool) (e : ε) :
    wp (ensure c e) Q E s ↔ (c = true → Q () s) ∧ (c = false → E e s) := by
  cases c <;> simp [ensure]

@[simp] theorem wp_okOr (o : Option α) (e : ε) :
    wp (okOr o e) Q E s ↔ (∀ a, o = some a → Q a s) ∧ (o = none → E e s) := by
  cases o <;> simp [okOr]

@[simp] theorem wp_ofExcept (x : Except ε α) :
    wp (MonadExcept.ofExcept x : EStateM ε σ α) Q E s ↔
      (∀ a, x = .ok a → Q a s) ∧ (∀ e, x = .error e → E e s) := by
  cases x <;> simp [MonadExcept.ofExcept]

end Foundations
