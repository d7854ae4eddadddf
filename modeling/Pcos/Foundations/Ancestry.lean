import Mathlib.Data.Fintype.Card

/-!
# Foundations/Ancestry — parent pointers

A parent function `parent : α → Option α` is all a forest stored as rows has.  `up n x` follows it
`n` times; `Anc a x` says that `a` is `x` or one of its ancestors; the pointers are **acyclic** when
no walk of positive length returns to its start.

Three ways of changing the pointers are enough for the tables built on them: dropping some
(`Acyclic.mono`), adding a leaf (`Acyclic.insert`) and moving a node (`Acyclic.reparent`, which asks
that the node be no ancestor of its new parent).  On a finite set closed under parents, a walk that
is as long as the set has met a node twice: acyclic walks are shorter (`Acyclic.up_length`), and
every ancestor is met within that length (`Anc.exists_lt`).
-/

namespace Foundations

variable {α : Type*}

/-- Follow `n` parent pointers. -/
def up (parent : α → Option α) : ℕ → α → Option α
  | 0, x => some x
  | n + 1, x => (parent x).bind (up parent n)

/-- `a` is `x` or an ancestor of it. -/
def Anc (parent : α → Option α) (a x : α) : Prop := ∃ n, up parent n x = some a

/-- No walk of positive length returns to its start. -/
def Acyclic (parent : α → Option α) : Prop := ∀ x n, up parent (n + 1) x ≠ some x

variable {parent parent' : α → Option α} {a b x y : α}

@[simp] theorem up_zero : up parent 0 x = some x := rfl

theorem up_succ (n : ℕ) : up parent (n + 1) x = (parent x).bind (up parent n) := rfl

theorem up_add (m n : ℕ) : up parent (m + n) x = (up parent m x).bind (up parent n) := by
  induction m generalizing x with
  | zero => rw [Nat.zero_add]; rfl
  | succ m ih =>
    rw [Nat.succ_add, up_succ, up_succ]
    cases parent x with
    | none => rfl
    | some p => exact ih

theorem up_succ' (n : ℕ) : up parent (n + 1) x = (up parent n x).bind parent := by
  rw [up_add]
  cases up parent n x with
  | none => rfl
  | some y =>
    change (parent y).bind (up parent 0) = parent y
    cases parent y <;> rfl

/-- A walk that gets as far as `n` gets as far as any earlier point. -/
theorem up_ne_none_of_le {m n : ℕ} (hmn : m ≤ n) (h : up parent n x ≠ none) :
    up parent m x ≠ none := by
  obtain ⟨k, rfl⟩ := Nat.exists_eq_add_of_le hmn
  intro hm
  rw [up_add, hm] at h
  exact h rfl

/-! ## Ancestors -/

theorem Anc.refl (x : α) : Anc parent x x := ⟨0, rfl⟩

theorem Anc.trans (h1 : Anc parent a b) (h2 : Anc parent b x) : Anc parent a x := by
  obtain ⟨m, hm⟩ := h1
  obtain ⟨n, hn⟩ := h2
  refine ⟨n + m, ?_⟩
  rw [up_add, hn]
  exact hm

theorem Anc.of_parent (h : parent x = some a) : Anc parent a x := by
  refine ⟨1, ?_⟩
  rw [up_succ, h]
  rfl

/-- An ancestor is the node itself or an ancestor of its parent. -/
theorem anc_iff : Anc parent a x ↔ a = x ∨ ∃ p, parent x = some p ∧ Anc parent a p := by
  constructor
  · rintro ⟨n, hn⟩
    cases n with
    | zero => exact Or.inl (Option.some.inj hn).symm
    | succ n =>
      obtain ⟨p, hp, hn⟩ := Option.bind_eq_some_iff.mp hn
      exact Or.inr ⟨p, hp, n, hn⟩
  · rintro (rfl | ⟨p, hp, h⟩)
    · exact .refl _
    · exact h.trans (.of_parent hp)

/-- …or, from the other end, the parent of one. -/
theorem Anc.eq_or_child (h : Anc parent a x) : a = x ∨ ∃ c, parent c = some a ∧ Anc parent c x := by
  obtain ⟨n, hn⟩ := h
  cases n with
  | zero => exact Or.inl (Option.some.inj hn).symm
  | succ n =>
    rw [up_succ'] at hn
    obtain ⟨c, hc, hca⟩ := Option.bind_eq_some_iff.mp hn
    exact Or.inr ⟨c, hca, n, hc⟩

/-- **Induction from an ancestor down**: what holds of `a` and passes from parent to child holds of
everything below `a`. -/
theorem Anc.rec_down {P : α → Prop} (h : Anc parent a x) (ha : P a)
    (hstep : ∀ x p, parent x = some p → P p → P x) : P x := by
  obtain ⟨n, hn⟩ := h
  induction n generalizing x with
  | zero => exact Option.some.inj hn ▸ ha
  | succ n ih =>
    obtain ⟨p, hp, hn⟩ := Option.bind_eq_some_iff.mp hn
    exact hstep x p hp (ih hn)

/-! ## Changing the pointers -/

theorem up_mono (h : ∀ x y, parent' x = some y → parent x = some y) {n : ℕ}
    (hn : up parent' n x = some y) : up parent n x = some y := by
  induction n generalizing x with
  | zero => exact hn
  | succ n ih =>
    obtain ⟨p, hp, hn⟩ := Option.bind_eq_some_iff.mp hn
    rw [up_succ, h x p hp]
    exact ih hn

/-- Dropping pointers keeps them acyclic. -/
theorem Acyclic.mono (hac : Acyclic parent) (h : ∀ x y, parent' x = some y → parent x = some y) :
    Acyclic parent' :=
  fun x n hn => hac x n (up_mono h hn)

section Update

variable [DecidableEq α]

/-- A walk after moving `x` is the walk before, or has passed through `x`. -/
theorem up_update (t : Option α) {n : ℕ} {z w : α}
    (h : up (Function.update parent x t) n z = some w) :
    up parent n z = some w ∨ ∃ m ≤ n, up parent m z = some x := by
  induction n generalizing z with
  | zero => exact Or.inl h
  | succ n ih =>
    by_cases hz : z = x
    · exact Or.inr ⟨0, Nat.zero_le _, congrArg some hz⟩
    · obtain ⟨p, hp, hn⟩ := Option.bind_eq_some_iff.mp h
      rw [Function.update_of_ne hz] at hp
      rcases ih hn with hw | ⟨m, hm, hx⟩
      · exact Or.inl (by rw [up_succ, hp]; exact hw)
      · exact Or.inr ⟨m + 1, Nat.succ_le_succ hm, by rw [up_succ, hp]; exact hx⟩

/-- A walk that reaches `x` reached it before `x` was moved. -/
theorem Anc.of_update {t : Option α} {z : α} (h : Anc (Function.update parent x t) x z) :
    Anc parent x z := by
  obtain ⟨n, hn⟩ := h
  rcases up_update t hn with h' | ⟨m, -, h'⟩
  · exact ⟨n, h'⟩
  · exact ⟨m, h'⟩

/-- …and still reaches it afterwards. -/
theorem Anc.to_update {t : Option α} {z : α} (h : Anc parent x z) :
    Anc (Function.update parent x t) x z := by
  obtain ⟨n, hn⟩ := h
  induction n generalizing z with
  | zero => exact ⟨0, hn⟩
  | succ n ih =>
    by_cases hz : z = x
    · exact ⟨0, congrArg some hz⟩
    · obtain ⟨p, hp, hn⟩ := Option.bind_eq_some_iff.mp hn
      obtain ⟨m, hm⟩ := ih hn
      exact ⟨m + 1, by rw [up_succ, Function.update_of_ne hz, hp]; exact hm⟩

/-- Cutting a pointer keeps them acyclic. -/
theorem Acyclic.detach (hac : Acyclic parent) (x : α) : Acyclic (Function.update parent x none) := by
  refine hac.mono fun z y hz => ?_
  by_cases h : z = x
  · rw [h, Function.update_self] at hz
    cases hz
  · rwa [Function.update_of_ne h] at hz

/-- **Moving a node under a node it is no ancestor of keeps the pointers acyclic.** -/
theorem Acyclic.reparent (hac : Acyclic parent) {t : α} (ht : ¬ Anc parent x t) :
    Acyclic (Function.update parent x (some t)) := by
  set parent' := Function.update parent x (some t) with hp'
  intro y n hy
  rcases up_update (some t) hy with h | ⟨m, -, hm⟩
  · exact hac y n h
  · -- the cycle through `y` passes `x`, so `x` itself returns, by way of its new parent `t`
    obtain ⟨k, hk⟩ : Anc parent' x y := Anc.to_update ⟨m, hm⟩
    have hx : up parent' (n + 1) x = some x := by
      have h1 : up parent' (n + 1 + k) y = some x := by rw [up_add, hy]; exact hk
      rw [Nat.add_comm, up_add, hk] at h1
      exact h1
    rw [up_succ, hp', Function.update_self] at hx
    exact ht (Anc.of_update ⟨n, hx⟩)

/-- **Moving it under one of its own descendants closes a cycle.** -/
theorem not_acyclic_reparent {t : α} (ht : Anc parent x t) :
    ¬ Acyclic (Function.update parent x (some t)) := by
  intro hac
  obtain ⟨n, hn⟩ : Anc (Function.update parent x (some t)) x t := Anc.to_update ht
  refine hac x n ?_
  rw [up_succ, Function.update_self]
  exact hn

/-- A pointer from a node nothing points to keeps them acyclic. -/
theorem Acyclic.insert (hac : Acyclic parent) (hx : ∀ c, parent c ≠ some x) {o : Option α}
    (ho : o ≠ some x) : Acyclic (Function.update parent x o) := by
  cases o with
  | none => exact hac.detach x
  | some t =>
    refine hac.reparent fun h => ?_
    rcases h.eq_or_child with rfl | ⟨c, hc, -⟩
    · exact ho rfl
    · exact hx c hc

end Update

/-! ## Finite sets closed under parents -/

section Finite

variable {l : List α}

/-- Every parent of a member is a member. -/
def ParentClosed (parent : α → Option α) (l : List α) : Prop :=
  ∀ x ∈ l, ∀ y, parent x = some y → y ∈ l

theorem ParentClosed.up_mem (hl : ParentClosed parent l) (hx : x ∈ l) {n : ℕ}
    (h : up parent n x = some y) : y ∈ l := by
  induction n generalizing x with
  | zero => exact Option.some.inj h ▸ hx
  | succ n ih =>
    obtain ⟨p, hp, hn⟩ := Option.bind_eq_some_iff.mp h
    exact ih (hl x hx p hp) hn

variable [DecidableEq α]

/-- **A walk as long as the set meets a node twice.** -/
theorem ParentClosed.exists_repeat (hl : ParentClosed parent l) (hx : x ∈ l)
    (h : up parent l.length x ≠ none) :
    ∃ i j, i < j ∧ j ≤ l.length ∧ ∃ y, up parent i x = some y ∧ up parent j x = some y := by
  have hdef : ∀ i : Fin (l.length + 1), ∃ y, up parent i x = some y := fun i =>
    Option.ne_none_iff_exists'.mp (up_ne_none_of_le (Nat.lt_succ_iff.mp i.isLt) h)
  choose f hf using hdef
  have hcard : l.toFinset.card < (Finset.univ : Finset (Fin (l.length + 1))).card := by
    rw [Finset.card_univ, Fintype.card_fin]
    exact Nat.lt_succ_of_le (List.toFinset_card_le l)
  obtain ⟨i, -, j, -, hne, hij⟩ := Finset.exists_ne_map_eq_of_card_lt_of_maps_to hcard
    fun i _ => List.mem_toFinset.mpr (hl.up_mem hx (hf i))
  rcases Nat.lt_or_gt_of_ne (Fin.val_ne_of_ne hne) with hlt | hlt
  · exact ⟨i, j, hlt, Nat.lt_succ_iff.mp j.isLt, f i, hf i, hij ▸ hf j⟩
  · exact ⟨j, i, hlt, Nat.lt_succ_iff.mp i.isLt, f j, hf j, hij ▸ hf i⟩

/-- **An acyclic walk ends within the length of the set.** -/
theorem Acyclic.up_length (hac : Acyclic parent) (hl : ParentClosed parent l) (hx : x ∈ l) :
    up parent l.length x = none := by
  by_contra h
  obtain ⟨i, j, hij, -, y, hi, hj⟩ := hl.exists_repeat hx h
  obtain ⟨k, rfl⟩ := Nat.exists_eq_add_of_lt hij
  rw [Nat.add_assoc, up_add, hi] at hj
  exact hac y k hj

/-- **Every ancestor is met within the length of the set.** -/
theorem Anc.exists_lt (h : Anc parent a x) (hl : ParentClosed parent l) (hx : x ∈ l) :
    ∃ n < l.length, up parent n x = some a := by
  classical
  refine ⟨Nat.find h, ?_, Nat.find_spec h⟩
  by_contra hge
  have hle : l.length ≤ Nat.find h := Nat.le_of_not_lt hge
  have hdef : up parent l.length x ≠ none :=
    up_ne_none_of_le hle (by rw [Nat.find_spec h]; exact Option.some_ne_none a)
  obtain ⟨i, j, hij, hj, y, hi, hjy⟩ := hl.exists_repeat hx hdef
  obtain ⟨k, hk⟩ := Nat.exists_eq_add_of_le (hj.trans hle)
  have hspec := Nat.find_spec h
  rw [hk, up_add, hjy] at hspec
  have hmin : up parent (i + k) x = some a := by
    rw [up_add, hi]
    exact hspec
  have := Nat.find_min' h hmin
  omega

/-- With all parents in a list, ancestry is decided by walking up. -/
def Anc.decidable (hl : ∀ z y, parent z = some y → y ∈ l) (a x : α) : Decidable (Anc parent a x) :=
  decidable_of_iff (((List.range (x :: l).length).any fun n => up parent n x = some a) = true) <| by
    simp only [List.any_eq_true, decide_eq_true_eq]
    constructor
    · rintro ⟨n, -, hn⟩
      exact ⟨n, hn⟩
    · intro h
      have hclosed : ParentClosed parent (x :: l) := fun z _ y hy => List.mem_cons_of_mem x (hl z y hy)
      obtain ⟨n, hlt, hn⟩ := h.exists_lt hclosed List.mem_cons_self
      exact ⟨n, List.mem_range.mpr hlt, hn⟩

/-- A walk down to `a` as long as the set goes round a cycle through `a`, so there are walks of
every length down to it. -/
theorem ParentClosed.exists_up (hl : ParentClosed parent l) (hx : x ∈ l) {n : ℕ} (hn : l.length ≤ n)
    (h : up parent n x = some a) (m : ℕ) : ∃ y ∈ l, up parent m y = some a := by
  have hdef : up parent l.length x ≠ none :=
    up_ne_none_of_le hn (by rw [h]; exact Option.some_ne_none a)
  obtain ⟨i, j, hij, hj, y, hi, hjy⟩ := hl.exists_repeat hx hdef
  obtain ⟨k, rfl⟩ := Nat.exists_eq_add_of_le (hj.trans hn)
  obtain ⟨d, rfl⟩ := Nat.exists_eq_add_of_lt hij
  -- `y` returns to itself after `d + 1` steps, and reaches `a` after `k` more
  have hround : up parent (d + 1) y = some y := by
    rw [Nat.add_assoc, up_add, hi] at hjy
    exact hjy
  have hya : up parent k y = some a := by
    rw [up_add, hjy] at h
    exact h
  have hmany : ∀ q, up parent (q * (d + 1) + k) y = some a := by
    intro q
    induction q with
    | zero => rw [Nat.zero_mul, Nat.zero_add]; exact hya
    | succ q ih =>
      rw [Nat.succ_mul, Nat.add_comm (q * (d + 1)), Nat.add_assoc, up_add, hround]
      exact ih
  have hle : m ≤ m * (d + 1) + k :=
    (Nat.le_mul_of_pos_right m (Nat.succ_pos d)).trans (Nat.le_add_right _ _)
  obtain ⟨r, hr⟩ := Nat.exists_eq_add_of_le hle
  have hlong := hmany m
  rw [hr, Nat.add_comm, up_add] at hlong
  obtain ⟨z, hz, hza⟩ := Option.bind_eq_some_iff.mp hlong
  exact ⟨z, hl.up_mem (hl.up_mem hx hi) hz, hza⟩

/-- What is walked down to in as many steps as the set has members lies on a cycle. -/
theorem ParentClosed.on_cycle (hl : ParentClosed parent l) (hx : x ∈ l)
    (h : up parent l.length x = some a) : ∃ n, up parent (n + 1) a = some a := by
  obtain ⟨i, j, hij, hj, y, hi, hjy⟩ :=
    hl.exists_repeat hx (by rw [h]; exact Option.some_ne_none a)
  obtain ⟨k, hk⟩ := Nat.exists_eq_add_of_le hj
  obtain ⟨d, rfl⟩ := Nat.exists_eq_add_of_lt hij
  have hround : up parent (d + 1) y = some y := by
    rw [Nat.add_assoc, up_add, hi] at hjy
    exact hjy
  have hya : up parent k y = some a := by
    rw [hk, up_add, hjy] at h
    exact h
  -- the cycle of `y`, seen from `a`
  refine ⟨d, ?_⟩
  have hcommute : (up parent k y).bind (up parent (d + 1)) = (up parent (d + 1) y).bind (up parent k) := by
    rw [← up_add, ← up_add, Nat.add_comm]
  rw [hya, hround, Option.bind_some, Option.bind_some, hya] at hcommute
  exact hcommute

/-- Round a cycle as often as one likes. -/
theorem up_mul {n : ℕ} (h : up parent n a = some a) (q : ℕ) : up parent (q * n) a = some a := by
  induction q with
  | zero => rw [Nat.zero_mul, up_zero]
  | succ q ih =>
    rw [Nat.succ_mul, up_add, ih]
    exact h

end Finite

end Foundations
