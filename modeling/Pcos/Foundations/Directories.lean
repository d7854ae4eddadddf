import Mathlib.Data.List.Induction

/-!
# Foundations/Directories — paths through named folders

`enter p n` is the place that the name `n` leads to from `p`, and `walk` follows several names.  A
tree is **rooted** when each place is entered from one place by one name, and the root from none:
then no two paths from the root lead to one place.

Adding a way in keeps the walks there were (`walk_mono`), and one to a place that leads nowhere adds
only the walk that ends there (`walk_extend`).  When a place is reached by a new name in the folder
it is in, the walks through it are those that have the new name for the old one (`Renamed`).
-/

namespace Foundations

variable {P N : Type*} {enter enter' : P → N → Option P} {p q root : P} {n : N} {ns ms : List N}

/-- Follow the names from a place. -/
def walk (enter : P → N → Option P) : P → List N → Option P
  | p, [] => some p
  | p, n :: ns => (enter p n).bind fun q => walk enter q ns

@[simp] theorem walk_nil : walk enter p [] = some p := rfl

theorem walk_concat : walk enter p (ns ++ [n]) = (walk enter p ns).bind fun q => enter q n := by
  induction ns generalizing p with
  | nil =>
    change (enter p n).bind some = enter p n
    cases enter p n <;> rfl
  | cons m ns ih =>
    change ((enter p m).bind fun q => walk enter q (ns ++ [n])) =
      ((enter p m).bind fun q => walk enter q ns).bind fun q => enter q n
    rw [Option.bind_assoc]
    exact congrArg _ (funext fun q => ih)

/-- Each place is entered from one place by one name, and the root from none. -/
structure Rooted (enter : P → N → Option P) (root : P) : Prop where
  inj : ∀ p n p' n' q, enter p n = some q → enter p' n' = some q → p = p' ∧ n = n'
  root : ∀ p n, enter p n ≠ some root

/-- **Two paths from the root to one place are one path.** -/
theorem Rooted.walk_inj (h : Rooted enter root) (hn : walk enter root ns = some q)
    (hm : walk enter root ms = some q) : ns = ms := by
  induction ns using List.reverseRecOn generalizing q ms with
  | nil =>
    obtain rfl := Option.some.inj hn
    rcases List.eq_nil_or_concat ms with rfl | ⟨ms, m, rfl⟩
    · rfl
    · rw [List.concat_eq_append, walk_concat] at hm
      obtain ⟨r, -, hr⟩ := Option.bind_eq_some_iff.mp hm
      exact absurd hr (h.root r m)
  | append_singleton ns n ih =>
    rw [walk_concat] at hn
    obtain ⟨r, hns, hr⟩ := Option.bind_eq_some_iff.mp hn
    rcases List.eq_nil_or_concat ms with rfl | ⟨ms, m, rfl⟩
    · obtain rfl := Option.some.inj hm
      exact absurd hr (h.root r n)
    · rw [List.concat_eq_append, walk_concat] at hm
      obtain ⟨s, hms, hs⟩ := Option.bind_eq_some_iff.mp hm
      obtain ⟨rfl, rfl⟩ := h.inj r n s m q hr hs
      rw [ih hns hms, List.concat_eq_append]

/-- More ways in keep the walks there were. -/
theorem walk_mono (h : ∀ p n q, enter p n = some q → enter' p n = some q)
    (hw : walk enter p ns = some q) : walk enter' p ns = some q := by
  induction ns generalizing p with
  | nil => exact hw
  | cons n ns ih =>
    obtain ⟨r, hr, hw⟩ := Option.bind_eq_some_iff.mp hw
    exact Option.bind_eq_some_iff.mpr ⟨r, h p n r hr, ih hw⟩

/-- **One more place, which leads nowhere**: other walks lead where they led. -/
theorem walk_extend {x : P} (h : ∀ p n q, enter' p n = some q → enter p n = some q ∨ q = x)
    (hx : ∀ n, enter' x n = none) (hw : walk enter' p ns = some q) :
    walk enter p ns = some q ∨ q = x := by
  induction ns using List.reverseRecOn generalizing q with
  | nil => exact Or.inl hw
  | append_singleton ns n ih =>
    rw [walk_concat] at hw
    obtain ⟨r, hns, hr⟩ := Option.bind_eq_some_iff.mp hw
    refine (h r n q hr).imp_left fun hrq => ?_
    rw [walk_concat]
    rcases ih hns with hns | rfl
    · exact Option.bind_eq_some_iff.mpr ⟨r, hns, hrq⟩
    · rw [hx] at hr
      cases hr

theorem walk_append : walk enter p (ns ++ ms) = (walk enter p ns).bind fun q => walk enter q ms := by
  induction ns generalizing p with
  | nil => rfl
  | cons n ns ih =>
    change ((enter p n).bind fun q => walk enter q (ns ++ ms)) =
      ((enter p n).bind fun q => walk enter q ns).bind fun q => walk enter q ms
    rw [Option.bind_assoc]
    exact congrArg _ (funext fun q => ih)

/-- Walks agree whose steps agree. -/
theorem walk_congr (h : ∀ ks n ls, ns = ks ++ n :: ls → ∀ x, walk enter p ks = some x →
    enter' x n = enter x n) : walk enter' p ns = walk enter p ns := by
  induction ns generalizing p with
  | nil => rfl
  | cons n ns ih =>
    rw [walk, walk, h [] n ns rfl p rfl]
    cases hq : enter p n with
    | none => rfl
    | some q =>
      refine ih fun ks m ls hns x hx => h (n :: ks) m ls (congrArg _ hns) x ?_
      rw [walk, hq]
      exact hx

variable {x : P} {a b : N}

/-- Below a place no walk comes back to it. -/
theorem Rooted.walk_ne (h : Rooted enter root) (hx : walk enter root ns = some x)
    (hq : enter x a = some q) (ks : List N) : walk enter q ks ≠ some x := by
  intro hks
  have hwalk : walk enter root (ns ++ a :: ks) = some x := by
    rw [walk_append, hx, Option.bind_some, walk, hq]
    exact hks
  have hlen := congrArg List.length (h.walk_inj hwalk hx)
  rw [List.length_append, List.length_cons] at hlen
  omega

/-! ## A new name for a place -/

/-- What `a` led to from `x` is what `b` leads to now; every other way is as it was. -/
structure Renamed (enter enter' : P → N → Option P) (x : P) (a b : N) : Prop where
  new : enter' x b = enter x a
  old : enter' x a = none
  frame : ∀ y n, y ≠ x ∨ n ≠ a ∧ n ≠ b → enter' y n = enter y n

namespace Renamed

/-- From a place that does not lead back to `x`, everything is as it was. -/
theorem walk_frame (hr : Renamed enter enter' x a b) (h : ∀ ks, walk enter p ks ≠ some x) :
    walk enter' p ns = walk enter p ns :=
  walk_congr fun ks n _ _ y hy => hr.frame y n (.inl fun hyx => h ks (hyx ▸ hy))

variable (hr : Renamed enter enter' x a b) (hroot : Rooted enter root)
  (hx : walk enter root ns = some x)

include hr hroot hx

/-- A path that takes neither name in `x` leads where it led. -/
theorem walk_of_not_prefix (hp : ¬ ns ++ [a] <+: ms) (hq : ¬ ns ++ [b] <+: ms) :
    walk enter' root ms = walk enter root ms := by
  refine walk_congr fun ks n ls hms y hy => hr.frame y n (or_iff_not_imp_left.mpr fun hyx => ?_)
  rw [not_not.mp hyx] at hy
  obtain rfl := hroot.walk_inj hy hx
  have hpre : ks ++ [n] <+: ms := ⟨ls, by rw [hms, List.append_assoc, List.singleton_append]⟩
  exact ⟨fun h => hp (h ▸ hpre), fun h => hq (h ▸ hpre)⟩

/-- `x` is found where it was. -/
theorem walk_parent : walk enter' root ns = some x := by
  rw [← hx]
  have hlen : ∀ n : N, ¬ ns ++ [n] <+: ns := fun n h => by
    have hle := h.length_le
    rw [List.length_append, List.length_singleton] at hle
    omega
  exact hr.walk_of_not_prefix hroot hx (hlen a) (hlen b)

/-- **The new name leads where the old one led**, with all that is below. -/
theorem walk_new : walk enter' root (ns ++ b :: ms) = walk enter root (ns ++ a :: ms) := by
  rw [walk_append, walk_append, hr.walk_parent hroot hx, hx, Option.bind_some, Option.bind_some,
    walk, walk, hr.new]
  cases hy : enter x a with
  | none => rfl
  | some q => exact hr.walk_frame (hroot.walk_ne hx hy)

/-- **The old name leads nowhere.** -/
theorem walk_old : walk enter' root (ns ++ a :: ms) = none := by
  rw [walk_append, hr.walk_parent hroot hx, Option.bind_some, walk, hr.old]
  rfl

end Renamed

end Foundations
