import Mathlib.Algebra.Order.BigOperators.Group.List
import Mathlib.Data.List.Nodup
import Mathlib.Tactic.Abel

/-!
# Foundations/Sums — sums over a list that changes

What a table adds up to, when rows are left out (`sum_map_filter`, `sum_map_filter_le`) and when the
value of a single row changes (`sum_map_of_eq_off`).  Values that bound each other one by one, and the
other way in their sum, are the same (`forall₂_eq_of_sum`).
-/

namespace Foundations

variable {α M : Type*} {l : List α} {f g : α → M}

/-- Rows that are left out count for nothing. -/
theorem sum_map_filter [AddMonoid M] (p : α → Bool) (f : α → M) (l : List α) :
    ((l.filter p).map f).sum = (l.map fun a => if p a then f a else 0).sum := by
  induction l with
  | nil => rfl
  | cons a l ih =>
    rw [List.map_cons, List.sum_cons, ← ih]
    by_cases hp : p a = true
    · rw [List.filter_cons_of_pos hp, if_pos hp, List.map_cons, List.sum_cons]
    · rw [List.filter_cons_of_neg hp, if_neg hp, zero_add]

theorem sum_map_filter_le [AddCommMonoid M] [PartialOrder M] [IsOrderedAddMonoid M] (p : α → Bool)
    (hf : ∀ a ∈ l, 0 ≤ f a) : ((l.filter p).map f).sum ≤ (l.map f).sum := by
  rw [sum_map_filter]
  refine List.sum_le_sum fun a ha => ?_
  split
  · exact le_rfl
  · exact hf a ha

/-- The value of one row changes. -/
theorem sum_map_of_eq_off [AddCommGroup M] (hl : l.Nodup) {a : α} (ha : a ∈ l)
    (h : ∀ b ∈ l, b ≠ a → f b = g b) : (l.map f).sum = (l.map g).sum + (f a - g a) := by
  classical
  have hrest : (l.erase a).map f = (l.erase a).map g :=
    List.map_congr_left fun b hb =>
      h b (List.mem_of_mem_erase hb) ((hl.mem_erase_iff).mp hb).1
  rw [← List.sum_map_erase f ha, ← List.sum_map_erase g ha, hrest]
  abel

/-- **Values that are no greater one by one, and no less in all, are the same.** -/
theorem forall₂_eq_of_sum {α β : Type*} {f : α → ℕ} {g : β → ℕ} {l : List α} {l' : List β}
    (h : List.Forall₂ (fun a b => g b ≤ f a) l l') (hsum : (l.map f).sum ≤ (l'.map g).sum) :
    List.Forall₂ (fun a b => g b = f a) l l' := by
  have hle {l : List α} {l' : List β} (h : List.Forall₂ (fun a b => g b ≤ f a) l l') :
      (l'.map g).sum ≤ (l.map f).sum := by
    induction h with
    | nil => exact Nat.le_refl 0
    | cons hab _ ih => exact Nat.add_le_add hab ih
  induction h with
  | nil => exact .nil
  | cons hab htail ih =>
    rw [List.map_cons, List.map_cons, List.sum_cons, List.sum_cons] at hsum
    have hrest := hle htail
    exact .cons (by omega) (ih (by omega))

end Foundations
