import Mathlib.Data.List.Basic
import Mathlib.Algebra.Order.Group.Nat
import Pcos.Foundations.Sums

/-!
# Foundations/Tiling — consecutive pieces of a list

A list of `(offset, length)` pairs **tiles** `[a, b)` when the pieces follow one another from `a` to
`b` and none is empty.  Tilings concatenate (`tiles_append`), and the slices a tiling names
reassemble the part of the list they cover (`Tiles.flatMap_slice`).
-/

namespace Foundations

variable {α : Type*}

/-- The pieces of `l`, in order, cover `[a, b)` without gap, overlap or empty piece. -/
def Tiles (a b : ℕ) : List (ℕ × ℕ) → Prop
  | [] => a = b
  | p :: l => p.1 = a ∧ 0 < p.2 ∧ Tiles (a + p.2) b l

/-- The part of `xs` that a piece names. -/
def slice (xs : List α) (p : ℕ × ℕ) : List α := (xs.drop p.1).take p.2

theorem length_slice (xs : List α) {p : ℕ × ℕ} (h : p.1 + p.2 ≤ xs.length) :
    (slice xs p).length = p.2 := by
  rw [slice, List.length_take, List.length_drop]
  omega

theorem tiles_append {a b : ℕ} {l l' : List (ℕ × ℕ)} :
    Tiles a b (l ++ l') ↔ ∃ m, Tiles a m l ∧ Tiles m b l' := by
  induction l generalizing a with
  | nil => simp [Tiles]
  | cons p l ih =>
    simp only [List.cons_append, Tiles, ih]
    constructor
    · rintro ⟨h1, h2, m, h3, h4⟩
      exact ⟨m, ⟨h1, h2, h3⟩, h4⟩
    · rintro ⟨m, ⟨h1, h2, h3⟩, h4⟩
      exact ⟨h1, h2, m, h3, h4⟩

/-- One more piece at the end of a tiling. -/
theorem Tiles.concat {a m n : ℕ} {l : List (ℕ × ℕ)} (h : Tiles a m l) (hn : 0 < n) :
    Tiles a (m + n) (l ++ [(m, n)]) :=
  tiles_append.mpr ⟨m, h, rfl, hn, rfl⟩

theorem Tiles.le {a b : ℕ} {l : List (ℕ × ℕ)} (h : Tiles a b l) : a ≤ b := by
  induction l generalizing a with
  | nil => exact Nat.le_of_eq h
  | cons p l ih =>
    have := ih h.2.2
    omega

theorem Tiles.pos {a b : ℕ} {l : List (ℕ × ℕ)} (h : Tiles a b l) : ∀ p ∈ l, 0 < p.2 := by
  induction l generalizing a with
  | nil => simp
  | cons p l ih =>
    intro q hq
    rcases List.mem_cons.mp hq with rfl | hq
    · exact h.2.1
    · exact ih h.2.2 q hq

theorem Tiles.bounds {a b : ℕ} {l : List (ℕ × ℕ)} (h : Tiles a b l) :
    ∀ p ∈ l, a ≤ p.1 ∧ p.1 + p.2 ≤ b := by
  induction l generalizing a with
  | nil => simp
  | cons p l ih =>
    obtain ⟨rfl, -, h3⟩ := h
    intro q hq
    rcases List.mem_cons.mp hq with rfl | hq
    · exact ⟨Nat.le_refl _, h3.le⟩
    · have hrest := ih h3 q hq
      omega

/-- All pieces together are as long as what they cover. -/
theorem Tiles.add_sum {a b : ℕ} {l : List (ℕ × ℕ)} (h : Tiles a b l) :
    a + (l.map Prod.snd).sum = b := by
  induction l generalizing a with
  | nil => exact h
  | cons p l ih =>
    obtain ⟨rfl, -, h3⟩ := h
    rw [List.map_cons, List.sum_cons, ← ih h3, Nat.add_assoc]

/-- **The pieces that end at or after `n` are as long as what comes after it**, but for one piece. -/
theorem Tiles.sum_filter_le {a b n m : ℕ} {l : List (ℕ × ℕ)} (h : Tiles a b l) (hn : n ≤ b)
    (hm : ∀ p ∈ l, p.2 ≤ m) :
    ((l.filter fun p => n ≤ p.1 + p.2).map Prod.snd).sum ≤ b - n + m := by
  induction l generalizing a with
  | nil => exact Nat.zero_le _
  | cons p l ih =>
    have hp := hm p List.mem_cons_self
    have hsum := h.add_sum
    obtain ⟨rfl, -, h3⟩ := h
    rw [List.filter_cons]
    split
    · rename_i hend
      rw [decide_eq_true_eq] at hend
      have hrest : ((l.filter fun p => n ≤ p.1 + p.2).map Prod.snd).sum ≤ (l.map Prod.snd).sum :=
        sum_map_filter_le _ fun _ _ => Nat.zero_le _
      rw [List.map_cons, List.sum_cons] at hsum ⊢
      omega
    · exact ih h3 fun q hq => hm q (List.mem_cons_of_mem _ hq)

/-- Every position is in a piece. -/
theorem Tiles.exists_mem {a b : ℕ} {l : List (ℕ × ℕ)} (h : Tiles a b l) {n : ℕ} (han : a ≤ n)
    (hnb : n < b) : ∃ p ∈ l, p.1 ≤ n ∧ n < p.1 + p.2 := by
  induction l generalizing a with
  | nil =>
    have hab : a = b := h
    omega
  | cons p l ih =>
    obtain ⟨rfl, -, h3⟩ := h
    by_cases hin : n < p.1 + p.2
    · exact ⟨p, List.mem_cons_self, han, hin⟩
    · obtain ⟨q, hq, hn⟩ := ih h3 (by omega)
      exact ⟨q, List.mem_cons_of_mem _ hq, hn⟩

/-- The first piece starts where the tiling does. -/
theorem Tiles.head {a b : ℕ} {l : List (ℕ × ℕ)} (h : Tiles a b l) {p : ℕ × ℕ}
    (hp : l.head? = some p) : p.1 = a := by
  cases l with
  | nil => simp at hp
  | cons q l =>
    obtain rfl : q = p := by simpa using hp
    exact h.1

/-- The last piece ends where the tiling does. -/
theorem Tiles.getLast {a b : ℕ} {l : List (ℕ × ℕ)} (h : Tiles a b l) {p : ℕ × ℕ}
    (hp : l.getLast? = some p) : p.1 + p.2 = b := by
  obtain ⟨l', rfl⟩ : ∃ l', l = l' ++ [p] := List.getLast?_eq_some_iff.mp hp
  obtain ⟨m, -, h1, -, h2⟩ := tiles_append.mp h
  rw [h1]
  exact h2

/-- Each piece starts where the piece before it ends. -/
theorem Tiles.consecutive {a b : ℕ} {l : List (ℕ × ℕ)} (h : Tiles a b l) (i : ℕ)
    (hi : i + 1 < l.length) : l[i + 1].1 = l[i].1 + l[i].2 := by
  induction l generalizing a i with
  | nil => simp at hi
  | cons p l ih =>
    obtain ⟨h1, -, h3⟩ := h
    cases i with
    | zero =>
      cases l with
      | nil => simp at hi
      | cons q l => simpa [h1] using h3.1
    | succ i => simpa using ih h3 i (by simpa using hi)

/-- **The slices of a tiling reassemble what it covers.** -/
theorem Tiles.flatMap_slice (xs : List α) {a b : ℕ} {l : List (ℕ × ℕ)} (h : Tiles a b l) :
    l.flatMap (slice xs) = (xs.drop a).take (b - a) := by
  induction l generalizing a with
  | nil =>
    obtain rfl : a = b := h
    simp
  | cons p l ih =>
    obtain ⟨rfl, -, h3⟩ := h
    have hle := h3.le
    rw [List.flatMap_cons, ih h3, slice, ← List.drop_drop, ← List.take_add]
    congr 1
    omega

end Foundations
