import Mathlib.Algebra.Order.Group.Nat
import Mathlib.Data.List.Nodup
import Mathlib.Logic.Function.Iterate

/-!
# Foundations/Batches — a worklist served from its head, `k` entries at a time

A pass looks at the first `k` entries, drops those it can serve and leaves the others where they
are.  What cannot be served stays at the head, so it can fill the batch: an entry is served in the
end iff fewer than `k` such entries stand before it (`mem_iterate_batch_iff`).
-/

namespace Foundations

variable {α : Type*} (k : ℕ) (stuck : α → Bool)

/-- One pass over a worklist: of its first `k` entries the stuck ones stay. -/
def batch (l : List α) : List α := (l.take k).filter stuck ++ l.drop k

variable {k : ℕ} {stuck : α → Bool} {l front back : List α} {a : α}

theorem countP_batch (l : List α) : (batch k stuck l).countP stuck = l.countP stuck := by
  have hsplit : l.countP stuck = (l.take k).countP stuck + (l.drop k).countP stuck := by
    rw [← List.countP_append, List.take_append_drop]
  rw [batch, List.countP_append, List.countP_filter, hsplit]
  simp

/-- On a list without repetitions a pass is a filter. -/
theorem batch_eq_filter [DecidableEq α] (h : l.Nodup) :
    batch k stuck l = l.filter fun a => decide (a ∉ l.take k) || stuck a := by
  rw [batch]
  conv_rhs => rw [← List.take_append_drop k l, List.filter_append, List.take_append_drop]
  have hsep := List.disjoint_of_nodup_append ((List.take_append_drop k l).symm ▸ h)
  congr 1
  · exact List.filter_congr fun a ha => by simp [ha]
  · refine (List.filter_eq_self.mpr fun a ha => ?_).symm
    have hnew : a ∉ l.take k := fun hfirst => hsep hfirst ha
    simp [hnew]

theorem mem_of_mem_batch (h : a ∈ batch k stuck l) : a ∈ l := by
  rcases List.mem_append.mp h with h | h
  · exact List.mem_of_mem_take (List.mem_of_mem_filter h)
  · exact List.mem_of_mem_drop h

theorem mem_of_mem_iterate_batch {n : ℕ} (h : a ∈ (batch k stuck)^[n] l) : a ∈ l := by
  induction n generalizing l with
  | zero => exact h
  | succ n ih => exact mem_of_mem_batch (ih h)

/-- An entry with a full batch before it is not looked at. -/
theorem batch_append_of_le (h : k ≤ front.length) :
    batch k stuck (front ++ back) = batch k stuck front ++ back := by
  rw [batch, batch, List.take_append_of_le_length h, List.drop_append_of_le_length h,
    List.append_assoc]

/-- One that can be served and is looked at is gone. -/
theorem notMem_batch_of_lt (h : front.length < k) (ha : stuck a = false) (hb : a ∉ back) :
    a ∉ batch k stuck (front ++ a :: back) := by
  intro hmem
  rcases List.mem_append.mp hmem with hmem | hmem
  · rw [List.mem_filter, ha] at hmem
    cases hmem.2
  · rw [List.drop_append, List.drop_eq_nil_of_le h.le, List.nil_append] at hmem
    obtain ⟨m, hm⟩ : ∃ m, k - front.length = m + 1 := ⟨k - front.length - 1, by omega⟩
    rw [hm, List.drop_succ_cons] at hmem
    exact hb (List.mem_of_mem_drop hmem)

/-- A batch that is not all stuck shrinks the list. -/
theorem length_batch_lt (h : l.countP stuck < k) (hk : k ≤ l.length) :
    (batch k stuck l).length < l.length := by
  have hlt : ((l.take k).filter stuck).length < k := by
    rw [← List.countP_eq_length_filter]
    exact (List.take_sublist k l).countP_le.trans_lt h
  rw [batch, List.length_append, List.length_drop]
  omega

/-- **Stuck entries starve what is behind them**: a full batch of them keeps it where it is. -/
theorem iterate_batch_append (h : k ≤ front.countP stuck) (n : ℕ) :
    (batch k stuck)^[n] (front ++ back) = (batch k stuck)^[n] front ++ back := by
  induction n generalizing front with
  | zero => rfl
  | succ n ih =>
    rw [Function.iterate_succ_apply, Function.iterate_succ_apply,
      batch_append_of_le (h.trans List.countP_le_length), ih (by rwa [countP_batch])]

/-- With fewer of them, every pass brings an entry nearer, and it is served in the end. -/
theorem notMem_iterate_batch (h : front.countP stuck < k) (ha : stuck a = false)
    (hb : a ∉ back) {n : ℕ} (hn : front.length < n) :
    a ∉ (batch k stuck)^[n] (front ++ a :: back) := by
  induction n generalizing front with
  | zero => cases hn
  | succ n ih =>
    rw [Function.iterate_succ_apply]
    rcases lt_or_ge front.length k with hlt | hge
    · exact fun hmem => notMem_batch_of_lt hlt ha hb (mem_of_mem_iterate_batch hmem)
    · rw [batch_append_of_le hge]
      have hshort := length_batch_lt h hge
      exact ih (by rwa [countP_batch]) (by omega)

/-- **An entry is still waiting after enough passes iff a full batch of stuck ones is before it.** -/
theorem mem_iterate_batch_iff (ha : stuck a = false) (hb : a ∉ back) {n : ℕ}
    (hn : front.length < n) :
    a ∈ (batch k stuck)^[n] (front ++ a :: back) ↔ k ≤ front.countP stuck := by
  refine ⟨fun hmem => not_lt.mp fun h => notMem_iterate_batch h ha hb hn hmem, fun h => ?_⟩
  rw [iterate_batch_append h]
  simp

end Foundations
