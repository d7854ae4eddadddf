import Mathlib.Data.List.Sort
import Mathlib.Data.List.TakeWhile

/-!
# Foundations/StableSort — a stable sort, and what may be done before or after it

`List.insertionSort` keeps the order of entries that are equal for the relation.  A filter may be
applied on either side of it (`filter_insertionSort`), sorting a part first changes nothing
(`insertionSort_insertionSort_append`), and what held of all pairs in their order still holds of the
pairs the relation cannot tell apart (`pairwise_insertionSort_stable`).  Where some entries stand
before all the others, the sorted list is cut between them (`eq_filter_append_filter`).
-/

namespace Foundations

variable {α : Type*} {r : α → α → Prop} [DecidableRel r]

section Order

variable [IsTrans α r]

theorem filter_orderedInsert (p : α → Bool) (a : α) {l : List α} (hl : l.Pairwise r) :
    (l.orderedInsert r a).filter p
      = if p a then (l.filter p).orderedInsert r a else l.filter p := by
  induction l with
  | nil => by_cases hp : p a <;> simp [hp]
  | cons b l ih =>
    obtain ⟨hb, hl⟩ := List.pairwise_cons.mp hl
    by_cases hab : r a b
    · -- `a` stands before `b`, hence before whatever the filter keeps
      have hall : ∀ c ∈ (b :: l).filter p, r a c := by
        intro c hc
        rcases List.mem_cons.mp (List.mem_of_mem_filter hc) with rfl | hc
        · exact hab
        · exact trans_of r hab (hb c hc)
      rw [List.orderedInsert_cons_of_le r l hab, List.filter_cons]
      refine if_congr Iff.rfl ?_ rfl
      cases hf : (b :: l).filter p with
      | nil => rfl
      | cons c m => rw [List.orderedInsert_cons_of_le r m (hall c (by simp [hf]))]
    · rw [List.orderedInsert_cons, if_neg hab, List.filter_cons, ih hl]
      by_cases hp : p a <;> by_cases hpb : p b <;> simp [hp, hpb, hab]

variable [Std.Total r]

/-- **A stable sort commutes with a filter.** -/
theorem filter_insertionSort (p : α → Bool) (l : List α) :
    (l.insertionSort r).filter p = (l.filter p).insertionSort r := by
  induction l with
  | nil => rfl
  | cons a l ih =>
    rw [List.insertionSort_cons, filter_orderedInsert p a (List.pairwise_insertionSort r l), ih,
      List.filter_cons]
    split
    · rfl
    · rfl

/-- Entries that differ for the relation can be inserted in either order. -/
theorem orderedInsert_comm {a b : α} (hab : ¬ r a b) {l : List α} (hl : l.Pairwise r) :
    (l.orderedInsert r a).orderedInsert r b = (l.orderedInsert r b).orderedInsert r a := by
  have hba : r b a := (total_of r b a).resolve_right hab
  induction l with
  | nil => simp [hab, hba]
  | cons c l ih =>
    by_cases hac : r a c
    · have hbc : r b c := trans_of r hba hac
      simp [hac, hbc, hab, hba]
    · by_cases hbc : r b c
      · simp [hac, hbc, hab]
      · simp [hac, hbc, ih (List.pairwise_cons.mp hl).2]

theorem pairwise_foldr_orderedInsert (l : List α) {m : List α} (hm : m.Pairwise r) :
    (l.foldr (List.orderedInsert r) m).Pairwise r := by
  induction l with
  | nil => exact hm
  | cons a l ih => exact ih.orderedInsert a _

theorem foldr_orderedInsert (a : α) (l : List α) {m : List α} (hm : m.Pairwise r) :
    (l.orderedInsert r a).foldr (List.orderedInsert r) m
      = (l.foldr (List.orderedInsert r) m).orderedInsert r a := by
  induction l with
  | nil => rfl
  | cons b l ih =>
    by_cases hab : r a b
    · rw [List.orderedInsert_cons_of_le r l hab]
      rfl
    · rw [List.orderedInsert_cons, if_neg hab, List.foldr_cons, ih, List.foldr_cons]
      exact orderedInsert_comm hab (pairwise_foldr_orderedInsert l hm)

/-- **Sorting a first part beforehand changes nothing.** -/
theorem insertionSort_insertionSort_append (l m : List α) :
    (l.insertionSort r ++ m).insertionSort r = (l ++ m).insertionSort r := by
  have hm : (m.insertionSort r).Pairwise r := List.pairwise_insertionSort r m
  unfold List.insertionSort at hm ⊢
  rw [List.foldr_append, List.foldr_append]
  induction l with
  | nil => rfl
  | cons a l ih => rw [List.foldr_cons, List.foldr_cons, foldr_orderedInsert a _ hm, ih]

end Order

/-- **The sort is stable**: of two entries in the order they had, nothing is lost that held of them
in it, unless the relation tells them apart. -/
theorem pairwise_insertionSort_stable {q : α → α → Prop} {l : List α} (hl : l.Pairwise q) :
    (l.insertionSort r).Pairwise fun a b => r b a → q a b := by
  induction l with
  | nil => exact List.Pairwise.nil
  | cons a l ih =>
    obtain ⟨ha, hl⟩ := List.pairwise_cons.mp hl
    rw [List.insertionSort_cons_eq_take_drop]
    have hsort := ih hl
    rw [← List.takeWhile_append_dropWhile (p := fun b => ¬ r a b) (l := l.insertionSort r),
      List.pairwise_append] at hsort
    obtain ⟨htake, hdrop, hacross⟩ := hsort
    have hmem : ∀ c ∈ (l.insertionSort r).dropWhile fun b => ¬ r a b, q a c := fun c hc =>
      ha c ((List.mem_insertionSort r).mp ((List.dropWhile_sublist _).subset hc))
    refine List.pairwise_append.mpr
      ⟨htake, List.pairwise_cons.mpr ⟨fun c hc _ => hmem c hc, hdrop⟩, fun b hb c hc => ?_⟩
    rcases List.mem_cons.mp hc with rfl | hc
    · -- what stands before `a` is not related to it
      intro hcb
      exact absurd hcb (by simpa using List.mem_takeWhile_imp hb)
    · exact hacross b hb c hc

omit [DecidableRel r] in
/-- **A sorted list in which some stand before all the others is cut where the others begin.** -/
theorem eq_filter_append_filter {p : α → Bool} {l : List α} (hl : l.Pairwise r)
    (hp : ∀ a ∈ l, ∀ b ∈ l, p a → !p b → ¬ r b a) :
    l = l.filter p ++ l.filter fun a => !p a := by
  induction l with
  | nil => rfl
  | cons a l ih =>
    obtain ⟨ha, hl⟩ := List.pairwise_cons.mp hl
    have hrest := ih hl fun b hb c hc =>
      hp b (List.mem_cons_of_mem a hb) c (List.mem_cons_of_mem a hc)
    cases hpa : p a with
    | true =>
      rw [List.filter_cons_of_pos hpa, List.filter_cons_of_neg (by simp [hpa]), List.cons_append,
        ← hrest]
    | false =>
      have hnone : l.filter p = [] := List.filter_eq_nil_iff.mpr fun b hb hpb =>
        hp b (List.mem_cons_of_mem a hb) a List.mem_cons_self hpb (by simp [hpa]) (ha b hb)
      rw [hnone] at hrest
      rw [List.filter_cons_of_neg (by simp [hpa]), List.filter_cons_of_pos (by simp [hpa]), hnone]
      exact congrArg (a :: ·) hrest

end Foundations
