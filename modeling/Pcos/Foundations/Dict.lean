import Mathlib.Data.List.Basic
import Mathlib.Data.List.Nodup

/-!
# Foundations/Dict — maps that remember the order of insertion

A `Dict` lists its entries in the order in which their keys first came in, each key once: setting a
key that is there replaces its value in place, and iterating visits the entries in that order.  What
the map *is* is its `get`; every lemma below says what an operation does to it.
-/

namespace Foundations

/-- A finite map, its entries in order of insertion. -/
structure Dict (κ ν : Type*) where
  entries : List (κ × ν)
  nodup : (entries.map Prod.fst).Nodup

namespace Dict

variable {κ ν : Type*} [DecidableEq κ]

instance [DecidableEq ν] : DecidableEq (Dict κ ν) := fun d e =>
  decidable_of_iff (d.entries = e.entries) (by cases d; cases e; simp)

def empty : Dict κ ν := ⟨[], List.nodup_nil⟩

def get (d : Dict κ ν) (k : κ) : Option ν := d.entries.lookup k

def has (d : Dict κ ν) (k : κ) : Bool := (d.get k).isSome

/-- The entries without the key. -/
def delete (d : Dict κ ν) (k : κ) : Dict κ ν where
  entries := d.entries.filter fun e => e.1 ≠ k
  nodup := d.nodup.sublist (List.filter_sublist.map Prod.fst)

/-- The value goes where the key is, or to the end. -/
def setEntries (k : κ) (v : ν) : List (κ × ν) → List (κ × ν)
  | [] => [(k, v)]
  | e :: es => if e.1 = k then (k, v) :: es else e :: setEntries k v es

theorem mem_keys_setEntries {k k' : κ} {v : ν} {es : List (κ × ν)}
    (h : k' ∈ (setEntries k v es).map Prod.fst) : k' = k ∨ k' ∈ es.map Prod.fst := by
  induction es with
  | nil => simpa [setEntries] using h
  | cons e es ih =>
    rw [setEntries] at h
    split at h
    · rename_i he
      rw [List.map_cons, List.mem_cons] at h
      exact h.imp_right fun h => List.mem_cons_of_mem _ h
    · rw [List.map_cons, List.mem_cons] at h ⊢
      rcases h with h | h
      · exact Or.inr (Or.inl h)
      · exact (ih h).imp_right Or.inr

theorem nodup_keys_setEntries (k : κ) (v : ν) {es : List (κ × ν)}
    (h : (es.map Prod.fst).Nodup) : ((setEntries k v es).map Prod.fst).Nodup := by
  induction es with
  | nil => simp [setEntries]
  | cons e es ih =>
    rw [List.map_cons, List.nodup_cons] at h
    rw [setEntries]
    split
    · rename_i he
      rw [List.map_cons, List.nodup_cons]
      exact ⟨he ▸ h.1, h.2⟩
    · rename_i he
      rw [List.map_cons, List.nodup_cons]
      exact ⟨fun hmem => (mem_keys_setEntries hmem).elim he h.1, ih h.2⟩

def set (d : Dict κ ν) (k : κ) (v : ν) : Dict κ ν where
  entries := setEntries k v d.entries
  nodup := nodup_keys_setEntries k v d.nodup

/-! ## What `get` sees -/

@[simp] theorem get_empty (k : κ) : (empty : Dict κ ν).get k = none := rfl

theorem lookup_cons_of_ne {k k' : κ} (h : k ≠ k') (v : ν) (es : List (κ × ν)) :
    ((k', v) :: es).lookup k = es.lookup k := by
  rw [List.lookup_cons, beq_false_of_ne h]

theorem lookup_filter_key (p : κ → Bool) (k : κ) (es : List (κ × ν)) :
    (es.filter fun e => p e.1).lookup k = if p k then es.lookup k else none := by
  induction es with
  | nil => simp
  | cons e es ih =>
    obtain ⟨k', v⟩ := e
    by_cases hk : k = k'
    · subst hk
      by_cases hp : p k = true
      · simp [hp]
      · rw [List.filter_cons_of_neg (by simpa using hp), ih, if_neg hp, if_neg hp]
    · rw [lookup_cons_of_ne hk]
      by_cases hp : p k' = true
      · rw [List.filter_cons_of_pos (by simpa using hp), lookup_cons_of_ne hk, ih]
      · rw [List.filter_cons_of_neg (by simpa using hp), ih]

@[simp] theorem get_delete (d : Dict κ ν) (k k' : κ) :
    (d.delete k).get k' = if k' = k then none else d.get k' := by
  have h := lookup_filter_key (fun e => decide (e ≠ k)) k' d.entries
  simp only [get, delete, h]
  by_cases hk : k' = k <;> simp [hk]

theorem lookup_setEntries (k k' : κ) (v : ν) (es : List (κ × ν)) :
    (setEntries k v es).lookup k' = if k' = k then some v else es.lookup k' := by
  induction es with
  | nil =>
    by_cases hk : k' = k
    · simp [setEntries, hk]
    · rw [setEntries, lookup_cons_of_ne hk, if_neg hk]
  | cons e es ih =>
    obtain ⟨k₀, v₀⟩ := e
    rw [setEntries]
    split
    · rename_i he
      obtain rfl : k₀ = k := he
      by_cases hk : k' = k₀
      · simp [hk]
      · rw [lookup_cons_of_ne hk, lookup_cons_of_ne hk, if_neg hk]
    · rename_i he
      by_cases hk : k' = k₀
      · have hne : k' ≠ k := fun h => he (hk.symm.trans h)
        subst hk
        simp [hne]
      · rw [lookup_cons_of_ne hk, lookup_cons_of_ne hk, ih]

@[simp] theorem get_set (d : Dict κ ν) (k k' : κ) (v : ν) :
    (d.set k v).get k' = if k' = k then some v else d.get k' :=
  lookup_setEntries k k' v d.entries

theorem lookup_of_mem {es : List (κ × ν)} (hnd : (es.map Prod.fst).Nodup) {k : κ} {v : ν}
    (h : (k, v) ∈ es) : es.lookup k = some v := by
  induction es with
  | nil => cases h
  | cons e es ih =>
    obtain ⟨k₀, v₀⟩ := e
    rw [List.map_cons, List.nodup_cons] at hnd
    rcases List.mem_cons.mp h with heq | hmem
    · obtain ⟨rfl, rfl⟩ := Prod.mk.inj heq
      exact List.lookup_cons_self
    · have hne : k ≠ k₀ := by
        rintro rfl
        exact hnd.1 (List.mem_map.mpr ⟨_, hmem, rfl⟩)
      rw [lookup_cons_of_ne hne]
      exact ih hnd.2 hmem

/-- An entry is what `get` finds under its key. -/
theorem mem_entries {d : Dict κ ν} {k : κ} {v : ν} : (k, v) ∈ d.entries ↔ d.get k = some v := by
  constructor
  · exact lookup_of_mem d.nodup
  · intro h
    obtain ⟨l₁, l₂, heq, -⟩ := List.lookup_eq_some_iff.mp h
    rw [heq]
    exact List.mem_append_right _ List.mem_cons_self

/-! ## Entries up to order -/

/-- The entry of a key, and the others. -/
theorem perm_of_get {d : Dict κ ν} {k : κ} {v : ν} (h : d.get k = some v) :
    d.entries.Perm ((k, v) :: (d.delete k).entries) := by
  obtain ⟨es, hnd⟩ := d
  simp only [get, delete] at h ⊢
  induction es with
  | nil => cases h
  | cons e es ih =>
    obtain ⟨k₀, v₀⟩ := e
    rw [List.map_cons, List.nodup_cons] at hnd
    by_cases hk : k = k₀
    · subst hk
      rw [List.lookup_cons_self, Option.some.injEq] at h
      have hrest : (es.filter fun e => decide (e.1 ≠ k)) = es :=
        List.filter_eq_self.mpr fun e he =>
          decide_eq_true fun hek => hnd.1 (List.mem_map.mpr ⟨e, he, hek⟩)
      rw [List.filter_cons_of_neg (by simp), hrest, h]
    · rw [lookup_cons_of_ne hk] at h
      rw [List.filter_cons_of_pos (by simpa using Ne.symm hk)]
      exact ((ih hnd.2 h).cons _).trans (List.Perm.swap _ _ _)

/-- Setting a key replaces its entry. -/
theorem perm_set (d : Dict κ ν) (k : κ) (v : ν) :
    (d.set k v).entries.Perm ((k, v) :: (d.delete k).entries) := by
  have hdelete : ((d.set k v).delete k).entries = (d.delete k).entries := by
    simp only [delete, set]
    induction d.entries with
    | nil => simp [setEntries]
    | cons e es ih =>
      rw [setEntries]
      split
      · rename_i he
        rw [List.filter_cons_of_neg (by simp), List.filter_cons_of_neg (by simp [he])]
      · rename_i he
        rw [List.filter_cons_of_pos (by simpa using he), ih,
          List.filter_cons_of_pos (by simpa using he)]
  exact hdelete ▸ perm_of_get ((get_set d k k v).trans (if_pos rfl))

/-- How many values are of the kind. -/
def count (d : Dict κ ν) (p : ν → Bool) : ℕ := d.entries.countP fun e => p e.2

@[simp] theorem count_empty (p : ν → Bool) : (empty : Dict κ ν).count p = 0 := rfl

theorem count_of_get {d : Dict κ ν} {k : κ} {v : ν} (h : d.get k = some v) (p : ν → Bool) :
    d.count p = (d.delete k).count p + if p v then 1 else 0 := by
  rw [count, (perm_of_get h).countP_eq, List.countP_cons, count]

theorem count_set (d : Dict κ ν) (k : κ) (v : ν) (p : ν → Bool) :
    (d.set k v).count p = (d.delete k).count p + if p v then 1 else 0 := by
  rw [count, (perm_set d k v).countP_eq, List.countP_cons, count]

theorem count_delete_le (d : Dict κ ν) (k : κ) (p : ν → Bool) : (d.delete k).count p ≤ d.count p :=
  List.filter_sublist.countP_le

/-! ## Loops over a list that delete or set keys -/

variable {ε : Type*}

/-- The keys of the picked elements are deleted. -/
def deleteAll (p : ε → Bool) (f : ε → κ) (es : List ε) (d : Dict κ ν) : Dict κ ν :=
  es.foldl (fun d e => if p e then d.delete (f e) else d) d

/-- The keys of the picked elements are set. -/
def setAll (p : ε → Bool) (f : ε → κ) (g : ε → ν) (es : List ε) (d : Dict κ ν) : Dict κ ν :=
  es.foldl (fun d e => if p e then d.set (f e) (g e) else d) d

theorem get_deleteAll (p : ε → Bool) (f : ε → κ) (es : List ε) (d : Dict κ ν) (k : κ) :
    (deleteAll p f es d).get k = if ∃ e ∈ es, p e ∧ f e = k then none else d.get k := by
  induction es generalizing d with
  | nil => simp [deleteAll]
  | cons e es ih =>
    rw [deleteAll, List.foldl_cons]
    refine (ih _).trans ?_
    by_cases hp : p e = true
    · by_cases hk : f e = k
      · simp [hp, hk]
      · have hk' : k ≠ f e := fun h => hk h.symm
        simp [hp, hk, hk']
    · simp [hp]

theorem get_setAll_of_none (p : ε → Bool) (f : ε → κ) (g : ε → ν) {es : List ε} (d : Dict κ ν)
    {k : κ} (h : ∀ e ∈ es, p e → f e ≠ k) : (setAll p f g es d).get k = d.get k := by
  induction es generalizing d with
  | nil => rfl
  | cons e es ih =>
    rw [setAll, List.foldl_cons]
    refine (ih _ fun e' he' => h e' (List.mem_cons_of_mem _ he')).trans ?_
    split
    · rename_i hp
      rw [get_set, if_neg fun hk => h e List.mem_cons_self hp hk.symm]
    · rfl

/-- A key that one value is set under has that value afterwards. -/
theorem get_setAll_of_mem (p : ε → Bool) (f : ε → κ) (g : ε → ν) {es : List ε} (d : Dict κ ν)
    {k : κ} {v : ν} (hmem : ∃ e ∈ es, p e ∧ f e = k)
    (h : ∀ e ∈ es, p e → f e = k → g e = v) : (setAll p f g es d).get k = some v := by
  induction es generalizing d with
  | nil => simp at hmem
  | cons e es ih =>
    rw [setAll, List.foldl_cons]
    have hrest : ∀ e' ∈ es, p e' → f e' = k → g e' = v :=
      fun e' he' => h e' (List.mem_cons_of_mem _ he')
    by_cases hes : ∃ e' ∈ es, p e' ∧ f e' = k
    · exact ih _ hes hrest
    · obtain ⟨e', he', hp, hk⟩ := hmem
      obtain rfl : e' = e := by
        rcases List.mem_cons.mp he' with heq | hin
        · exact heq
        · exact absurd ⟨e', hin, hp, hk⟩ hes
      have hnone : ∀ e₁ ∈ es, p e₁ → f e₁ ≠ k := fun e₁ h₁ hp₁ hk₁ => hes ⟨e₁, h₁, hp₁, hk₁⟩
      refine (get_setAll_of_none p f g _ hnone).trans ?_
      rw [if_pos hp, get_set, if_pos hk.symm, h e' List.mem_cons_self hp hk]

/-- **A key has the value that was set last.** -/
theorem get_foldl_set (writes : List (κ × ν)) (d : Dict κ ν) (k : κ) :
    (writes.foldl (fun d w => d.set w.1 w.2) d).get k =
      ((writes.filter fun w => w.1 = k).getLast?.map Prod.snd).or (d.get k) := by
  induction writes generalizing d with
  | nil => rfl
  | cons w writes ih =>
    rw [List.foldl_cons, ih, get_set]
    by_cases hk : w.1 = k
    · rw [if_pos hk.symm, List.filter_cons_of_pos (by simpa using hk), List.getLast?_cons]
      cases (writes.filter fun w => w.1 = k).getLast? <;> rfl
    · rw [if_neg fun h => hk h.symm, List.filter_cons_of_neg (by simpa using hk)]

end Dict

end Foundations
