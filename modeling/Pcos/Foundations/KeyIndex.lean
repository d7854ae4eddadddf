import Pcos.Foundations.Dict

/-!
# Foundations/KeyIndex — an index beside a table

    rows : id ──▸ row        index : key of a row ──▸ id

The rows are filed by id, and the index leads from the key of a row to the id that it is filed under.
A row whose key no other row has can be set (`Mirrors.set`), and any row can be taken out.
-/

namespace Foundations.Dict

variable {ι ρ κ : Type*} [DecidableEq ι] [DecidableEq κ] {rows : Dict ι ρ} {key : ρ → κ}
  {index : Dict κ ι} {i i' : ι} {r r' : ρ}

/-- The index leads from the keys of the rows to their ids, and from nowhere else. -/
def Mirrors (rows : Dict ι ρ) (key : ρ → κ) (index : Dict κ ι) : Prop :=
  ∀ k i, index.get k = some i ↔ ∃ r, rows.get i = some r ∧ key r = k

namespace Mirrors

theorem empty : Mirrors (.empty : Dict ι ρ) key .empty := fun k i => by simp

theorem get_key (h : Mirrors rows key index) (hr : rows.get i = some r) :
    index.get (key r) = some i := (h _ _).mpr ⟨r, hr, rfl⟩

/-- **Rows of one key are one row.** -/
theorem eq_of_key (h : Mirrors rows key index) (hr : rows.get i = some r)
    (hr' : rows.get i' = some r') (hkey : key r = key r') : i = i' ∧ r = r' := by
  have hi := h.get_key hr
  rw [hkey, h.get_key hr'] at hi
  obtain rfl := Option.some.inj hi
  exact ⟨rfl, Option.some.inj (hr.symm.trans hr')⟩

/-- **A row is set** whose key is its own. -/
theorem set (h : Mirrors rows key index)
    (hkey : ∀ i' r', rows.get i' = some r' → (key r' = key r ↔ i' = i)) :
    Mirrors (rows.set i r) key (index.set (key r) i) := by
  intro k j
  rw [get_set]
  by_cases hj : j = i
  · subst hj
    simp only [get_set, if_true, Option.some.injEq, exists_eq_left']
    split
    · rename_i hk
      simp [hk]
    · rename_i hk
      rw [h]
      refine iff_of_false ?_ (Ne.symm hk)
      rintro ⟨r', hr', hkey'⟩
      exact hk (hkey'.symm.trans ((hkey j r' hr').mpr rfl))
  · simp only [get_set, if_neg hj]
    split
    · rename_i hk
      subst hk
      refine iff_of_false (fun heq => hj (Option.some.inj heq).symm) ?_
      rintro ⟨r', hr', hkey'⟩
      exact hj ((hkey j r' hr').mp hkey')
    · exact h k j

/-- **A row is taken out.** -/
theorem delete (h : Mirrors rows key index) (hr : rows.get i = some r) :
    Mirrors (rows.delete i) key (index.delete (key r)) := by
  intro k j
  rw [get_delete]
  simp only [get_delete]
  by_cases hk : k = key r
  · subst hk
    refine iff_of_false (by simp) ?_
    rintro ⟨r', hr', hkey⟩
    split at hr'
    · cases hr'
    · rename_i hj
      exact hj (h.eq_of_key hr' hr hkey).1
  · rw [if_neg hk, h]
    refine exists_congr fun r' => and_congr_left fun hkey => ?_
    split
    · rename_i hj
      subst hj
      refine iff_of_false (fun hr' => hk ?_) (by simp)
      rw [← hkey, Option.some.inj (hr'.symm.trans hr)]
    · exact Iff.rfl

end Mirrors

end Foundations.Dict
