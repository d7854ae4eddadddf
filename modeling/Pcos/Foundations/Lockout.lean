import Mathlib.Data.Int.Notation
import Mathlib.Algebra.Order.Ring.Int

/-!
# Foundations/Lockout — failures counted until they block

A limiter keeps one record: how many attempts failed, and until when attempts are refused.  A
failure is counted on top of the record that was *seen*, which need not be the record it replaces.

    seen ──failed──▸ record          ledger: the blocks since the last success,
                                             the failures since the last success or block

The `Ledger` says what the record owes: its blocks stand to their ends, and enough failures make a
block.  **A failure that advances the record keeps the ledger honoured** (`Keeps.failed`).
-/

namespace Foundations.Lockout

/-- The failures counted, and the end of the block. -/
structure Record where
  count : ℕ
  blockedUntil : ℤ
deriving DecidableEq

/-- The failures counted so far. -/
def count (cur : Option Record) : ℕ := cur.elim 0 Record.count

/-- The end of the block. -/
def stop (cur : Option Record) : ℤ := cur.elim 0 Record.blockedUntil

/-- Attempts are refused at the time. -/
def Blocked (cur : Option Record) (now : ℤ) : Prop := ∃ r ∈ cur, now < r.blockedUntil

instance Blocked.decidable (now : ℤ) : ∀ cur : Option Record, Decidable (Blocked cur now)
  | none => isFalse fun ⟨_, h, _⟩ => nomatch h
  | some r => decidable_of_iff (now < r.blockedUntil) (by simp [Blocked])

/-- The failures with one more counted in; those of a record that blocks are not counted. -/
def tally (now : ℤ) : Option Record → ℕ
  | some r => (if r.blockedUntil ≤ now then r.count else 0) + 1
  | none => 1

/-- The record of a failure. -/
def failed (most : ℕ) (period now : ℤ) (seen : Option Record) : Record :=
  ⟨tally now seen, if most ≤ tally now seen then now + period else 0⟩

/-- The ends of the blocks since the last success, and the failures since the last of either. -/
structure Ledger where
  blocks : List ℤ
  since : ℕ
deriving DecidableEq

/-- A success. -/
def Ledger.clear : Ledger := ⟨[], 0⟩

/-- A failure, after which the record is as given. -/
def Ledger.fail (now : ℤ) (r : Record) (l : Ledger) : Ledger :=
  if now < r.blockedUntil then ⟨r.blockedUntil :: l.blocks, 0⟩ else { l with since := l.since + 1 }

/-- Every block stands to its end, and the failures that make a block have not all come. -/
structure Honours (most : ℕ) (cur : Option Record) (l : Ledger) : Prop where
  blocked : ∀ T ∈ l.blocks, ∀ now < T, Blocked cur now
  since_lt : l.since < most

/-- The record counts what the ledger does. -/
structure Keeps (most : ℕ) (cur : Option Record) (l : Ledger) : Prop where
  since_le : l.since ≤ count cur
  since_eq : most ≤ count cur → l.since = 0
  blocks : ∀ T ∈ l.blocks, most ≤ count cur ∧ T ≤ stop cur

/-- The record of the failure counts more than the one it replaces, or blocks for longer. -/
def Advances (most : ℕ) (period now : ℤ) (seen cur : Option Record) : Prop :=
  if most ≤ tally now seen then stop cur ≤ now + period else count cur < tally now seen

instance Advances.decidable (most : ℕ) (period now : ℤ) (seen cur : Option Record) :
    Decidable (Advances most period now seen cur) :=
  inferInstanceAs (Decidable (if most ≤ tally now seen then stop cur ≤ now + period
    else count cur < tally now seen))

variable {most : ℕ} {period now : ℤ} {seen cur : Option Record} {l : Ledger}

theorem Keeps.clear : Keeps most none Ledger.clear where
  since_le := Nat.le_refl 0
  since_eq _ := rfl
  blocks _ hT := absurd hT List.not_mem_nil

theorem Keeps.honours (h : Keeps most cur l) (hmost : 0 < most) : Honours most cur l where
  blocked T hT now hnow := by
    obtain ⟨hcount, huntil⟩ := h.blocks T hT
    rcases cur with _ | r
    · exact absurd hcount (Nat.not_le.mpr hmost)
    · exact ⟨r, rfl, lt_of_lt_of_le hnow huntil⟩
  since_lt := by
    rcases Nat.lt_or_ge (count cur) most with hlt | hge
    · exact lt_of_le_of_lt h.since_le hlt
    · exact h.since_eq hge ▸ hmost

/-- **A failure that advances the record keeps it.** -/
theorem Keeps.failed (h : Keeps most cur l) (hperiod : 0 < period) (hnow : 0 ≤ now)
    (hadv : Advances most period now seen cur) :
    Keeps most (some (failed most period now seen))
      (l.fail now (failed most period now seen)) := by
  unfold Advances at hadv
  by_cases hmost : most ≤ tally now seen
  · -- the failure blocks, and no earlier block lasts longer
    rw [if_pos hmost] at hadv
    have hrecord : Lockout.failed most period now seen = ⟨tally now seen, now + period⟩ := by
      rw [Lockout.failed, if_pos hmost]
    rw [hrecord, Ledger.fail, if_pos (by simpa using hperiod)]
    refine ⟨Nat.zero_le _, fun _ => rfl, fun T hT => ⟨hmost, ?_⟩⟩
    rcases List.mem_cons.mp hT with rfl | hT
    · exact le_refl _
    · exact (h.blocks T hT).2.trans hadv
  · -- the failure is one more, and there was no block to lose
    rw [if_neg hmost] at hadv
    have hrecord : Lockout.failed most period now seen = ⟨tally now seen, 0⟩ := by
      rw [Lockout.failed, if_neg hmost]
    rw [hrecord, Ledger.fail, if_neg (by simpa using hnow)]
    refine ⟨Nat.lt_of_le_of_lt h.since_le hadv, fun hge => absurd hge hmost, fun T hT => ?_⟩
    exact absurd ((h.blocks T hT).1.trans hadv.le) hmost

/-- A failure counted on the current record advances it, unless the record blocks. -/
theorem advances_of_not_blocked (hperiod : 0 < period) (hnow : 0 ≤ now)
    (hblocked : ¬ Blocked cur now) : Advances most period now cur cur := by
  have hlate : 0 ≤ now + period := by omega
  rcases cur with _ | r
  · unfold Advances
    split
    · exact hlate
    · exact Nat.zero_lt_one
  · have hle : r.blockedUntil ≤ now := not_lt.mp fun hlt => hblocked ⟨r, rfl, hlt⟩
    have hmore : count (some r) < tally now (some r) := by
      simp only [tally, if_pos hle]
      exact Nat.lt_succ_self r.count
    unfold Advances
    split
    · exact hle.trans (by omega)
    · exact hmore

end Foundations.Lockout
