import Pcos.Backend.System

/-!
# Backend/QuotaCheck — the quota check over the exact integers (`service.rs`)

`check_storage_quota` adds what comes in, a number that the client may have made up, to a sum that the
database made, and compares the result with the quota.  The addition is one of 64 bits, a sum that is
none is taken for 0, and nothing asks for the sign.  `exactCheck_iff` says for which numbers the check
is what it is meant to be all the same.
-/

namespace Pcos

open Foundations

/-- A number of 64 bits. -/
def InI64 (x : ℤ) : Prop := -2 ^ 63 ≤ x ∧ x < 2 ^ 63

instance (x : ℤ) : Decidable (InI64 x) := inferInstanceAs (Decidable (_ ∧ _))

theorem wrapI64_eq_self_iff {x : ℤ} : wrapI64 x = x ↔ InI64 x := by
  constructor
  · intro h
    have hle := Int.le_bmod (x := x) (m := 2 ^ 64) (by decide)
    have hlt := Int.bmod_lt (x := x) (m := 2 ^ 64) (by decide)
    rw [wrapI64] at h
    rw [h] at hle hlt
    exact ⟨by omega, by omega⟩
  · rintro ⟨hle, hlt⟩
    exact Int.bmod_eq_of_le (by omega) (by omega)

/-- The check accepts. -/
def Accepts (w : World) (user : Uuid) (incoming : ℤ) : Prop :=
  wp (checkStorageQuota user incoming) (fun _ _ => True) (fun _ _ => False) w

theorem accepts_iff {w : World} {user : Uuid} {incoming : ℤ} :
    Accepts w user incoming ↔ withinQuota w user incoming = true := by
  simp only [Accepts, checkStorageQuota, wp_bind, wp_get, wp_ensure, imp_true_iff, true_and,
    imp_false, Bool.not_eq_false]

/-- The addition does not wrap around, and what is let in is not negative and fits in the quota. -/
structure ExactCheck (w : World) (user : Uuid) (incoming : ℤ) : Prop where
  inRange : wrapI64 (usedBytes w user + incoming) = usedBytes w user + incoming
  exact : Accepts w user incoming ↔
    0 ≤ incoming ∧ sumSizes w user + incoming ≤ quotaLimit w user

/-- The sum of the sizes fits in 64 bits, also with what comes in, which is not negative or exceeds
the quota all the same.  Where the sum does not fit and 0 is taken for it, what comes in exceeds the
quota on its own and is to be refused, or fits and is to be let in since the sum is negative. -/
def InLimits (w : World) (user : Uuid) (incoming : ℤ) : Prop :=
  let used := sumSizes w user
  let quota := quotaLimit w user
  if InI64 used then InI64 (used + incoming) ∧ (0 ≤ incoming ∨ quota < used + incoming)
  else quota < incoming ∧ (incoming < 0 ∨ quota < used + incoming)
    ∨ used < 0 ∧ 0 ≤ incoming ∧ incoming ≤ quota

instance (w : World) (user : Uuid) (incoming : ℤ) : Decidable (InLimits w user incoming) := by
  unfold InLimits
  infer_instance

/-- **The check is exact for these numbers and no others.** -/
theorem exactCheck_iff {w : World} {user : Uuid} {incoming : ℤ} (hincoming : InI64 incoming)
    (hquota : InI64 (quotaLimit w user)) :
    ExactCheck w user incoming ↔ InLimits w user incoming := by
  have hfields : ExactCheck w user incoming ↔
      wrapI64 (usedBytes w user + incoming) = usedBytes w user + incoming
        ∧ (withinQuota w user incoming = true ↔
          0 ≤ incoming ∧ sumSizes w user + incoming ≤ quotaLimit w user) :=
    ⟨fun h => ⟨h.inRange, accepts_iff.symm.trans h.exact⟩, fun h => ⟨h.1, accepts_iff.trans h.2⟩⟩
  rw [hfields, withinQuota, decide_eq_true_eq, usedBytes, InLimits]
  generalize sumSizes w user = used at *
  generalize quotaLimit w user = quota at *
  obtain ⟨hlow, hhigh⟩ := hincoming
  obtain ⟨hqlow, hqhigh⟩ := hquota
  by_cases hused : InI64 used
  · rw [if_pos (wrapI64_eq_self_iff.mpr hused), if_pos hused]
    constructor
    · rintro ⟨hrange, hexact⟩
      rw [hrange] at hexact
      exact ⟨wrapI64_eq_self_iff.mp hrange, by omega⟩
    · rintro ⟨hrange, hsign⟩
      rw [wrapI64_eq_self_iff.mpr hrange]
      exact ⟨rfl, by omega⟩
  · -- the sum is taken for 0, and what comes in does not wrap around
    rw [if_neg fun h => hused (wrapI64_eq_self_iff.mp h), if_neg hused, Int.zero_add,
      wrapI64_eq_self_iff.mpr ⟨hlow, hhigh⟩]
    have hout : used < -2 ^ 63 ∨ 2 ^ 63 ≤ used := by
      by_contra h
      exact hused ⟨by omega, by omega⟩
    constructor
    · rintro ⟨-, hexact⟩
      omega
    · intro h
      exact ⟨rfl, by omega⟩

open Sample

/-- A user with one byte stored. -/
def oneByteStored : World :=
  step env start (sent alice 0 id1 (.uploadFile none "f" "text/plain" [0x61]))

theorem exactCheck_oneByteStored : ExactCheck oneByteStored alice 1 :=
  (exactCheck_iff (by decide) (by decide)).mpr (by decide)

/-- **A negative size is let in, and one that wraps the sum around.** -/
theorem not_exactCheck :
    ¬ ExactCheck oneByteStored alice (-1) ∧ ¬ ExactCheck oneByteStored alice (2 ^ 63 - 1) := by
  constructor
  · intro h
    exact absurd (h.exact.mp (accepts_iff.mpr (by decide))).1 (by decide)
  · intro h
    exact absurd h.inRange (by decide)

end Pcos
