import Mathlib.Data.List.Basic

/-!
# Foundations/FirstMatch — rules that are tried in their order

The first rule that applies to an input has the outcome; if none does, the default has it.  Rules
after one that applies are shadowed (`firstMatch_append`).
-/

namespace Foundations

variable {α β γ : Type*}

structure Rule (α β : Type*) where
  applies : α → Bool
  outcome : β

/-- The rule with another outcome. -/
def Rule.map (f : β → γ) (r : Rule α β) : Rule α γ := ⟨r.applies, f r.outcome⟩

def firstMatch (rules : List (Rule α β)) (fallback : β) (a : α) : β :=
  ((rules.find? fun r => r.applies a).map Rule.outcome).getD fallback

variable {rules rules' : List (Rule α β)} {fallback fallback' : β} {a : α}

@[simp] theorem firstMatch_nil : firstMatch ([] : List (Rule α β)) fallback a = fallback := rfl

theorem firstMatch_cons {r : Rule α β} : firstMatch (r :: rules) fallback a =
    if r.applies a then r.outcome else firstMatch rules fallback a := by
  rw [firstMatch, List.find?_cons]
  by_cases h : r.applies a = true
  · simp [h]
  · simp [h, firstMatch]

/-- **What comes first shadows what comes after it.** -/
theorem firstMatch_append : ∀ rules : List (Rule α β), firstMatch (rules ++ rules') fallback a =
    if rules.any fun r => r.applies a then firstMatch rules fallback a
    else firstMatch rules' fallback a
  | [] => by simp
  | r :: rules => by
      rw [List.cons_append, firstMatch_cons, firstMatch_cons, firstMatch_append rules,
        List.any_cons]
      by_cases h : r.applies a = true
      · simp [h]
      · simp [h]

/-- Where a rule applies the default does not matter. -/
theorem firstMatch_of_any : ∀ rules : List (Rule α β), (rules.any fun r => r.applies a) = true →
    firstMatch rules fallback a = firstMatch rules fallback' a
  | [], h => absurd h (by simp)
  | r :: rules, h => by
      rw [firstMatch_cons, firstMatch_cons]
      by_cases hr : r.applies a = true
      · rw [if_pos hr, if_pos hr]
      · rw [if_neg hr, if_neg hr]
        exact firstMatch_of_any rules (by simpa [hr] using h)

/-- What is read off the outcome is the outcome of the rules that it is read off. -/
theorem map_firstMatch (f : β → γ) : ∀ rules : List (Rule α β),
    f (firstMatch rules fallback a) = firstMatch (rules.map (Rule.map f)) (f fallback) a
  | [] => rfl
  | r :: rules => by
      rw [List.map_cons, firstMatch_cons, firstMatch_cons, ← map_firstMatch f rules]
      exact apply_ite f _ _ _

end Foundations
