import Mathlib.Data.List.Basic

/-!
# Foundations/Runs — runs of a step function, and what they keep

A run is the list of its events, so the states it visits are those of its prefixes.  `Along ok` says
that every step of a run meets a condition in the state it is taken in; `Along.invariant` is the
induction every safety theorem goes through.
-/

namespace Foundations

variable {σ ε : Type*}

/-- The state a run ends in. -/
def run (step : σ → ε → σ) (s : σ) (es : List ε) : σ := es.foldl step s

/-- Every step of the run meets `ok` in the state it is taken in. -/
def Along (ok : σ → ε → Prop) (step : σ → ε → σ) : σ → List ε → Prop
  | _, [] => True
  | s, e :: es => ok s e ∧ Along ok step (step s e) es

instance Along.decidable (ok : σ → ε → Prop) [∀ s e, Decidable (ok s e)] (step : σ → ε → σ) :
    ∀ (s : σ) (es : List ε), Decidable (Along ok step s es)
  | _, [] => isTrue trivial
  | s, e :: es => @instDecidableAnd _ _ _ (Along.decidable ok step (step s e) es)

variable {ok : σ → ε → Prop} {step : σ → ε → σ} {P : σ → Prop}

/-- What every step keeps, every run keeps. -/
theorem run_invariant (hstep : ∀ s e, P s → P (step s e)) {s : σ} (hs : P s) (es : List ε) :
    P (run step s es) := by
  induction es generalizing s with
  | nil => exact hs
  | cons e es ih => exact ih (hstep s e hs)

/-- **The invariant rule.**  What holds at the start and is kept by every step that meets the
condition holds wherever such steps lead. -/
theorem Along.invariant (hstep : ∀ s e, P s → ok s e → P (step s e)) {s : σ} {es : List ε}
    (hs : P s) (h : Along ok step s es) : P (run step s es) := by
  induction es generalizing s with
  | nil => exact hs
  | cons e es ih => exact ih (hstep s e hs h.1) h.2

/-- A weaker condition. -/
theorem Along.mono {ok' : σ → ε → Prop} (hok : ∀ s e, ok s e → ok' s e) {s : σ} {es : List ε}
    (h : Along ok step s es) : Along ok' step s es := by
  induction es generalizing s with
  | nil => trivial
  | cons e es ih => exact ⟨hok s e h.1, ih h.2⟩

theorem run_append (s : σ) (es fs : List ε) :
    run step s (es ++ fs) = run step (run step s es) fs := List.foldl_append

theorem Along.append_iff {s : σ} {es fs : List ε} :
    Along ok step s (es ++ fs) ↔ Along ok step s es ∧ Along ok step (run step s es) fs := by
  induction es generalizing s with
  | nil => simp [Along, run]
  | cons e es ih =>
    simp only [List.cons_append, Along, ih, and_assoc]
    rfl

end Foundations
