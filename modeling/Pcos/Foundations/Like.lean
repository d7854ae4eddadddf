import Mathlib.Data.List.Infix

/-!
# Foundations/Like — the patterns of SQL's `LIKE`

`%` stands for any text, `_` for any character, and a backslash takes away what the next character
stands for.  A pattern made of a text without these and a `%` matches what the text is the start of
(`like_concat_percent`).
-/

namespace Foundations

/-- What a pattern consists of. -/
inductive LikeToken
  | many
  | one
  | char (c : Char)
  deriving DecidableEq

/-- A pattern read.  (One that ends in a lone backslash is refused by the database.) -/
def likeTokens : List Char → List LikeToken
  | [] => []
  | '%' :: p => .many :: likeTokens p
  | '_' :: p => .one :: likeTokens p
  | '\\' :: c :: p => .char c :: likeTokens p
  | c :: p => .char c :: likeTokens p

def LikeToken.matches : List LikeToken → List Char → Bool
  | [], s => s.isEmpty
  | .many :: ts, s => s.tails.any (LikeToken.matches ts)
  | .one :: ts, _ :: s => LikeToken.matches ts s
  | .char c :: ts, d :: s => d = c && LikeToken.matches ts s
  | .one :: _, [] => false
  | .char _ :: _, [] => false

/-- `s LIKE p` -/
def like (p s : List Char) : Bool := LikeToken.matches (likeTokens p) s

/-- Characters that stand for themselves. -/
def Ordinary (p : List Char) : Prop := ∀ c ∈ p, c ≠ '%' ∧ c ≠ '_' ∧ c ≠ '\\'

theorem likeTokens_cons {c : Char} (h : c ≠ '%' ∧ c ≠ '_' ∧ c ≠ '\\') (p : List Char) :
    likeTokens (c :: p) = .char c :: likeTokens p := by
  obtain ⟨hmany, hone, hescape⟩ := h
  rw [likeTokens.eq_def]
  split
  · contradiction
  · rename_i heq
    exact absurd (List.cons.inj heq).1 hmany
  · rename_i heq
    exact absurd (List.cons.inj heq).1 hone
  · rename_i heq
    exact absurd (List.cons.inj heq).1 hescape
  · rename_i heq
    obtain ⟨rfl, rfl⟩ := List.cons.inj heq
    rfl

theorem like_percent (s : List Char) : like ['%'] s = true :=
  List.any_eq_true.mpr ⟨[], (List.mem_tails _ _).mpr List.nil_suffix, rfl⟩

/-- **A text of ordinary characters and a `%` match what starts with the text.** -/
theorem like_concat_percent {p : List Char} (hp : Ordinary p) (s : List Char) :
    like (p ++ ['%']) s = p.isPrefixOf s := by
  induction p generalizing s with
  | nil => exact like_percent s
  | cons c p ih =>
    have hrest : Ordinary p := fun d hd => hp d (List.mem_cons_of_mem c hd)
    rw [List.cons_append, like, likeTokens_cons (hp c List.mem_cons_self)]
    cases s with
    | nil => rfl
    | cons d s =>
      have hsame : (d = c : Bool) = (c == d) := by
        by_cases hcd : d = c
        · simp [hcd]
        · simp [hcd, Ne.symm hcd]
      rw [LikeToken.matches, List.isPrefixOf, ← ih hrest s]
      exact congrArg (· && like (p ++ ['%']) s) hsame

end Foundations
