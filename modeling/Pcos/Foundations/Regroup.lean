import Mathlib.Data.Nat.Digits.Defs
import Mathlib.Data.List.Induction
import Mathlib.Data.List.Basic
import Mathlib.Tactic.Ring

/-!
# Foundations/Regroup — digits of one width, regrouped into digits of another

A buffer of 32 bits takes in digits of `a` bits and gives out digits of `b` bits, the high bits first.
What it keeps is a number (`Holds`): that of the digits given out, followed by the bits that wait, is
that of the digits taken in.
-/

namespace Foundations.Regroup

/-- The number that digits of `w` bits write, the high digit first. -/
def value (w : ℕ) (ds : List ℕ) : ℕ := ds.foldl (fun n d => n * 2 ^ w + d) 0

@[simp] theorem value_concat (w : ℕ) (ds : List ℕ) (d : ℕ) :
    value w (ds ++ [d]) = value w ds * 2 ^ w + d := by
  rw [value, List.foldl_append]
  rfl

theorem value_eq_ofDigits (w : ℕ) (ds : List ℕ) : value w ds = Nat.ofDigits (2 ^ w) ds.reverse := by
  induction ds using List.reverseRecOn with
  | nil => rfl
  | append_singleton ds d ih =>
    rw [value_concat, ih, List.reverse_append, List.reverse_singleton, List.singleton_append,
      Nat.ofDigits_cons]
    ring

/-- **Digits of one length that write one number are the same.** -/
theorem value_inj {w : ℕ} (hw : 0 < w) {ds es : List ℕ} (hlength : ds.length = es.length)
    (hds : ∀ d ∈ ds, d < 2 ^ w) (hes : ∀ e ∈ es, e < 2 ^ w) (h : value w ds = value w es) :
    ds = es := by
  rw [value_eq_ofDigits, value_eq_ofDigits] at h
  refine List.reverse_injective (Nat.ofDigits_inj_of_len_eq (Nat.one_lt_two_pow hw.ne') ?_ ?_ ?_ h)
  · rwa [List.length_reverse, List.length_reverse]
  · exact fun d hd => hds d (List.mem_reverse.mp hd)
  · exact fun e he => hes e (List.mem_reverse.mp he)

theorem value_append (w : ℕ) (ds es : List ℕ) :
    value w (ds ++ es) = value w ds * 2 ^ (w * es.length) + value w es := by
  induction es using List.reverseRecOn with
  | nil => simp [value]
  | append_singleton es e ih =>
    rw [← List.append_assoc, value_concat, value_concat, ih, List.length_append,
      List.length_singleton, mul_add, pow_add, mul_one]
    ring

theorem value_cons (w d : ℕ) (ds : List ℕ) :
    value w (d :: ds) = d * 2 ^ (w * ds.length) + value w ds := by
  have hd : value w [d] = d := by simp [value]
  rw [← List.singleton_append, value_append, hd]

theorem value_lt {w : ℕ} {ds : List ℕ} (hds : ∀ d ∈ ds, d < 2 ^ w) :
    value w ds < 2 ^ (w * ds.length) := by
  induction ds using List.reverseRecOn with
  | nil => exact Nat.one_pos
  | append_singleton ds d ih =>
    have hhigh := ih fun e he => hds e (List.mem_append_left _ he)
    have hlow := hds d (List.mem_append_right _ (List.mem_singleton_self d))
    rw [value_concat, List.length_append, List.length_singleton, mul_add, pow_add, mul_one]
    calc value w ds * 2 ^ w + d < (value w ds + 1) * 2 ^ w := by rw [add_mul, one_mul]; omega
      _ ≤ 2 ^ (w * ds.length) * 2 ^ w := Nat.mul_le_mul_right _ hhigh

/-! ## The digits of a number -/

/-- The last `k` digits of `w` bits that a number is written with, the high digit first. -/
def digits (w : ℕ) : ℕ → ℕ → List ℕ
  | 0, _ => []
  | k + 1, n => digits w k (n / 2 ^ w) ++ [n % 2 ^ w]

@[simp] theorem length_digits (w k n : ℕ) : (digits w k n).length = k := by
  induction k generalizing n with
  | zero => rfl
  | succ k ih => rw [digits, List.length_append, ih, List.length_singleton]

theorem lt_of_mem_digits {w k n d : ℕ} (h : d ∈ digits w k n) : d < 2 ^ w := by
  induction k generalizing n with
  | zero => cases h
  | succ k ih =>
    rcases List.mem_append.mp h with h | h
    · exact ih h
    · rw [List.mem_singleton.mp h]
      exact Nat.mod_lt _ (by positivity)

/-- **Digits are those of the number they write.** -/
theorem digits_value {w : ℕ} {ds : List ℕ} (hds : ∀ d ∈ ds, d < 2 ^ w) :
    digits w ds.length (value w ds) = ds := by
  induction ds using List.reverseRecOn with
  | nil => rfl
  | append_singleton ds d ih =>
    have hd := hds d (List.mem_append_right _ (List.mem_singleton_self d))
    rw [List.length_append, List.length_singleton, digits, value_concat, mul_comm,
      Nat.mul_add_div (by positivity), Nat.div_eq_of_lt hd, add_zero, Nat.mul_add_mod,
      Nat.mod_eq_of_lt hd, ih fun e he => hds e (List.mem_append_left _ he)]

theorem value_digits (w k n : ℕ) : value w (digits w k n) = n % 2 ^ (w * k) := by
  induction k generalizing n with
  | zero => simp [digits, value, Nat.mod_one]
  | succ k ih =>
    rw [digits, value_concat, ih, mul_add, mul_one, add_comm (w * k), pow_add, Nat.mod_mul]
    ring

/-- The high digits and the low ones. -/
theorem digits_add (w j k n : ℕ) :
    digits w (j + k) n = digits w j (n / 2 ^ (w * k)) ++ digits w k n := by
  induction k generalizing n with
  | zero => simp [digits]
  | succ k ih =>
    rw [← add_assoc, digits, digits, ih, Nat.div_div_eq_div_mul, ← pow_add, mul_add, mul_one,
      add_comm w, List.append_assoc]

/-- The digits are those of the low bits. -/
theorem digits_mod (w k n : ℕ) : digits w k (n % 2 ^ (w * k)) = digits w k n := by
  induction k generalizing n with
  | zero => rfl
  | succ k ih =>
    have hhigh : n % 2 ^ (w * (k + 1)) / 2 ^ w = n / 2 ^ w % 2 ^ (w * k) := by
      rw [mul_add, mul_one, add_comm, pow_add, Nat.mod_mul_right_div_self]
    rw [digits, digits, hhigh, ih, Nat.mod_mod_of_dvd _ (pow_dvd_pow 2 (Nat.le_mul_of_pos_right w
      (Nat.succ_pos k)))]

/-- Digits of `a` bits as digits of `b` bits; the bits that are too few for one are dropped. -/
def regrouped (a b : ℕ) (ds : List ℕ) : List ℕ :=
  digits b (a * ds.length / b) (value a ds / 2 ^ (a * ds.length % b))

/-- …and the last digit filled up with zeros. -/
def padded (a b : ℕ) (ds : List ℕ) : List ℕ :=
  let k := (a * ds.length + (b - 1)) / b
  digits b k (value a ds * 2 ^ (b * k - a * ds.length))

@[simp] theorem length_padded (a b : ℕ) (ds : List ℕ) :
    (padded a b ds).length = (a * ds.length + (b - 1)) / b :=
  length_digits _ _ _

/-- Digits that write the number, filled up, are those. -/
theorem eq_padded {a b : ℕ} {ds es : List ℕ} (hes : ∀ e ∈ es, e < 2 ^ b) (pad : ℕ) (hpad : pad < b)
    (hlength : b * es.length = a * ds.length + pad) (hvalue : value b es = value a ds * 2 ^ pad) :
    es = padded a b ds := by
  have hk : (a * ds.length + (b - 1)) / b = es.length := by
    refine Nat.div_eq_of_lt_le ?_ ?_
    · rw [mul_comm es.length, hlength]
      omega
    · rw [mul_comm (es.length + 1), mul_add, hlength]
      omega
  have hshift : b * es.length - a * ds.length = pad := by omega
  rw [padded, hk, hshift, ← hvalue, digits_value hes]

/-- **Padded digits are regrouped into what they were.** -/
theorem regrouped_padded {a b : ℕ} (hb : 0 < b) (hab : b ≤ a) {ds : List ℕ}
    (hds : ∀ d ∈ ds, d < 2 ^ a) : regrouped b a (padded a b ds) = ds := by
  let k := (a * ds.length + (b - 1)) / b
  obtain ⟨pad, hpad⟩ : ∃ pad, b * k = a * ds.length + pad := by
    refine Nat.exists_eq_add_of_le ?_
    have hround := Nat.lt_mul_div_succ (a * ds.length + (b - 1)) hb
    change _ < b * (k + 1) at hround
    rw [mul_add] at hround
    omega
  have hlt : pad < a := by
    have hround := Nat.mul_div_le (a * ds.length + (b - 1)) b
    change b * k ≤ _ at hround
    omega
  have hshift : b * k - a * ds.length = pad := by omega
  have hdiv : (a * ds.length + pad) / a = ds.length := by
    rw [Nat.mul_add_div (by omega), Nat.div_eq_of_lt hlt, add_zero]
  have hmod : (a * ds.length + pad) % a = pad := by rw [Nat.mul_add_mod, Nat.mod_eq_of_lt hlt]
  have hfits : value a ds * 2 ^ pad < 2 ^ (b * k) := by
    rw [hpad, pow_add]
    exact Nat.mul_lt_mul_of_pos_right (value_lt hds) (by positivity)
  have hvalue : value b (padded a b ds) = value a ds * 2 ^ pad := by
    change value b (digits b k (value a ds * 2 ^ (b * k - a * ds.length))) = _
    rw [hshift, value_digits, Nat.mod_eq_of_lt hfits]
  have hlength : b * (padded a b ds).length = a * ds.length + pad := by
    rw [length_padded]
    exact hpad
  rw [regrouped, hlength, hdiv, hmod, hvalue, Nat.mul_div_cancel _ (by positivity),
    digits_value hds]

/-! ## The loop -/

/-- The digits given out, and the buffer with the number of its bits that wait. -/
structure Buffer where
  out : List ℕ
  buf : ℕ
  count : ℕ

/-- Give out digits while there are bits for one and room for it. -/
def drain (b : ℕ) (room : List ℕ → Bool) (s : Buffer) : Buffer :=
  if 0 < b ∧ b ≤ s.count ∧ room s.out = true then
    drain b room ⟨s.out ++ [s.buf / 2 ^ (s.count - b) % 2 ^ b], s.buf, s.count - b⟩
  else s
termination_by s.count
decreasing_by omega

/-- Take in a digit. -/
def feed (a b : ℕ) (room : List ℕ → Bool) (s : Buffer) (d : ℕ) : Buffer :=
  drain b room ⟨s.out, (s.buf * 2 ^ a + d) % 2 ^ 32, s.count + a⟩

def regroup (a b : ℕ) (room : List ℕ → Bool) (ds : List ℕ) : Buffer :=
  ds.foldl (feed a b room) ⟨[], 0, 0⟩

/-- What has been given out and what waits write the number that was taken in. -/
structure Holds (a b : ℕ) (ds : List ℕ) (s : Buffer) : Prop where
  value : value b s.out * 2 ^ s.count + s.buf % 2 ^ s.count = value a ds
  length : b * s.out.length + s.count = a * ds.length
  digits : ∀ o ∈ s.out, o < 2 ^ b

variable {a b : ℕ} {room : List ℕ → Bool} {ds : List ℕ} {s : Buffer}

/-- **What giving out a digit keeps.** -/
theorem Holds.give (h : Holds a b ds s) (hcount : b ≤ s.count) :
    Holds a b ds ⟨s.out ++ [s.buf / 2 ^ (s.count - b) % 2 ^ b], s.buf, s.count - b⟩ := by
  refine ⟨?_, ?_, ?_⟩
  · obtain ⟨c, hc⟩ := Nat.exists_eq_add_of_le' hcount
    have hvalue := h.value
    rw [hc, pow_add, Nat.mod_mul] at hvalue
    rw [hc, Nat.add_sub_cancel, value_concat, ← hvalue]
    ring
  · have hlength := h.length
    simp only [List.length_append, List.length_singleton, mul_add, mul_one]
    omega
  · intro o ho
    rcases List.mem_append.mp ho with ho | ho
    · exact h.digits o ho
    · rw [List.mem_singleton.mp ho]
      exact Nat.mod_lt _ (by positivity)

theorem Holds.drain (h : Holds a b ds s) : Holds a b ds (drain b room s) := by
  fun_induction Regroup.drain b room s with
  | case1 s hcond ih => exact ih (h.give hcond.2.1)
  | case2 s _ => exact h

/-- It stops when there are too few bits, if there is room. -/
theorem count_drain (hb : 0 < b) (h : Holds a b ds s)
    (hroom : ∀ out, b * (out.length + 1) ≤ a * ds.length → room out = true) :
    (drain b room s).count < b := by
  fun_induction Regroup.drain b room s with
  | case1 s hcond ih => exact ih (h.give hcond.2.1)
  | case2 s hcond =>
    by_contra hcount
    have hlength := h.length
    refine hcond ⟨hb, not_lt.mp hcount, hroom s.out ?_⟩
    rw [mul_add, mul_one, ← hlength]
    omega

/-- **What taking in a digit keeps**, if it fits in a buffer of `w` bits. -/
theorem Holds.take {w : ℕ} (h : Holds a b ds s) {d : ℕ} (hd : d < 2 ^ a)
    (hfits : s.count + a ≤ w) :
    Holds a b (ds ++ [d]) ⟨s.out, (s.buf * 2 ^ a + d) % 2 ^ w, s.count + a⟩ := by
  refine ⟨?_, ?_, h.digits⟩
  · have hlow : (s.buf * 2 ^ a + d) % 2 ^ a = d := by
      rw [Nat.mul_add_mod', Nat.mod_eq_of_lt hd]
    have hhigh : (s.buf * 2 ^ a + d) / 2 ^ a = s.buf := by
      rw [mul_comm, Nat.mul_add_div (by positivity), Nat.div_eq_of_lt hd, add_zero]
    have hmod : (s.buf * 2 ^ a + d) % 2 ^ w % 2 ^ (s.count + a) = s.buf % 2 ^ s.count * 2 ^ a + d := by
      rw [Nat.mod_mod_of_dvd _ (pow_dvd_pow 2 hfits), add_comm s.count a, pow_add, Nat.mod_mul, hlow,
        hhigh]
      ring
    rw [hmod, value_concat, ← h.value, pow_add]
    ring
  · have hlength := h.length
    simp only [List.length_append, List.length_singleton, mul_add, mul_one]
    omega

/-- **The loop regroups**: what it gives out is all but the last few bits. -/
theorem regroup_spec (hb : 0 < b) (hfits : b + a ≤ 33) {ds : List ℕ} (hds : ∀ d ∈ ds, d < 2 ^ a)
    (hroom : ∀ out : List ℕ, b * (out.length + 1) ≤ a * ds.length → room out = true) :
    Holds a b ds (regroup a b room ds) ∧ (regroup a b room ds).count < b := by
  induction ds using List.reverseRecOn with
  | nil => exact ⟨⟨rfl, rfl, fun o ho => by cases ho⟩, hb⟩
  | append_singleton ds d ih =>
    obtain ⟨hholds, hcount⟩ := ih (fun e he => hds e (List.mem_append_left _ he)) fun out hout =>
      hroom out (hout.trans (by simp [mul_add]))
    have htake : Holds a b (ds ++ [d]) _ :=
      hholds.take (w := 32) (hds d (List.mem_append_right _ (List.mem_singleton_self d))) (by omega)
    rw [regroup, List.foldl_append]
    exact ⟨htake.drain, count_drain hb htake hroom⟩

/-- **What has been given out is decided by what was taken in**, if too few bits wait. -/
theorem Holds.out_eq (h : Holds a b ds s) (hcount : s.count < b) : s.out = regrouped a b ds := by
  have hlength : s.out.length = a * ds.length / b := by
    rw [← h.length, Nat.mul_add_div (by omega), Nat.div_eq_of_lt hcount, add_zero]
  have hwait : a * ds.length % b = s.count := by
    rw [← h.length, Nat.mul_add_mod, Nat.mod_eq_of_lt hcount]
  have hvalue : Regroup.value a ds / 2 ^ s.count = Regroup.value b s.out := by
    rw [← h.value, mul_comm, Nat.mul_add_div (by positivity),
      Nat.div_eq_of_lt (Nat.mod_lt _ (by positivity)), add_zero]
  rw [regrouped, hwait, hvalue, ← hlength, digits_value h.digits]

/-- **What has been given out, and what waits filled up with zeros**, are the padded digits. -/
theorem Holds.concat_eq (h : Holds a b ds s) (hcount : s.count < b) :
    (if 0 < s.count then s.out ++ [s.buf % 2 ^ s.count * 2 ^ (b - s.count)] else s.out)
      = padded a b ds := by
  have hlength := h.length
  have hvalue := h.value
  split
  · rename_i hpos
    have hsplit : 2 ^ s.count * 2 ^ (b - s.count) = 2 ^ b := by
      rw [← pow_add]
      congr 1
      omega
    refine eq_padded ?_ (b - s.count) (by omega) ?_ ?_
    · intro e he
      rcases List.mem_append.mp he with he | he
      · exact h.digits e he
      · rw [List.mem_singleton.mp he, ← hsplit]
        exact Nat.mul_lt_mul_of_pos_right (Nat.mod_lt _ (by positivity)) (by positivity)
    · rw [List.length_append, List.length_singleton, mul_add, mul_one]
      omega
    · rw [value_concat, ← hvalue, add_mul, mul_assoc, hsplit]
  · rename_i hpos
    have hzero : s.count = 0 := by omega
    rw [hzero, add_zero] at hlength
    rw [hzero, pow_zero, Nat.mod_one, add_zero, mul_one] at hvalue
    refine eq_padded h.digits 0 (by omega) hlength ?_
    rw [hvalue, pow_zero, mul_one]

end Foundations.Regroup
