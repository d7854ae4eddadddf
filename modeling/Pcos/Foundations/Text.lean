import Mathlib.Data.List.DropRight

/-!
# Foundations/Text — taking characters off the ends of a text

`trimStart p`, `trimEnd p` and `trim p` take off the characters that satisfy `p`; doing it twice is
doing it once.
-/

namespace Foundations

/-! ## Deciding a property of given characters

`decide` would go through all the characters there are. -/

theorem forall_mem_of_all {α : Type*} {q : α → Prop} [DecidablePred q] {l : List α}
    (h : l.all (fun c => decide (q c)) = true) : ∀ c ∈ l, q c :=
  fun c hc => of_decide_eq_true (List.all_eq_true.mp h c hc)

theorem forall_mem_option_of_all {α : Type*} {q : α → Prop} [DecidablePred q] {o : Option α}
    (h : o.all (fun c => decide (q c)) = true) : ∀ c ∈ o, q c := by
  rintro c rfl
  exact of_decide_eq_true h

/-! ## The letters of ASCII -/

theorem isUpper_iff {c : Char} : c.isUpper = true ↔ 65 ≤ c.toNat ∧ c.toNat ≤ 90 :=
  decide_eq_true_iff.trans (and_congr UInt32.le_iff_toNat_le UInt32.le_iff_toNat_le)

theorem isLower_iff {c : Char} : c.isLower = true ↔ 97 ≤ c.toNat ∧ c.toNat ≤ 122 := by
  refine Bool.and_eq_true_iff.trans (and_congr ?_ ?_)
  · exact decide_eq_true_iff.trans UInt32.le_iff_toNat_le
  · exact decide_eq_true_iff.trans UInt32.le_iff_toNat_le

theorem isAlpha_iff {c : Char} : c.isAlpha = true ↔ c.isUpper = true ∨ c.isLower = true :=
  Bool.or_eq_true_iff

/-! ## Trimming -/

/-- Without the characters of the kind at the start. -/
def trimStart (p : Char → Bool) (s : String) : String := String.ofList (s.toList.dropWhile p)

/-- …at the end. -/
def trimEnd (p : Char → Bool) (s : String) : String := String.ofList (s.toList.rdropWhile p)

/-- …at both. -/
def trim (p : Char → Bool) (s : String) : String :=
  String.ofList ((s.toList.dropWhile p).rdropWhile p)

variable (p : Char → Bool) (s : String)

@[simp] theorem toList_trim : (trim p s).toList = (s.toList.dropWhile p).rdropWhile p :=
  String.toList_ofList

/-- What is left starts with no such character, if it started with none before the end was cut. -/
theorem dropWhile_rdropWhile_dropWhile (l : List Char) :
    ((l.dropWhile p).rdropWhile p).dropWhile p = (l.dropWhile p).rdropWhile p := by
  rw [List.dropWhile_eq_self_iff]
  intro hpos hp
  have hpre := List.rdropWhile_prefix p (l := l.dropWhile p)
  have hne : l.dropWhile p ≠ [] := by
    intro h
    rw [h] at hpos
    simp at hpos
  have hhead := List.head_dropWhile_not p hne
  rw [List.head_eq_getElem, ← hpre.getElem hpos, hp] at hhead
  cases hhead

/-- **Trimming is idempotent.** -/
@[simp] theorem trim_trim : trim p (trim p s) = trim p s := by
  rw [trim, toList_trim, dropWhile_rdropWhile_dropWhile, List.rdropWhile_idempotent]
  rfl

variable {p}

/-- A text without such characters is trimmed. -/
theorem trim_eq_self {s : String} (h : ∀ c ∈ s.toList, p c = false) : trim p s = s := by
  have hfirst : s.toList.dropWhile p = s.toList :=
    List.dropWhile_eq_self_iff.mpr fun hpos => by simp [h _ (List.getElem_mem hpos)]
  have hlast : s.toList.rdropWhile p = s.toList :=
    List.rdropWhile_eq_self_iff.mpr fun hne => by simp [h _ (List.getLast_mem hne)]
  rw [trim, hfirst, hlast, String.ofList_toList]

/-- A text that starts and ends with other characters is trimmed. -/
theorem trim_of_ends {s : String} {c d : Char} {cs ds : List Char} (hcons : s.toList = c :: cs)
    (hc : p c = false) (hconcat : s.toList = ds ++ [d]) (hd : p d = false) : trim p s = s := by
  rw [trim, hcons, List.dropWhile_cons_of_neg (by simp [hc]), ← hcons, hconcat,
    List.rdropWhile_concat_neg _ _ _ (by simp [hd]), ← hconcat, String.ofList_toList]

theorem filter_dropWhile (l : List Char) :
    (l.dropWhile p).filter (fun c => !p c) = l.filter fun c => !p c := by
  induction l with
  | nil => rfl
  | cons c l ih =>
    by_cases hc : p c = true
    · rw [List.dropWhile_cons_of_pos hc, ih, List.filter_cons_of_neg (by simp [hc])]
    · rw [List.dropWhile_cons_of_neg hc]

/-- Trimming takes off only characters of the kind. -/
theorem filter_trim (s : String) :
    (trim p s).toList.filter (fun c => !p c) = s.toList.filter fun c => !p c := by
  rw [toList_trim, List.rdropWhile, List.filter_reverse, filter_dropWhile, ← List.filter_reverse,
    List.reverse_reverse, filter_dropWhile]

/-- **What is joined by a separator splits where it was joined**, if no piece has a character of its
kind. -/
theorem splitOnP_intercalate {sep : Char} (hsep : p sep = true) {pieces : List (List Char)}
    (hne : pieces ≠ []) (hpieces : ∀ l ∈ pieces, ∀ c ∈ l, p c = false) :
    ([sep].intercalate pieces).splitOnP p = pieces := by
  induction pieces with
  | nil => exact absurd rfl hne
  | cons l pieces ih =>
    have hl := hpieces l List.mem_cons_self
    cases pieces with
    | nil => rw [List.intercalate_singleton, List.splitOnP_eq_singleton hl]
    | cons l' pieces =>
      rw [List.intercalate_cons_cons, List.append_assoc, List.singleton_append,
        List.splitOnP_append_cons_of_forall_mem hl sep hsep,
        ih (List.cons_ne_nil _ _) fun l'' hl'' =>
          hpieces l'' (List.mem_cons_of_mem _ hl'')]

/-- **No piece of what is split has a separator.** -/
theorem not_of_mem_splitOnP {l piece : List Char} (h : piece ∈ l.splitOnP p) {c : Char}
    (hc : c ∈ piece) : p c = false := by
  induction l generalizing piece with
  | nil =>
    rw [List.splitOnP_nil, List.mem_singleton] at h
    subst h
    cases hc
  | cons a l ih =>
    rw [List.splitOnP_cons_eq_if_modifyHead] at h
    split at h
    · rcases List.mem_cons.mp h with rfl | h
      · cases hc
      · exact ih h hc
    · rename_i ha
      obtain ⟨first, rest, hsplit⟩ := List.exists_cons_of_ne_nil (List.splitOnP_ne_nil p l)
      rw [hsplit, List.modifyHead_cons] at h
      rw [hsplit] at ih
      rcases List.mem_cons.mp h with rfl | h
      · rcases List.mem_cons.mp hc with rfl | hc
        · exact Bool.eq_false_iff.mpr ha
        · exact ih List.mem_cons_self hc
      · exact ih (List.mem_cons_of_mem _ h) hc

theorem sublist_of_mem_splitOnP {l piece : List Char} (h : piece ∈ l.splitOnP p) :
    piece.Sublist l := by
  induction l generalizing piece with
  | nil =>
    rw [List.splitOnP_nil, List.mem_singleton] at h
    rw [h]
  | cons a l ih =>
    rw [List.splitOnP_cons_eq_if_modifyHead] at h
    split at h
    · rcases List.mem_cons.mp h with rfl | h
      · exact List.nil_sublist _
      · exact (ih h).cons a
    · obtain ⟨first, rest, hsplit⟩ := List.exists_cons_of_ne_nil (List.splitOnP_ne_nil p l)
      rw [hsplit, List.modifyHead_cons] at h
      rw [hsplit] at ih
      rcases List.mem_cons.mp h with rfl | h
      · exact (ih List.mem_cons_self).cons_cons a
      · exact (ih (List.mem_cons_of_mem _ h)).cons a

/-- What is joined has the characters of the pieces, and the separator. -/
theorem eq_or_mem_of_mem_intercalate {sep c : Char} {pieces : List (List Char)}
    (hc : c ∈ [sep].intercalate pieces) : c = sep ∨ ∃ l ∈ pieces, c ∈ l := by
  induction pieces with
  | nil => cases hc
  | cons l rest ih =>
    cases rest with
    | nil =>
      rw [List.intercalate_singleton] at hc
      exact Or.inr ⟨l, List.mem_cons_self, hc⟩
    | cons l' rest =>
      rw [List.intercalate_cons_cons] at hc
      rcases List.mem_append.mp hc with hc | hc
      · rcases List.mem_append.mp hc with hc | hc
        · exact Or.inr ⟨l, List.mem_cons_self, hc⟩
        · exact Or.inl (List.mem_singleton.mp hc)
      · refine (ih hc).imp_right fun ⟨l'', hl'', hmem⟩ => ⟨l'', List.mem_cons_of_mem _ hl'', hmem⟩

/-- What is joined of pieces starts with a character of a piece… -/
theorem intercalate_eq_cons {sep : Char} {pieces : List (List Char)} (hne : pieces ≠ [])
    (hpieces : ∀ l ∈ pieces, l ≠ [] ∧ ∀ c ∈ l, p c = false) :
    ∃ c cs, [sep].intercalate pieces = c :: cs ∧ p c = false := by
  obtain ⟨l, rest, rfl⟩ := List.exists_cons_of_ne_nil hne
  obtain ⟨hl, hchars⟩ := hpieces l List.mem_cons_self
  obtain ⟨c, cs, rfl⟩ := List.exists_cons_of_ne_nil hl
  have hc := hchars c List.mem_cons_self
  cases rest with
  | nil => exact ⟨c, cs, List.intercalate_singleton, hc⟩
  | cons l' rest => exact ⟨c, _, List.intercalate_cons_cons, hc⟩

/-- …and ends with one. -/
theorem intercalate_eq_concat {sep : Char} {pieces : List (List Char)} (hne : pieces ≠ [])
    (hpieces : ∀ l ∈ pieces, l ≠ [] ∧ ∀ c ∈ l, p c = false) :
    ∃ cs c, [sep].intercalate pieces = cs ++ [c] ∧ p c = false := by
  induction pieces with
  | nil => exact absurd rfl hne
  | cons l rest ih =>
    obtain ⟨hl, hchars⟩ := hpieces l List.mem_cons_self
    cases rest with
    | nil =>
      refine ⟨l.dropLast, l.getLast hl, ?_, hchars _ (List.getLast_mem hl)⟩
      rw [List.intercalate_singleton, List.dropLast_append_getLast]
    | cons l' rest =>
      obtain ⟨cs, c, heq, hc⟩ := ih (List.cons_ne_nil _ _) fun l'' hl'' =>
        hpieces l'' (List.mem_cons_of_mem _ hl'')
      refine ⟨l ++ [sep] ++ cs, c, ?_, hc⟩
      rw [List.intercalate_cons_cons, heq]
      simp only [List.append_assoc]

/-- **What is joined of pieces is trimmed.** -/
theorem trim_intercalate {sep : Char} {pieces : List (List Char)} (hne : pieces ≠ [])
    (hpieces : ∀ l ∈ pieces, l ≠ [] ∧ ∀ c ∈ l, p c = false) {s : String}
    (hs : s.toList = [sep].intercalate pieces) : trim p s = s := by
  obtain ⟨c, cs, hcons, hc⟩ : ∃ c cs, [sep].intercalate pieces = c :: cs ∧ p c = false :=
    intercalate_eq_cons hne hpieces
  obtain ⟨ds, d, hconcat, hd⟩ : ∃ ds d, [sep].intercalate pieces = ds ++ [d] ∧ p d = false :=
    intercalate_eq_concat hne hpieces
  exact trim_of_ends (hs.trans hcons) hc (hs.trans hconcat) hd

end Foundations
