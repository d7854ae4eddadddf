import Pcos.Foundations.Words

/-!
# Foundations/CaseMapping — texts in lower case, as in Unicode

A character has a mapping of its own, and only that of `Σ` depends on where it stands: it is `ς` at
the end of a word.  What separates words is neither cased nor ignored, so **a text is put in lower
case word by word** (`words_lowerText`), and its gaps stay (`gaps_lowerText`).
-/

namespace Foundations

/-- What the tables have of a character. -/
structure CaseTables where
  lower : Char → List Char
  cased : Char → Bool
  caseIgnorable : Char → Bool

namespace CaseTables

variable (t : CaseTables)

/-- The next character that is not ignored has case. -/
def meetsCased (l : List Char) : Bool := (l.dropWhile t.caseIgnorable).head?.any t.cased

/-- What follows in lower case, after the characters `back`, the last first. -/
def lowerFrom : List Char → List Char → List Char
  | _, [] => []
  | back, c :: rest =>
    (if c = 'Σ' then [if t.meetsCased back && !t.meetsCased rest then 'ς' else 'σ']
      else t.lower c) ++ lowerFrom (c :: back) rest

def lowerText (l : List Char) : List Char := t.lowerFrom [] l

def toLowercase (s : String) : String := String.ofList (t.lowerText s.toList)

/-- The characters of a kind have no case, come only from themselves, and no word vanishes. -/
structure Keeps (space : Char → Bool) : Prop where
  sigma : space 'Σ' = false ∧ space 'σ' = false ∧ space 'ς' = false
  lower_eq : ∀ c, space c = true → t.lower c = [c]
  not_cased : ∀ c, space c = true → t.cased c = false
  not_ignorable : ∀ c, space c = true → t.caseIgnorable c = false
  lower_ne_nil : ∀ c, t.lower c ≠ []
  eq_of_mem_lower : ∀ c, ∀ d ∈ t.lower c, space d = true → d = c

@[simp] theorem lowerText_nil : t.lowerText [] = [] := rfl

@[simp] theorem toList_toLowercase (s : String) :
    (t.toLowercase s).toList = t.lowerText s.toList := String.toList_ofList

/-- What is in lower case comes from a character, or from `Σ`. -/
theorem mem_lowerFrom {d : Char} : ∀ {back l : List Char}, d ∈ t.lowerFrom back l →
    (d = 'ς' ∨ d = 'σ') ∨ ∃ c ∈ l, d ∈ t.lower c
  | back, c :: rest, h => by
      rcases List.mem_append.mp h with h | h
      · split at h
        · rw [List.mem_singleton.mp h]
          split
          · exact Or.inl (Or.inl rfl)
          · exact Or.inl (Or.inr rfl)
        · exact Or.inr ⟨c, List.mem_cons_self, h⟩
      · exact (mem_lowerFrom h).imp_right fun ⟨c', hc', hd⟩ => ⟨c', List.mem_cons_of_mem _ hc', hd⟩

/-- Characters that are their own mapping stay. -/
theorem lowerFrom_eq_self : ∀ {back l : List Char} (_ : ∀ c ∈ l, c ≠ 'Σ' ∧ t.lower c = [c]),
    t.lowerFrom back l = l
  | _, [], _ => rfl
  | back, c :: rest, h => by
      obtain ⟨hne, heq⟩ := h c List.mem_cons_self
      rw [lowerFrom, if_neg hne, heq, lowerFrom_eq_self fun d hd => h d (List.mem_cons_of_mem _ hd)]
      rfl

theorem lowerText_eq_self {l : List Char} (h : ∀ c ∈ l, c ≠ 'Σ' ∧ t.lower c = [c]) :
    t.lowerText l = l := t.lowerFrom_eq_self h

variable {t} {space : Char → Bool} (ht : t.Keeps space)
include ht

/-! ## A separator is where the looking ends -/

theorem Keeps.meetsCased_append {c : Char} (hc : space c = true) (l : List Char) :
    ∀ back, t.meetsCased (back ++ c :: l) = t.meetsCased back
  | [] => by
      rw [List.nil_append, meetsCased, List.dropWhile_cons, ht.not_ignorable c hc,
        if_neg Bool.false_ne_true]
      exact ht.not_cased c hc
  | b :: back => by
      have hrest := Keeps.meetsCased_append hc l back
      rw [meetsCased, meetsCased] at hrest
      rw [List.cons_append, meetsCased, meetsCased, List.dropWhile_cons, List.dropWhile_cons]
      split
      · exact hrest
      · rfl

theorem Keeps.lowerFrom_append_back {c : Char} (hc : space c = true) (l : List Char) :
    ∀ back rest, t.lowerFrom (back ++ c :: l) rest = t.lowerFrom back rest
  | _, [] => rfl
  | back, d :: rest => by
      have hrest := Keeps.lowerFrom_append_back hc l (d :: back) rest
      rw [List.cons_append] at hrest
      rw [lowerFrom, lowerFrom, ht.meetsCased_append hc, hrest]

/-- **A text is put in lower case on each side of a separator.** -/
theorem Keeps.lowerFrom_append {c : Char} (hc : space c = true) (rest : List Char) :
    ∀ l back, t.lowerFrom back (l ++ c :: rest) = t.lowerFrom back l ++ c :: t.lowerFrom [] rest
  | [], back => by
      have hne : c ≠ 'Σ' := by
        rintro rfl
        exact Bool.false_ne_true (ht.sigma.1.symm.trans hc)
      have hback := ht.lowerFrom_append_back hc back [] rest
      rw [List.nil_append] at hback
      change (if c = 'Σ' then _ else t.lower c) ++ t.lowerFrom (c :: back) rest = c :: _
      rw [if_neg hne, ht.lower_eq c hc, hback]
      rfl
  | d :: l, back => by
      rw [List.cons_append, lowerFrom, ht.meetsCased_append hc, Keeps.lowerFrom_append hc rest l,
        lowerFrom, List.append_assoc]

/-! ## Run after run -/

theorem Keeps.lowerText_cons {c : Char} (hc : space c = true) (l : List Char) :
    t.lowerText (c :: l) = c :: t.lowerText l := ht.lowerFrom_append hc l [] []

theorem Keeps.lowerText_append_left : ∀ {g : List Char} (_ : ∀ c ∈ g, space c = true)
    (l : List Char), t.lowerText (g ++ l) = g ++ t.lowerText l
  | [], _, _ => rfl
  | c :: g, hg, l => by
      rw [List.cons_append, ht.lowerText_cons (hg c List.mem_cons_self),
        Keeps.lowerText_append_left (fun d hd => hg d (List.mem_cons_of_mem _ hd)) l,
        List.cons_append]

/-- A gap stays. -/
theorem Keeps.lowerText_gap {g : List Char} (hg : ∀ c ∈ g, space c = true) : t.lowerText g = g := by
  have hself := ht.lowerText_append_left hg []
  rwa [lowerText_nil, List.append_nil] at hself

theorem Keeps.lowerText_append_right {l : List Char} (hl : ∀ c ∈ l.head?, space c = true)
    (w : List Char) : t.lowerText (w ++ l) = t.lowerText w ++ t.lowerText l := by
  cases l with
  | nil => rw [lowerText_nil, List.append_nil, List.append_nil]
  | cons c l =>
    have hc := hl c rfl
    rw [ht.lowerText_cons hc]
    exact ht.lowerFrom_append hc l w []

theorem Keeps.not_of_mem_lowerText {w : List Char} (hw : ∀ c ∈ w, space c = false) :
    ∀ d ∈ t.lowerText w, space d = false := by
  intro d hd
  rcases t.mem_lowerFrom hd with (rfl | rfl) | ⟨c, hc, hd⟩
  · exact ht.sigma.2.2
  · exact ht.sigma.2.1
  · exact Bool.eq_false_iff.mpr fun h =>
      Bool.false_ne_true ((hw c hc).symm.trans (ht.eq_of_mem_lower c d hd h ▸ h))

theorem Keeps.lowerText_ne_nil {w : List Char} (hne : w ≠ []) : t.lowerText w ≠ [] := by
  obtain ⟨c, w, rfl⟩ := List.exists_cons_of_ne_nil hne
  refine List.append_ne_nil_of_left_ne_nil ?_ _
  split
  · exact List.cons_ne_nil _ _
  · exact ht.lower_ne_nil c

/-- A run of separators, or of others, is still one. -/
theorem Keeps.lowerText_run {b : Bool} {r : List Char} (hr : ∀ c ∈ r, space c = b) :
    ∀ d ∈ t.lowerText r, space d = b := by
  cases b with
  | false => exact ht.not_of_mem_lowerText hr
  | true => rwa [ht.lowerText_gap hr]

theorem Keeps.lowerText_append {b : Bool} {r l : List Char} (hr : ∀ c ∈ r, space c = b)
    (hl : ∀ c ∈ l.head?, space c = !b) : t.lowerText (r ++ l) = t.lowerText r ++ t.lowerText l := by
  cases b with
  | false => exact ht.lowerText_append_right hl r
  | true => rw [ht.lowerText_gap hr, ht.lowerText_append_left hr]

/-- What comes first is of the same kind. -/
theorem Keeps.head?_lowerText {b : Bool} {l : List Char} (hl : ∀ c ∈ l.head?, space c = b) :
    ∀ d ∈ (t.lowerText l).head?, space d = b := by
  induction l using runs_induction (p := space) with
  | hnil => rintro d ⟨⟩
  | hrun b' r l hne hr hhead _ =>
    obtain ⟨c, hc, hb⟩ := head?_run hne hr l
    obtain rfl : b' = b := hb.symm.trans (hl c hc)
    obtain ⟨d, ds, hds⟩ := List.exists_cons_of_ne_nil (ht.lowerText_ne_nil hne)
    rw [ht.lowerText_append hr hhead, hds]
    rintro e ⟨⟩
    exact ht.lowerText_run hr d (hds ▸ List.mem_cons_self)

theorem Keeps.getLast?_lowerText {b : Bool} {l : List Char} (hl : ∀ c ∈ l.getLast?, space c = b) :
    ∀ d ∈ (t.lowerText l).getLast?, space d = b := by
  induction l using runs_induction (p := space) with
  | hnil => rintro d ⟨⟩
  | hrun b' r l hne hr hhead ih =>
    rw [ht.lowerText_append hr hhead]
    by_cases hlast : l = []
    · subst hlast
      rw [List.append_nil] at hl
      have hkind : b' = b := (hr _ (List.getLast_mem hne)).symm.trans
        (hl _ (List.getLast?_eq_some_getLast hne))
      rw [lowerText_nil, List.append_nil]
      exact fun d hd => hkind ▸ ht.lowerText_run hr d (List.mem_of_getLast? hd)
    · rw [List.getLast?_append_of_ne_nil _ hlast] at hl
      rw [List.getLast?_append_of_ne_nil _ (ht.lowerText_ne_nil hlast)]
      exact ih hl

/-- **Words are put in lower case each**… -/
theorem Keeps.words_lowerText (l : List Char) :
    words space (t.lowerText l) = (words space l).map t.lowerText := by
  induction l using runs_induction (p := space) with
  | hnil => rw [lowerText_nil, words_nil, List.map_nil]
  | hrun b r l hne hr hl ih =>
    rw [ht.lowerText_append hr hl, words_run (ht.lowerText_ne_nil hne) (ht.lowerText_run hr)
      (ht.head?_lowerText hl), words_run hne hr hl, ih]
    cases b <;> rfl

/-- …and **gaps stay**. -/
theorem Keeps.gaps_lowerText (l : List Char) : gaps space (t.lowerText l) = gaps space l := by
  induction l using runs_induction (p := space) with
  | hnil => rw [lowerText_nil]
  | hrun b r l hne hr hl ih =>
    rw [ht.lowerText_append hr hl, gaps_run (ht.lowerText_ne_nil hne) (ht.lowerText_run hr)
      (ht.head?_lowerText hl), gaps_run hne hr hl, ih]
    cases b with
    | false => rfl
    | true => rw [ht.lowerText_gap hr]

end CaseTables

end Foundations
