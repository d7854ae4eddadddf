import Pcos.Foundations.Text

/-!
# Foundations/Words — a text as its words and the gaps between them

Characters of a kind separate: `words` are the runs of the others, and the gaps are the words of the
opposite kind.  A text is run after run (`runs_induction`), so **words and gaps together are the
text** (`eq_of_words_of_gaps`).
-/

namespace Foundations

variable (p : Char → Bool)

/-- The pieces between separators that are not empty. -/
def words (l : List Char) : List (List Char) := (l.splitOnP p).filter (· ≠ [])

/-- The runs of separators. -/
def gaps (l : List Char) : List (List Char) := words (fun c => !p c) l

variable {p}

@[simp] theorem words_nil : words p [] = [] := by
  rw [words, List.splitOnP_nil]
  rfl

/-- **Words split at a separator.** -/
theorem words_append_cons {c : Char} (hc : p c = true) (l l' : List Char) :
    words p (l ++ c :: l') = words p l ++ words p l' := by
  rw [words, List.splitOnP_append_cons l l' hc, List.filter_append]
  rfl

theorem words_cons {c : Char} (hc : p c = true) (l : List Char) : words p (c :: l) = words p l := by
  have hsplit := words_append_cons hc [] l
  rwa [words_nil] at hsplit

/-- Separators at the start are in no word… -/
theorem words_append_left : ∀ {g : List Char} (_ : ∀ c ∈ g, p c = true) (l : List Char),
    words p (g ++ l) = words p l
  | [], _, _ => rfl
  | c :: g, hg, l => by
      rw [List.cons_append, words_cons (hg c List.mem_cons_self),
        words_append_left (fun d hd => hg d (List.mem_cons_of_mem _ hd)) l]

/-- …nor are those at the end. -/
theorem words_append_right {g : List Char} (hg : ∀ c ∈ g, p c = true) (l : List Char) :
    words p (l ++ g) = words p l := by
  cases g with
  | nil => rw [List.append_nil]
  | cons c g =>
    have hrest := words_append_left (fun d hd => hg d (List.mem_cons_of_mem _ hd)) []
    rw [List.append_nil, words_nil] at hrest
    rw [words_append_cons (hg c List.mem_cons_self), hrest, List.append_nil]

/-- What has no separator is one word. -/
theorem words_eq_singleton {w : List Char} (hne : w ≠ []) (hw : ∀ c ∈ w, p c = false) :
    words p w = [w] := by
  rw [words, List.splitOnP_eq_singleton hw, List.filter_singleton, decide_eq_true hne]
  rfl

/-- The first word, up to a separator. -/
theorem words_append {w l : List Char} (hne : w ≠ []) (hw : ∀ c ∈ w, p c = false)
    (hl : ∀ c ∈ l.head?, p c = true) : words p (w ++ l) = w :: words p l := by
  cases l with
  | nil => rw [List.append_nil, words_eq_singleton hne hw, words_nil]
  | cons c l =>
    have hc := hl c rfl
    rw [words_append_cons hc, words_eq_singleton hne hw, words_cons hc, List.singleton_append]

theorem ne_nil_of_mem_words {l w : List Char} (h : w ∈ words p l) : w ≠ [] :=
  of_decide_eq_true (List.mem_filter.mp h).2

theorem not_of_mem_words {l w : List Char} (h : w ∈ words p l) : ∀ c ∈ w, p c = false :=
  fun _ hc => not_of_mem_splitOnP (List.mem_filter.mp h).1 hc

/-- **Words that are joined are read back.** -/
theorem words_intercalate {sep : Char} (hsep : p sep = true) {pieces : List (List Char)}
    (hpieces : ∀ l ∈ pieces, l ≠ [] ∧ ∀ c ∈ l, p c = false) :
    words p ([sep].intercalate pieces) = pieces := by
  by_cases hne : pieces = []
  · rw [hne, List.intercalate_nil, words_nil]
  · rw [words, splitOnP_intercalate hsep hne fun l hl => (hpieces l hl).2]
    exact List.filter_eq_self.mpr fun l hl => decide_eq_true (hpieces l hl).1

theorem words_trimmed (l : List Char) : words p ((l.dropWhile p).rdropWhile p) = words p l := by
  have hend : ∀ c ∈ (l.dropWhile p).rtakeWhile p, p c = true := fun c hc => List.mem_rtakeWhile_imp hc
  have hstart : ∀ c ∈ l.takeWhile p, p c = true := fun c hc => List.mem_takeWhile_imp hc
  rw [← words_append_right hend, List.rdropWhile_append_rtakeWhile, ← words_append_left hstart,
    List.takeWhile_append_dropWhile]

/-- The first piece is empty only before a separator… -/
theorem head?_splitOnP_ne {l : List Char} (hne : l ≠ []) (hl : ∀ c ∈ l.head?, p c = false) :
    ∀ piece ∈ (l.splitOnP p).head?, piece ≠ [] := by
  obtain ⟨c, l, rfl⟩ := List.exists_cons_of_ne_nil hne
  obtain ⟨first, rest, hsplit⟩ := List.exists_cons_of_ne_nil (List.splitOnP_ne_nil p l)
  rw [List.splitOnP_cons_eq_if_modifyHead, hl c rfl, if_neg Bool.false_ne_true, hsplit]
  rintro piece ⟨⟩
  exact List.cons_ne_nil _ _

/-- …and the last only after one. -/
theorem getLast?_splitOnP_ne : ∀ {l : List Char} (_ : l ≠ []) (_ : ∀ c ∈ l.getLast?, p c = false),
    ∀ piece ∈ (l.splitOnP p).getLast?, piece ≠ []
  | [c], _, hl => by
      rw [List.splitOnP_eq_singleton fun d hd => hl d (by rw [List.mem_singleton.mp hd]; rfl)]
      rintro piece ⟨⟩
      exact List.cons_ne_nil _ _
  | c :: d :: l, _, hl => by
      have hrest := getLast?_splitOnP_ne (List.cons_ne_nil d l) fun e he => hl e (by
        rwa [List.getLast?_cons_cons])
      obtain ⟨first, rest, hsplit⟩ := List.exists_cons_of_ne_nil (List.splitOnP_ne_nil p (d :: l))
      rw [hsplit] at hrest
      rw [List.splitOnP_cons_eq_if_modifyHead, hsplit]
      split
      · rwa [List.getLast?_cons_cons]
      · cases rest with
        | nil =>
          rintro piece ⟨⟩
          exact List.cons_ne_nil _ _
        | cons second rest => rwa [List.getLast?_cons_cons] at hrest

/-- What is trimmed starts with no separator… -/
theorem head?_trimmed (l : List Char) :
    ∀ c ∈ ((l.dropWhile p).rdropWhile p).head?, p c = false := by
  intro c hc
  have hnot := List.head?_dropWhile_not p ((l.dropWhile p).rdropWhile p)
  rw [dropWhile_rdropWhile_dropWhile, Option.mem_def.mp hc] at hnot
  exact Bool.eq_false_iff.mpr fun h => by simp [h] at hnot

/-- …and ends with none. -/
theorem getLast?_trimmed (l : List Char) :
    ∀ c ∈ ((l.dropWhile p).rdropWhile p).getLast?, p c = false := by
  intro c hc
  obtain ⟨hne, rfl⟩ := List.mem_getLast?_eq_getLast hc
  exact Bool.eq_false_iff.mpr (List.rdropWhile_last_not p _ hne)

/-! ## Two kinds that agree on a text -/

section Congr

variable {q : Char → Bool}

theorem splitOnP_congr : ∀ {l : List Char} (_ : ∀ c ∈ l, p c = q c), l.splitOnP p = l.splitOnP q
  | [], _ => rfl
  | c :: l, h => by
      rw [List.splitOnP_cons_eq_if_modifyHead, List.splitOnP_cons_eq_if_modifyHead,
        h c List.mem_cons_self, splitOnP_congr fun d hd => h d (List.mem_cons_of_mem _ hd)]

theorem dropWhile_congr : ∀ {l : List Char} (_ : ∀ c ∈ l, p c = q c), l.dropWhile p = l.dropWhile q
  | [], _ => rfl
  | c :: l, h => by
      rw [List.dropWhile_cons, List.dropWhile_cons, h c List.mem_cons_self,
        dropWhile_congr fun d hd => h d (List.mem_cons_of_mem _ hd)]

theorem trim_congr {s : String} (h : ∀ c ∈ s.toList, p c = q c) : trim p s = trim q s := by
  have hsub : ∀ c ∈ (s.toList.dropWhile q).reverse, c ∈ s.toList := fun c hc =>
    (List.dropWhile_suffix q).subset (List.mem_reverse.mp hc)
  rw [trim, trim, dropWhile_congr h, List.rdropWhile, List.rdropWhile,
    dropWhile_congr fun c hc => h c (hsub c hc)]

end Congr

/-! ## Run after run -/

/-- **A text is run after run**, of separators and of others by turns. -/
theorem runs_induction {P : List Char → Prop} (hnil : P [])
    (hrun : ∀ (b : Bool) (r l : List Char), r ≠ [] → (∀ c ∈ r, p c = b) →
      (∀ c ∈ l.head?, p c = !b) → P l → P (r ++ l)) : ∀ l, P l
  | [] => hnil
  | a :: l => by
      have hrest := runs_induction hnil hrun (l.dropWhile fun c => p c == p a)
      have hsplit : a :: l = (a :: l.takeWhile fun c => p c == p a) ++
          l.dropWhile fun c => p c == p a := by
        rw [List.cons_append, List.takeWhile_append_dropWhile]
      rw [hsplit]
      refine hrun (p a) _ _ (List.cons_ne_nil _ _) (List.forall_mem_cons.mpr ⟨rfl, fun c hc => ?_⟩)
        (fun c hc => ?_) hrest
      · exact eq_of_beq (List.mem_takeWhile_imp (p := fun c => p c == p a) hc)
      · have hother := List.head?_dropWhile_not (fun c => p c == p a) l
        rw [Option.mem_def.mp hc] at hother
        exact Bool.eq_not.mpr fun h => by simp [h] at hother
  termination_by l => l.length
  decreasing_by
    have hle := (List.dropWhile_suffix (fun c => p c == p a) (l := l)).length_le
    rw [List.length_cons]
    omega

section Run

variable {b : Bool} {r l : List Char} (hne : r ≠ []) (hr : ∀ c ∈ r, p c = b)
  (hl : ∀ c ∈ l.head?, p c = !b)
include hne hr hl

/-- A run of separators is a gap, and one of others is a word. -/
theorem words_run : words p (r ++ l) = if b then words p l else r :: words p l := by
  cases b with
  | false => exact words_append hne hr hl
  | true => exact words_append_left hr l

theorem gaps_run : gaps p (r ++ l) = if b then r :: gaps p l else gaps p l := by
  cases b with
  | false => exact words_append_left (fun c hc => by rw [hr c hc]; rfl) l
  | true =>
    exact words_append hne (fun c hc => by rw [hr c hc]; rfl) fun c hc => by rw [hl c hc]; rfl

end Run

/-- What has neither words nor gaps is empty. -/
theorem eq_nil_of_words_of_gaps {l : List Char} (hwords : words p l = []) (hgaps : gaps p l = []) :
    l = [] := by
  induction l using runs_induction (p := p) with
  | hnil => rfl
  | hrun b r l hne hr hl _ =>
    rw [words_run hne hr hl] at hwords
    rw [gaps_run hne hr hl] at hgaps
    cases b with
    | false => cases hwords
    | true => cases hgaps

/-- The first run of a text. -/
theorem exists_run {l : List Char} (hne : l ≠ []) : ∃ b r l', l = r ++ l' ∧ r ≠ [] ∧
    (∀ c ∈ r, p c = b) ∧ ∀ c ∈ l'.head?, p c = !b := by
  induction l using runs_induction (p := p) with
  | hnil => exact absurd rfl hne
  | hrun b r l hrne hr hl _ => exact ⟨b, r, l, rfl, hrne, hr, hl⟩

theorem head?_run {b : Bool} {r : List Char} (hne : r ≠ []) (hr : ∀ c ∈ r, p c = b)
    (l : List Char) : ∃ c ∈ (r ++ l).head?, p c = b := by
  obtain ⟨c, r, rfl⟩ := List.exists_cons_of_ne_nil hne
  exact ⟨c, rfl, hr c List.mem_cons_self⟩

/-- **Words and gaps together are the text**, if it is known which come first. -/
theorem eq_of_words_of_gaps {b : Bool} {l l' : List Char} (hl : ∀ c ∈ l.head?, p c = b)
    (hl' : ∀ c ∈ l'.head?, p c = b) (hwords : words p l = words p l')
    (hgaps : gaps p l = gaps p l') : l = l' := by
  induction l using runs_induction (p := p) generalizing b l' with
  | hnil => exact (eq_nil_of_words_of_gaps hwords.symm hgaps.symm).symm
  | hrun b' r l hne hr hhead ih =>
    have hne' : l' ≠ [] := by
      rintro rfl
      exact hne (List.append_eq_nil_iff.mp (eq_nil_of_words_of_gaps hwords hgaps)).1
    obtain ⟨b'', r', l', rfl, hne', hr', hhead'⟩ := exists_run (p := p) hne'
    obtain ⟨c, hc, hb⟩ := head?_run hne hr l
    obtain ⟨c', hc', hb'⟩ := head?_run hne' hr' l'
    obtain rfl : b' = b := hb.symm.trans (hl c hc)
    obtain rfl : b'' = b' := hb'.symm.trans (hl' c' hc')
    rw [words_run hne hr hhead, words_run hne' hr' hhead'] at hwords
    rw [gaps_run hne hr hhead, gaps_run hne' hr' hhead'] at hgaps
    cases b'' with
    | false =>
      obtain ⟨rfl, hrest⟩ := List.cons.inj hwords
      rw [ih hhead hhead' hrest hgaps]
    | true =>
      obtain ⟨rfl, hrest⟩ := List.cons.inj hgaps
      rw [ih hhead hhead' hwords hrest]

end Foundations
