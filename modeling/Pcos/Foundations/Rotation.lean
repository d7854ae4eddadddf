import Mathlib.Data.List.Perm.Basic
import Mathlib.Data.List.Nodup

/-!
# Foundations/Rotation — tokens that are exchanged for new ones

    read a live row ──▸ revoke it ──▸ insert a new row, answer

An exchange takes three statements and no lock, so others run in between.  Two rules keep it safe: a
row is not read while another exchange of it is before its second statement, and no owner's rows are
revoked all at once while an exchange of one is under way.  Then a token is exchanged once, and what
descends from a token that was revoked so is not live (`Sound.exchanged`, `Sound.stale`).
-/

namespace Foundations.Rotation

/-- A row of the table. -/
structure Token (ι υ η : Type*) where
  id : ι
  owner : υ
  hash : η
  revoked : Bool

/-- The table, the exchanges under way by the row they have read, and what has happened: the tokens
given out with their owners, those whose exchange was answered, and those that were given out before
all of their owner's were revoked, or were obtained from such. -/
structure State (ι υ η : Type*) where
  rows : List (Token ι υ η)
  reading : List (Token ι υ η)
  rotated : List (Token ι υ η)
  issued : List (υ × η)
  exchanged : List η
  stale : List η

variable {ι υ η : Type*}

/-- The second table came of the first by revoking and deleting rows. -/
structure Weaker (rows rows' : List (Token ι υ η)) : Prop where
  hashes : (rows'.map Token.hash).Sublist (rows.map Token.hash)
  rows : ∀ r' ∈ rows', ∃ r ∈ rows, r.id = r'.id ∧ r.owner = r'.owner ∧ r.hash = r'.hash ∧
    (r.revoked = true → r'.revoked = true)

theorem Weaker.refl (rows : List (Token ι υ η)) : Weaker rows rows :=
  ⟨List.Sublist.refl _, fun r hr => ⟨r, hr, rfl, rfl, rfl, id⟩⟩

/-- Revoking some rows. -/
theorem Weaker.revoke (rows : List (Token ι υ η)) (p : Token ι υ η → Bool) :
    Weaker rows (rows.map fun r => if p r then { r with revoked := true } else r) := by
  have hhash : (rows.map fun r => if p r then { r with revoked := true } else r).map Token.hash =
      rows.map Token.hash := by
    rw [List.map_map]
    refine List.map_congr_left fun r _ => ?_
    rw [Function.comp_apply, apply_ite Token.hash, ite_self]
  refine ⟨hhash ▸ List.Sublist.refl _, fun r' hr' => ?_⟩
  · obtain ⟨r, hr, rfl⟩ := List.mem_map.mp hr'
    refine ⟨r, hr, ?_⟩
    split <;> simp

/-- Deleting some rows. -/
theorem Weaker.delete (rows : List (Token ι υ η)) (p : Token ι υ η → Bool) :
    Weaker rows (rows.filter p) :=
  ⟨List.filter_sublist.map _, fun r hr => ⟨r, List.mem_of_mem_filter hr, rfl, rfl, rfl, id⟩⟩

/-- What a statement does. -/
inductive Step [DecidableEq υ] [DecidableEq η] (s : State ι υ η) : State ι υ η → Prop
  /-- Rows are revoked or deleted, or exchanges given up. -/
  | weaken {rows reading rotated} : Weaker s.rows rows → reading.Subperm s.reading →
    rotated.Subperm s.rotated →
    Step s { s with rows := rows, reading := reading, rotated := rotated }
  /-- A token is given out for something else. -/
  | grant {new : Token ι υ η} : new.hash ∉ s.issued.map Prod.snd →
    Step s { s with rows := s.rows ++ [new], issued := s.issued ++ [(new.owner, new.hash)] }
  /-- An exchange reads a live row. -/
  | read {row reading} : row ∈ s.rows → row.revoked = false →
    (∀ t ∈ s.reading, t.hash ≠ row.hash) → reading.Perm (row :: s.reading) →
    Step s { s with reading := reading }
  /-- It revokes the row. -/
  | rotate {row rows reading rotated} : s.reading.Perm (row :: reading) →
    rotated.Perm (row :: s.rotated) → Weaker s.rows rows →
    (∀ r ∈ rows, r.id = row.id → r.revoked = true) →
    Step s { s with rows := rows, reading := reading, rotated := rotated }
  /-- It inserts a new one, and is answered. -/
  | exchange {row new rotated} : s.rotated.Perm (row :: rotated) →
    new.hash ∉ s.issued.map Prod.snd →
    Step s { s with
      rows := s.rows ++ [new]
      rotated := rotated
      issued := s.issued ++ [(new.owner, new.hash)]
      exchanged := s.exchanged ++ [row.hash]
      stale := s.stale ++ if row.hash ∈ s.stale then [new.hash] else [] }
  /-- All tokens of an owner are revoked. -/
  | revokeAll {rows} (owner : υ) : (∀ t ∈ s.reading ++ s.rotated, t.owner ≠ owner) →
    Weaker s.rows rows → (∀ r ∈ rows, r.owner = owner → r.revoked = true) →
    Step s { s with
      rows := rows
      stale := s.stale ++ (s.issued.filter fun i => i.1 = owner).map Prod.snd }

theorem nodup_of_subperm {α : Type*} {l l' : List α} (h : l.Nodup) (hl : l'.Subperm l) : l'.Nodup := by
  obtain ⟨k, hperm, hsub⟩ := hl
  exact hperm.nodup_iff.mp (h.sublist hsub)

theorem map_subperm {α β : Type*} (f : α → β) {l l' : List α} (h : l'.Subperm l) :
    (l'.map f).Subperm (l.map f) := by
  obtain ⟨k, hperm, hsub⟩ := h
  exact ⟨k.map f, hperm.map f, hsub.map f⟩

theorem Step.refl [DecidableEq υ] [DecidableEq η] (s : State ι υ η) : Step s s :=
  .weaken (Weaker.refl _) (List.Subperm.refl _) (List.Subperm.refl _)

/-! ## Requests under way

A list of requests shows its exchanges by what `f` tells of each. -/

section Flight

variable {α β : Type*} [DecidableEq α] {f : α → Option β} {l l' more : List α} {t : α}

theorem filterMap_perm (ht : t ∈ l) :
    (l.filterMap f).Perm ((f t).toList ++ (l.erase t).filterMap f) := by
  have hperm := (List.perm_cons_erase ht).filterMap f
  rw [List.filterMap_cons] at hperm
  cases hf : f t <;> simpa [hf] using hperm

/-- A request that shows nothing may go. -/
theorem filterMap_erase (hf : f t = none) : (l.erase t).filterMap f = l.filterMap f := by
  induction l with
  | nil => rfl
  | cons a l ih =>
    by_cases ha : a = t
    · rw [ha, List.erase_cons_head, List.filterMap_cons_none hf]
    · rw [List.erase_cons_tail (by simpa using ha), List.filterMap_cons, List.filterMap_cons, ih]

omit [DecidableEq α] in
/-- Requests may go, and others that show nothing may come. -/
theorem filterMap_quiet (hl : l'.Sublist l) (hmore : ∀ t ∈ more, f t = none) :
    ((l' ++ more).filterMap f).Subperm (l.filterMap f) := by
  rw [List.filterMap_append, List.filterMap_eq_nil_iff.mpr hmore, List.append_nil]
  exact (hl.filterMap f).subperm

end Flight

/-! ## What is kept -/

/-- The tokens that are exchanged, or as good as. -/
def State.spent (s : State ι υ η) : List η := s.exchanged ++ s.rotated.map Token.hash

/-- What every statement keeps. -/
structure Sound (s : State ι υ η) : Prop where
  issued_nodup : (s.issued.map Prod.snd).Nodup
  rows_issued : ∀ r ∈ s.rows, (r.owner, r.hash) ∈ s.issued
  rows_nodup : (s.rows.map Token.hash).Nodup
  reading_issued : ∀ t ∈ s.reading, (t.owner, t.hash) ∈ s.issued
  reading_nodup : (s.reading.map Token.hash).Nodup
  reading_row : ∀ t ∈ s.reading, ∀ r ∈ s.rows, r.hash = t.hash → r.id = t.id
  rotated_issued : ∀ t ∈ s.rotated, (t.owner, t.hash) ∈ s.issued
  spent_issued : ∀ h ∈ s.spent, h ∈ s.issued.map Prod.snd
  spent_nodup : s.spent.Nodup
  spent_revoked : ∀ h ∈ s.spent, ∀ r ∈ s.rows, r.hash = h → r.revoked = true
  spent_reading : ∀ h ∈ s.spent, ∀ t ∈ s.reading, t.hash ≠ h
  stale_issued : ∀ h ∈ s.stale, h ∈ s.issued.map Prod.snd
  stale_revoked : ∀ r ∈ s.rows, r.hash ∈ s.stale → r.revoked = true
  stale_exchange : ∀ t ∈ s.reading ++ s.rotated, t.hash ∉ s.stale

namespace Sound

variable {s : State ι υ η} {rows reading rotated : List (Token ι υ η)} {row new : Token ι υ η}

/-- **A token is exchanged once.** -/
theorem exchanged_nodup (h : Sound s) : s.exchanged.Nodup := h.spent_nodup.of_append_left

/-- An unrevoked row is neither spent nor stale. -/
theorem live (h : Sound s) (hrow : row ∈ s.rows) (hlive : row.revoked = false) :
    row.hash ∉ s.spent ∧ row.hash ∉ s.stale := by
  constructor
  · intro hspent
    rw [h.spent_revoked _ hspent row hrow rfl] at hlive
    cases hlive
  · intro hstale
    rw [h.stale_revoked row hrow hstale] at hlive
    cases hlive

/-- Revoking and deleting rows. -/
theorem weaken (h : Sound s) (hrows : Weaker s.rows rows) : Sound { s with rows := rows } where
  issued_nodup := h.issued_nodup
  rows_issued r' hr' := by
    obtain ⟨r, hr, -, howner, hhash, -⟩ := hrows.rows r' hr'
    exact howner ▸ hhash ▸ h.rows_issued r hr
  rows_nodup := h.rows_nodup.sublist hrows.hashes
  reading_issued := h.reading_issued
  reading_nodup := h.reading_nodup
  reading_row t ht r' hr' heq := by
    obtain ⟨r, hr, hid, -, hhash, -⟩ := hrows.rows r' hr'
    exact hid ▸ h.reading_row t ht r hr (hhash.trans heq)
  rotated_issued := h.rotated_issued
  spent_issued := h.spent_issued
  spent_nodup := h.spent_nodup
  spent_revoked k hk r' hr' heq := by
    obtain ⟨r, hr, -, -, hhash, hrevoked⟩ := hrows.rows r' hr'
    exact hrevoked (h.spent_revoked k hk r hr (hhash.trans heq))
  spent_reading := h.spent_reading
  stale_issued := h.stale_issued
  stale_revoked r' hr' hstale := by
    obtain ⟨r, hr, -, -, hhash, hrevoked⟩ := hrows.rows r' hr'
    exact hrevoked (h.stale_revoked r hr (hhash ▸ hstale))
  stale_exchange := h.stale_exchange

/-- Giving up exchanges. -/
theorem giveUp (h : Sound s) (hreading : reading.Subperm s.reading)
    (hrotated : rotated.Subperm s.rotated) :
    Sound { s with reading := reading, rotated := rotated } := by
  have hread : (reading.map Token.hash).Subperm (s.reading.map Token.hash) :=
    map_subperm _ hreading
  have hspent : (s.exchanged ++ rotated.map Token.hash).Subperm s.spent :=
    (List.subperm_append_left _).mpr (map_subperm _ hrotated)
  refine { h with
    reading_issued := fun t ht => h.reading_issued t (hreading.subset ht)
    reading_nodup := nodup_of_subperm h.reading_nodup hread
    reading_row := fun t ht => h.reading_row t (hreading.subset ht)
    rotated_issued := fun t ht => h.rotated_issued t (hrotated.subset ht)
    spent_issued := fun k hk => h.spent_issued k (hspent.subset hk)
    spent_nodup := nodup_of_subperm h.spent_nodup hspent
    spent_revoked := fun k hk => h.spent_revoked k (hspent.subset hk)
    spent_reading := fun k hk t ht => h.spent_reading k (hspent.subset hk) t (hreading.subset ht)
    stale_exchange := fun t ht => h.stale_exchange t ?_ }
  rcases List.mem_append.mp ht with ht | ht
  · exact List.mem_append_left _ (hreading.subset ht)
  · exact List.mem_append_right _ (hrotated.subset ht)

/-- Giving out a token. -/
theorem grant (h : Sound s) (hnew : new.hash ∉ s.issued.map Prod.snd) :
    Sound { s with rows := s.rows ++ [new], issued := s.issued ++ [(new.owner, new.hash)] } where
  issued_nodup := by
    rw [List.map_append, List.map_singleton]
    exact h.issued_nodup.append (List.nodup_singleton _)
      (List.disjoint_singleton.mpr hnew)
  rows_issued r hr := by
    rcases List.mem_append.mp hr with hr | hr
    · exact List.mem_append_left _ (h.rows_issued r hr)
    · rw [List.mem_singleton.mp hr]
      exact List.mem_append_right _ (List.mem_singleton_self _)
  rows_nodup := by
    rw [List.map_append, List.map_singleton]
    refine h.rows_nodup.append (List.nodup_singleton _) (List.disjoint_singleton.mpr fun hmem => hnew ?_)
    obtain ⟨r, hr, heq⟩ := List.mem_map.mp hmem
    exact heq ▸ List.mem_map_of_mem (h.rows_issued r hr)
  reading_issued t ht := List.mem_append_left _ (h.reading_issued t ht)
  reading_nodup := h.reading_nodup
  reading_row t ht r hr heq := by
    rcases List.mem_append.mp hr with hr | hr
    · exact h.reading_row t ht r hr heq
    · rw [List.mem_singleton.mp hr] at heq
      exact absurd (List.mem_map_of_mem (h.reading_issued t ht)) (heq ▸ hnew)
  rotated_issued t ht := List.mem_append_left _ (h.rotated_issued t ht)
  spent_issued k hk := by
    rw [List.map_append]
    exact List.mem_append_left _ (h.spent_issued k hk)
  spent_nodup := h.spent_nodup
  spent_revoked k hk r hr heq := by
    rcases List.mem_append.mp hr with hr | hr
    · exact h.spent_revoked k hk r hr heq
    · rw [List.mem_singleton.mp hr] at heq
      exact absurd (h.spent_issued k hk) (heq ▸ hnew)
  spent_reading := h.spent_reading
  stale_issued k hk := by
    rw [List.map_append]
    exact List.mem_append_left _ (h.stale_issued k hk)
  stale_revoked r hr hstale := by
    rcases List.mem_append.mp hr with hr | hr
    · exact h.stale_revoked r hr hstale
    · rw [List.mem_singleton.mp hr] at hstale
      exact absurd (h.stale_issued _ hstale) hnew
  stale_exchange := h.stale_exchange

/-- Reading a live row that no other exchange has read. -/
theorem read (h : Sound s) (hrow : row ∈ s.rows) (hlive : row.revoked = false)
    (halone : ∀ t ∈ s.reading, t.hash ≠ row.hash) (hperm : reading.Perm (row :: s.reading)) :
    Sound { s with reading := reading } := by
  obtain ⟨hspent, hstale⟩ := h.live hrow hlive
  have hmem : ∀ t ∈ reading, t = row ∨ t ∈ s.reading := fun t ht => List.mem_cons.mp (hperm.subset ht)
  refine { h with reading_issued := ?_, reading_nodup := ?_, reading_row := ?_, spent_reading := ?_,
                  stale_exchange := ?_ }
  · intro t ht
    rcases hmem t ht with rfl | ht
    · exact h.rows_issued t hrow
    · exact h.reading_issued t ht
  · rw [(hperm.map Token.hash).nodup_iff, List.map_cons, List.nodup_cons]
    refine ⟨fun hmem => ?_, h.reading_nodup⟩
    obtain ⟨t, ht, heq⟩ := List.mem_map.mp hmem
    exact halone t ht heq
  · intro t ht r hr heq
    rcases hmem t ht with rfl | ht
    · exact congrArg Token.id (List.inj_on_of_nodup_map h.rows_nodup hr hrow heq)
    · exact h.reading_row t ht r hr heq
  · intro k hk t ht
    rcases hmem t ht with rfl | ht
    · exact fun heq => hspent (heq ▸ hk)
    · exact h.spent_reading k hk t ht
  · intro t ht
    rcases List.mem_append.mp ht with ht | ht
    · rcases hmem t ht with rfl | ht
      · exact hstale
      · exact h.stale_exchange t (List.mem_append_left _ ht)
    · exact h.stale_exchange t (List.mem_append_right _ ht)

/-- Revoking the row that was read. -/
theorem rotate (h : Sound s) (hreading : s.reading.Perm (row :: reading))
    (hrotated : rotated.Perm (row :: s.rotated))
    (hrevoked : ∀ r ∈ s.rows, r.id = row.id → r.revoked = true) :
    Sound { s with reading := reading, rotated := rotated } := by
  have hrow : row ∈ s.reading := hreading.symm.subset List.mem_cons_self
  have hsub : ∀ t ∈ reading, t ∈ s.reading := fun t ht =>
    hreading.symm.subset (List.mem_cons_of_mem _ ht)
  have hmem : ∀ t ∈ rotated, t = row ∨ t ∈ s.rotated := fun t ht => List.mem_cons.mp (hrotated.subset ht)
  have hnodup : (row.hash :: reading.map Token.hash).Nodup :=
    ((hreading.map Token.hash).nodup_iff).mp h.reading_nodup
  have hspent : (s.exchanged ++ rotated.map Token.hash).Perm (row.hash :: s.spent) :=
    ((hrotated.map Token.hash).append_left _).trans List.perm_middle
  have hspent_mem : ∀ k ∈ s.exchanged ++ rotated.map Token.hash, k = row.hash ∨ k ∈ s.spent :=
    fun k hk => List.mem_cons.mp (hspent.subset hk)
  refine { h with reading_issued := fun t ht => h.reading_issued t (hsub t ht),
                  reading_nodup := (List.nodup_cons.mp hnodup).2,
                  reading_row := fun t ht => h.reading_row t (hsub t ht),
                  rotated_issued := ?_, spent_issued := ?_, spent_nodup := ?_, spent_revoked := ?_,
                  spent_reading := ?_, stale_exchange := ?_ }
  · intro t ht
    rcases hmem t ht with rfl | ht
    · exact h.reading_issued t hrow
    · exact h.rotated_issued t ht
  · intro k hk
    rcases hspent_mem k hk with rfl | hk
    · exact List.mem_map_of_mem (h.reading_issued row hrow)
    · exact h.spent_issued k hk
  · refine hspent.nodup_iff.mpr (List.nodup_cons.mpr ⟨fun hk => ?_, h.spent_nodup⟩)
    exact h.spent_reading _ hk row hrow rfl
  · intro k hk r hr heq
    rcases hspent_mem k hk with rfl | hk
    · exact hrevoked r hr (h.reading_row row hrow r hr heq)
    · exact h.spent_revoked k hk r hr heq
  · intro k hk t ht heq
    rcases hspent_mem k hk with rfl | hk
    · exact (List.nodup_cons.mp hnodup).1 (heq ▸ List.mem_map_of_mem ht)
    · exact h.spent_reading k hk t (hsub t ht) heq
  · intro t ht
    rcases List.mem_append.mp ht with ht | ht
    · exact h.stale_exchange t (List.mem_append_left _ (hsub t ht))
    · rcases hmem t ht with rfl | ht
      · exact h.stale_exchange t (List.mem_append_left _ hrow)
      · exact h.stale_exchange t (List.mem_append_right _ ht)

/-- Answering an exchange. -/
theorem settle (h : Sound s) (hperm : s.rotated.Perm (row :: rotated)) :
    Sound { s with rotated := rotated, exchanged := s.exchanged ++ [row.hash] } := by
  have hsub : ∀ t ∈ rotated, t ∈ s.rotated := fun t ht => hperm.symm.subset (List.mem_cons_of_mem _ ht)
  have hspent : (s.exchanged ++ [row.hash] ++ rotated.map Token.hash).Perm s.spent := by
    rw [List.append_assoc]
    exact ((hperm.map Token.hash).append_left _).symm
  exact { h with
    rotated_issued t ht := h.rotated_issued t (hsub t ht)
    spent_issued k hk := h.spent_issued k (hspent.subset hk)
    spent_nodup := hspent.nodup_iff.mpr h.spent_nodup
    spent_revoked k hk := h.spent_revoked k (hspent.subset hk)
    spent_reading k hk := h.spent_reading k (hspent.subset hk)
    stale_exchange t ht := by
      rcases List.mem_append.mp ht with ht | ht
      · exact h.stale_exchange t (List.mem_append_left _ ht)
      · exact h.stale_exchange t (List.mem_append_right _ (hsub t ht)) }

variable [DecidableEq υ]

/-- Taking an owner's tokens for stale. -/
theorem retire (h : Sound s) (owner : υ) (halone : ∀ t ∈ s.reading ++ s.rotated, t.owner ≠ owner)
    (hrevoked : ∀ r ∈ s.rows, r.owner = owner → r.revoked = true) :
    Sound { s with stale := s.stale ++ (s.issued.filter fun i => i.1 = owner).map Prod.snd } := by
  have howner : ∀ {u k}, (u, k) ∈ s.issued →
      k ∈ (s.issued.filter fun i => i.1 = owner).map Prod.snd → u = owner := by
    intro u k hissued hk
    obtain ⟨⟨u', k'⟩, hi, rfl⟩ := List.mem_map.mp hk
    obtain ⟨hi, hu⟩ := List.mem_filter.mp hi
    have heq := List.inj_on_of_nodup_map h.issued_nodup hissued hi rfl
    exact (congrArg Prod.fst heq).trans (of_decide_eq_true hu)
  refine { h with stale_issued := ?_, stale_revoked := ?_, stale_exchange := ?_ }
  · intro k hk
    rcases List.mem_append.mp hk with hk | hk
    · exact h.stale_issued k hk
    · exact (List.filter_sublist.map _).subset hk
  · intro r hr hk
    rcases List.mem_append.mp hk with hk | hk
    · exact h.stale_revoked r hr hk
    · exact hrevoked r hr (howner (h.rows_issued r hr) hk)
  · intro t ht hk
    rcases List.mem_append.mp hk with hk | hk
    · exact h.stale_exchange t ht hk
    · refine halone t ht (howner ?_ hk)
      rcases List.mem_append.mp ht with ht | ht
      · exact h.reading_issued t ht
      · exact h.rotated_issued t ht

/-- **What every statement keeps.** -/
theorem step [DecidableEq η] {s' : State ι υ η} (h : Sound s) (hstep : Step s s') : Sound s' := by
  cases hstep with
  | weaken hrows hreading hrotated => exact (h.weaken hrows).giveUp hreading hrotated
  | grant hnew => exact h.grant hnew
  | read hrow hlive halone hperm => exact h.read hrow hlive halone hperm
  | rotate hreading hrotated hrows hrevoked => exact (h.weaken hrows).rotate hreading hrotated hrevoked
  | @exchange row new rotated hperm hnew =>
    have hrow : row.hash ∉ s.stale :=
      h.stale_exchange row (List.mem_append_right _ (hperm.symm.subset List.mem_cons_self))
    rw [if_neg hrow, List.append_nil]
    exact (h.grant hnew).settle hperm
  | revokeAll owner halone hrows hrevoked => exact (h.weaken hrows).retire owner halone hrevoked

end Sound

end Foundations.Rotation
