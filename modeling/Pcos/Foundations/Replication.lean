import Mathlib.Data.Finset.Card
import Mathlib.Data.List.Basic

/-!
# Foundations/Replication — copies that are claimed, and contents that were written

A claim says that a node has a copy of a file, with a checksum.  It is `Backed` if the file has a
content with this checksum and that content was written on the node.  What was written stays so:
claims lose their backing only when the file changes, and get it only by a write.

The nodes that hold a file are topped up to a number by the first ones that do not (`topUp`).  This
reaches the number, or takes all nodes that there are (`card_union_topUp`), and leaves nothing to be
done (`topUp_topUp`).  It may be done one node at a time (`union_topUp_succ`).
-/

namespace Foundations

variable {φ ν δ β : Type*}

/-- A copy of the file is on the node and has the checksum. -/
structure Claim (φ ν δ : Type*) where
  file : φ
  node : ν
  checksum : δ
  deriving DecidableEq

variable {digest : β → δ} {content content' : φ → Option β} {written written' : List (ν × β)}
  {k : Claim φ ν δ} {claims claims' : List (Claim φ ν δ)}

/-- The content of the file has the checksum, and was written on the node. -/
def Claim.Backed (digest : β → δ) (content : φ → Option β) (written : List (ν × β))
    (k : Claim φ ν δ) : Prop :=
  ∃ b, content k.file = some b ∧ digest b = k.checksum ∧ (k.node, b) ∈ written

instance [DecidableEq δ] [DecidableEq ν] [DecidableEq β] :
    Decidable (k.Backed digest content written) :=
  match h : content k.file with
  | none => isFalse fun ⟨b, hb, _⟩ => Option.some_ne_none b (hb.symm.trans h)
  | some b =>
    decidable_of_iff (digest b = k.checksum ∧ (k.node, b) ∈ written)
      ⟨fun hb => ⟨b, h, hb⟩, fun ⟨_, hb, h'⟩ => Option.some.inj (h.symm.trans hb) ▸ h'⟩

/-- Every claim is backed. -/
def AllBacked (digest : β → δ) (content : φ → Option β) (written : List (ν × β))
    (claims : List (Claim φ ν δ)) : Prop :=
  ∀ k ∈ claims, k.Backed digest content written

/-- **A claim stays backed while its file keeps its content.** -/
theorem Claim.Backed.mono (h : k.Backed digest content written)
    (hcontent : ∀ b, content k.file = some b → content' k.file = some b)
    (hwritten : written ⊆ written') : k.Backed digest content' written' := by
  obtain ⟨b, hb, hdigest, hmem⟩ := h
  exact ⟨b, hcontent b hb, hdigest, hwritten hmem⟩

/-- …and so do all that were claimed before. -/
theorem AllBacked.mono (h : AllBacked digest content written claims) (hclaims : claims' ⊆ claims)
    (hcontent : ∀ k ∈ claims', ∀ b, content k.file = some b → content' k.file = some b)
    (hwritten : written ⊆ written') : AllBacked digest content' written' claims' :=
  fun k hk => (h k (hclaims hk)).mono (hcontent k hk) hwritten

/-! ## Topping up -/

section TopUp

variable [DecidableEq ν] {t : ℕ} {held : Finset ν} {nodes : List ν}

/-- The first nodes that are not held, as many as are missing up to `t`. -/
def topUp (t : ℕ) (held : Finset ν) (nodes : List ν) : List ν :=
  (nodes.filter fun n => n ∉ held).take (t - held.card)

theorem mem_of_mem_topUp {n : ν} (h : n ∈ topUp t held nodes) : n ∈ nodes ∧ n ∉ held := by
  simpa using List.mem_of_mem_take h

theorem nodup_topUp (h : nodes.Nodup) : (topUp t held nodes).Nodup :=
  (h.filter _).sublist (List.take_sublist ..)

theorem card_union_of_filter (h : nodes.Nodup) :
    (held ∪ nodes.toFinset).card = held.card + (nodes.filter fun n => n ∉ held).length := by
  have hdisjoint : Disjoint held (nodes.filter fun n => n ∉ held).toFinset := by
    rw [Finset.disjoint_left]
    intro n hn hmem
    simp [hn] at hmem
  have hunion : held ∪ nodes.toFinset = held ∪ (nodes.filter fun n => n ∉ held).toFinset := by
    ext n
    by_cases hn : n ∈ held <;> simp [hn]
  rw [hunion, Finset.card_union_of_disjoint hdisjoint, List.toFinset_card_of_nodup (h.filter _)]

/-- **Topping up reaches the number, or takes all nodes.** -/
theorem card_union_topUp (h : nodes.Nodup) : (held ∪ (topUp t held nodes).toFinset).card =
    max held.card (min t (held ∪ nodes.toFinset).card) := by
  have htaken : (topUp t held nodes).filter (fun n => n ∉ held) = topUp t held nodes :=
    List.filter_eq_self.mpr fun n hn => decide_eq_true (mem_of_mem_topUp hn).2
  rw [card_union_of_filter (nodup_topUp h), htaken, topUp, List.length_take, card_union_of_filter h]
  omega

/-- **When there is nothing to be done**: there are enough, or there are no more. -/
theorem topUp_eq_nil_iff : topUp t held nodes = [] ↔ t ≤ held.card ∨ nodes.toFinset ⊆ held := by
  rw [topUp, List.take_eq_nil_iff, Nat.sub_eq_zero_iff_le, List.filter_eq_nil_iff]
  simp [Finset.subset_iff]

variable (held) in
/-- **Nothing is to be done after that.** -/
theorem topUp_topUp (h : nodes.Nodup) :
    topUp t (held ∪ (topUp t held nodes).toFinset) nodes = [] := by
  have hcard := @card_union_topUp _ _ t held nodes h
  have hsub : held ∪ (topUp t held nodes).toFinset ⊆ held ∪ nodes.toFinset :=
    Finset.union_subset_union_right fun n hn =>
      List.mem_toFinset.mpr (mem_of_mem_topUp (List.mem_toFinset.mp hn)).1
  rw [topUp_eq_nil_iff]
  by_cases hreached : t ≤ (held ∪ (topUp t held nodes).toFinset).card
  · exact .inl hreached
  · rw [Finset.eq_of_subset_of_card_le hsub (by omega)]
    exact .inr Finset.subset_union_right

/-- What is not in a prefix comes after it. -/
theorem filter_not_mem_take {l : List ν} (h : l.Nodup) (i : ℕ) :
    l.filter (fun n => n ∉ l.take i) = l.drop i := by
  have happ := List.take_append_drop i l
  have hapart : ∀ n ∈ l.drop i, n ∉ l.take i := fun n hn hmem =>
    List.disjoint_take_drop h (le_refl i) hmem hn
  have hfirst : (l.take i).filter (fun n => n ∉ l.take i) = [] :=
    List.filter_eq_nil_iff.mpr fun n hn => by simp [hn]
  have hrest : (l.drop i).filter (fun n => n ∉ l.take i) = l.drop i :=
    List.filter_eq_self.mpr fun n hn => decide_eq_true (hapart n hn)
  calc l.filter (fun n => n ∉ l.take i)
      = (l.take i ++ l.drop i).filter (fun n => n ∉ l.take i) := by rw [happ]
    _ = l.drop i := by rw [List.filter_append, hfirst, hrest, List.nil_append]

variable (held) in
/-- What is missing after topping up. -/
theorem missing_topUp (h : nodes.Nodup) :
    nodes.filter (fun n => n ∉ held ∪ (topUp t held nodes).toFinset) =
      (nodes.filter fun n => n ∉ held).drop (t - held.card) := by
  rw [← filter_not_mem_take (h.filter _), List.filter_filter]
  refine List.filter_congr fun n _ => ?_
  rw [topUp, ← Bool.decide_and]
  refine decide_eq_decide.mpr ?_
  rw [Finset.mem_union, List.mem_toFinset, not_or, and_comm]

variable (held) in
/-- **What is topped up in two goes is topped up in one.** -/
theorem topUp_append {t' : ℕ} (ht : t ≤ t') (h : nodes.Nodup) :
    topUp t' held nodes =
      topUp t held nodes ++ topUp t' (held ∪ (topUp t held nodes).toFinset) nodes := by
  have hcard : (held ∪ (topUp t held nodes).toFinset).card = _ := card_union_topUp h
  rw [card_union_of_filter h] at hcard
  rw [topUp.eq_1 t' (held ∪ _), missing_topUp held h]
  rw [topUp, topUp]
  generalize hm : (nodes.filter fun n => n ∉ held) = missing at *
  have hsum : t' - held.card = (t - held.card) + (t' - held.card - (t - held.card)) := by omega
  rw [hsum, List.take_add]
  congr 1
  by_cases hfew : missing.length ≤ t - held.card
  · rw [List.drop_of_length_le hfew, List.take_nil, List.take_nil]
  · congr 1
    rw [topUp, hm] at hcard
    omega

variable (held) in
/-- **The `k`-th of a series of single rounds.** -/
theorem union_topUp_succ (t k : ℕ) (h : nodes.Nodup) :
    held ∪ (topUp (min t (held.card + (k + 1))) held nodes).toFinset =
      (held ∪ (topUp (min t (held.card + k)) held nodes).toFinset) ∪
        (topUp (min t ((held ∪ (topUp (min t (held.card + k)) held nodes).toFinset).card + 1))
          (held ∪ (topUp (min t (held.card + k)) held nodes).toFinset) nodes).toFinset := by
  have hcard : (held ∪ (topUp (min t (held.card + k)) held nodes).toFinset).card = _ :=
    card_union_topUp h
  rw [card_union_of_filter h] at hcard
  have hmissing := missing_topUp (t := min t (held.card + k)) held h
  rw [topUp_append held (show min t (held.card + k) ≤ min t (held.card + (k + 1)) by omega) h,
    List.toFinset_append, ← Finset.union_assoc]
  generalize held ∪ (topUp (min t (held.card + k)) held nodes).toFinset = next at *
  congr 2
  rw [topUp, topUp, hmissing]
  generalize (nodes.filter fun n => n ∉ held) = missing at *
  by_cases hfew : missing.length ≤ min t (held.card + k) - held.card
  · rw [List.drop_of_length_le hfew, List.take_nil, List.take_nil]
  · congr 1
    omega

/-- **One more is enough**, if there is no second one to be had, or to be asked for. -/
theorem topUp_succ (h : t ≤ held.card + 1 ∨ (nodes.filter fun n => n ∉ held).length ≤ 1) :
    topUp (min t (held.card + 1)) held nodes = topUp t held nodes := by
  rw [topUp, topUp]
  by_cases hlast : t ≤ held.card + 1
  · rw [min_eq_left hlast]
  · have hfew := h.resolve_left hlast
    rw [List.take_of_length_le (by omega), List.take_of_length_le (by omega)]

end TopUp

/-! ## One file after the other -/

section Visits

variable {α ρ ι : Type*} (key : α → ι) (due : α → List ρ)

/-- The rows are due for files of other keys. -/
def DueElsewhere (fs : List α) (keys : List ι) (rows : List ρ) : Prop :=
  ∀ r ∈ rows, ∃ f ∈ fs, key f ∉ keys ∧ r ∈ due f

theorem foldl_visits_from {σ : Type*} (add : List ρ → σ) {visit : σ → α → σ} {all : List α}
    (hvisit : ∀ f ∈ all, ∀ rows, DueElsewhere key due all [key f] rows →
      visit (add rows) f = add (rows ++ due f)) :
    ∀ (fs : List α) (rows : List ρ), fs ⊆ all → (fs.map key).Nodup →
      DueElsewhere key due all (fs.map key) rows →
        fs.foldl visit (add rows) = add (rows ++ fs.flatMap due)
  | [], rows, _, _, _ => by simp
  | f :: fs, rows, hall, hfs, hrows => by
      rw [List.cons_subset] at hall
      rw [List.map_cons, List.nodup_cons] at hfs
      have hothers : DueElsewhere key due all [key f] rows := fun r hr =>
        (hrows r hr).imp fun f' => .imp_right <| .imp_left fun hnot hmem =>
          hnot (List.mem_singleton.mp hmem ▸ List.mem_cons_self)
      have hrest : DueElsewhere key due all (fs.map key) (rows ++ due f) := by
        intro r hr
        rcases List.mem_append.mp hr with hr | hr
        · exact (hrows r hr).imp fun f' => .imp_right <| .imp_left fun hnot hmem =>
            hnot (List.mem_cons_of_mem _ hmem)
        · exact ⟨f, hall.1, hfs.1, hr⟩
      rw [List.foldl_cons, hvisit f hall.1 rows hothers,
        foldl_visits_from add hvisit fs _ hall.2 hfs.2 hrest, List.flatMap_cons, List.append_assoc]

/-- **Rows that are added for one file after the other**: if what is due for a file does not depend
on the rows that are due for others, then each gets what was due for it at the start. -/
theorem foldl_visits {σ : Type*} (add : List ρ → σ) {visit : σ → α → σ} {fs : List α}
    (hfs : (fs.map key).Nodup)
    (hvisit : ∀ f ∈ fs, ∀ rows, DueElsewhere key due fs [key f] rows →
      visit (add rows) f = add (rows ++ due f)) :
    fs.foldl visit (add []) = add (fs.flatMap due) :=
  foldl_visits_from key due add hvisit fs [] (List.Subset.refl _) hfs
    fun _ hr => absurd hr List.not_mem_nil

/-- **No two rows are for one file and one node**, if those for each file are for nodes that it is
not on. -/
theorem nodup_visits (rowKey : ρ → ι × ν) {rows : List ρ} {fs : List α}
    (hrows : (rows.map rowKey).Nodup) (hfs : (fs.map key).Nodup)
    (hdue : ∀ f ∈ fs, ((due f).map rowKey).Nodup)
    (hfile : ∀ f ∈ fs, ∀ r ∈ due f, (rowKey r).1 = key f)
    (hnew : ∀ f ∈ fs, ∀ r ∈ due f, ∀ r' ∈ rows, rowKey r' ≠ rowKey r) :
    ((rows ++ fs.flatMap due).map rowKey).Nodup := by
  rw [List.map_append, List.nodup_append', List.map_flatMap, List.nodup_flatMap]
  refine ⟨hrows, ⟨hdue, ?_⟩, ?_⟩
  · refine (List.pairwise_map.mp hfs).imp_of_mem fun {f f'} hf hf' hne k hk hk' => ?_
    obtain ⟨r, hr, rfl⟩ := List.mem_map.mp hk
    obtain ⟨r', hr', heq⟩ := List.mem_map.mp hk'
    rw [← hfile f hf r hr, ← hfile f' hf' r' hr', heq] at hne
    exact hne rfl
  · intro k hk hk'
    obtain ⟨r', hr', rfl⟩ := List.mem_map.mp hk
    obtain ⟨f, hf, hk'⟩ := List.mem_flatMap.mp hk'
    obtain ⟨r, hr, heq⟩ := List.mem_map.mp hk'
    exact hnew f hf r hr r' hr' heq.symm

end Visits

end Foundations
