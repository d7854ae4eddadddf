import Mathlib.Data.List.Nodup
import Mathlib.Data.List.Perm.Basic

/-!
# Foundations/Vouchers — vouchers that are redeemed once

    find an unused voucher ──▸ give what it is for ──▸ mark it as used

A redemption takes three statements and no lock.  Where no voucher is found while another redemption
of it is under way, and each that has been redeemed is marked, a voucher is redeemed at most once
(`Sound.once`), and is unused until it is (`Sound.unused`).
-/

namespace Foundations.Vouchers

/-- A row of the table. -/
structure Voucher (κ : Type*) where
  id : κ
  used : Bool

/-- The table, the redemptions under way by the voucher that they have found, those that have redeemed
theirs and not marked it, and the vouchers redeemed so far. -/
structure State (κ : Type*) where
  rows : List (Voucher κ)
  held : List κ
  spent : List κ
  redeemed : List κ

variable {κ : Type*}

section Steps

variable [DecidableEq κ]

/-- The table with one voucher marked. -/
def mark (k : κ) (rows : List (Voucher κ)) : List (Voucher κ) :=
  rows.map fun r => if r.id = k then { r with used := true } else r

/-- What a statement does. -/
inductive Step (s : State κ) : State κ → Prop
  /-- Redemptions are given up, before anything is redeemed. -/
  | giveUp {held} : held.Subperm s.held → Step s { s with held := held }
  | issue {k : κ} : k ∉ s.rows.map Voucher.id → Step s { s with rows := s.rows ++ [⟨k, false⟩] }
  | find {r held} : r ∈ s.rows → r.used = false → r.id ∉ s.held → r.id ∉ s.spent →
    held.Perm (r.id :: s.held) → Step s { s with held := held }
  | redeem {k held spent} : s.held.Perm (k :: held) → spent.Perm (k :: s.spent) →
    Step s { s with held := held, spent := spent, redeemed := s.redeemed ++ [k] }
  | mark {k spent} : s.spent.Perm (k :: spent) →
    Step s { s with rows := mark k s.rows, spent := spent }

theorem Step.refl (s : State κ) : Step s s := .giveUp (List.Subperm.refl _)

theorem Step.of_eq {s t : State κ} (h : t = s) : Step s t := h ▸ Step.refl s

end Steps

/-- What every statement keeps. -/
structure Sound (s : State κ) : Prop where
  once : s.redeemed.Nodup
  held_nodup : s.held.Nodup
  held_fresh : ∀ k ∈ s.held, k ∉ s.redeemed
  spent_redeemed : ∀ k ∈ s.spent, k ∈ s.redeemed
  used_redeemed : ∀ r ∈ s.rows, r.used = true → r.id ∈ s.redeemed
  unmarked : ∀ r ∈ s.rows, r.used = false → r.id ∈ s.redeemed → r.id ∈ s.spent
  known : ∀ k, k ∈ s.held ∨ k ∈ s.redeemed → k ∈ s.rows.map Voucher.id

variable {s s' : State κ}

/-- A voucher is unused until it is redeemed. -/
theorem Sound.unused (h : Sound s) {r : Voucher κ} (hr : r ∈ s.rows) (hid : r.id ∉ s.redeemed) :
    r.used = false :=
  Bool.eq_false_iff.mpr fun hused => hid (h.used_redeemed r hr hused)

theorem Sound.giveUp (h : Sound s) {held : List κ} (hheld : held.Subperm s.held) :
    Sound { s with held := held } where
  once := h.once
  held_nodup := by
    obtain ⟨l, hperm, hsub⟩ := hheld
    exact hperm.nodup_iff.mp (h.held_nodup.sublist hsub)
  held_fresh k hk := h.held_fresh k (hheld.subset hk)
  spent_redeemed := h.spent_redeemed
  used_redeemed := h.used_redeemed
  unmarked := h.unmarked
  known k hk := h.known k (hk.imp_left fun hin => hheld.subset hin)

theorem Sound.issue (h : Sound s) {k : κ} (hk : k ∉ s.rows.map Voucher.id) :
    Sound { s with rows := s.rows ++ [⟨k, false⟩] } where
  once := h.once
  held_nodup := h.held_nodup
  held_fresh := h.held_fresh
  spent_redeemed := h.spent_redeemed
  used_redeemed r hr hused := by
    rcases List.mem_append.mp hr with hr | hr
    · exact h.used_redeemed r hr hused
    · rw [List.mem_singleton.mp hr] at hused
      exact absurd hused Bool.false_ne_true
  unmarked r hr hused hid := by
    rcases List.mem_append.mp hr with hr | hr
    · exact h.unmarked r hr hused hid
    · -- what has been redeemed is in the table, and the new one was not
      rw [List.mem_singleton.mp hr] at hid
      exact absurd (h.known k (Or.inr hid)) hk
  known k' hk' := by
    rw [List.map_append]
    exact List.mem_append_left _ (h.known k' hk')

theorem Sound.find (h : Sound s) {r : Voucher κ} {held : List κ} (hr : r ∈ s.rows)
    (hunused : r.used = false) (hheld : r.id ∉ s.held) (hspent : r.id ∉ s.spent)
    (hperm : held.Perm (r.id :: s.held)) : Sound { s with held := held } where
  once := h.once
  held_nodup := hperm.nodup_iff.mpr (List.nodup_cons.mpr ⟨hheld, h.held_nodup⟩)
  held_fresh k hk := by
    rcases List.mem_cons.mp (hperm.mem_iff.mp hk) with rfl | hk
    · exact fun hredeemed => hspent (h.unmarked r hr hunused hredeemed)
    · exact h.held_fresh k hk
  spent_redeemed := h.spent_redeemed
  used_redeemed := h.used_redeemed
  unmarked := h.unmarked
  known k hk := by
    rcases hk with hk | hk
    · rcases List.mem_cons.mp (hperm.mem_iff.mp hk) with rfl | hk
      · exact List.mem_map_of_mem hr
      · exact h.known k (Or.inl hk)
    · exact h.known k (Or.inr hk)

theorem Sound.redeem (h : Sound s) {k : κ} {held spent : List κ} (hheld : s.held.Perm (k :: held))
    (hspent : spent.Perm (k :: s.spent)) :
    Sound { s with held := held, spent := spent, redeemed := s.redeemed ++ [k] } := by
  have hk : k ∈ s.held := hheld.mem_iff.mpr List.mem_cons_self
  have hnodup : k ∉ held ∧ held.Nodup := List.nodup_cons.mp (hheld.nodup_iff.mp h.held_nodup)
  have hsub : ∀ k' ∈ held, k' ∈ s.held := fun k' hk' =>
    hheld.mem_iff.mpr (List.mem_cons_of_mem _ hk')
  constructor
  · refine List.nodup_append.mpr ⟨h.once, List.nodup_singleton k, fun a ha b hb => ?_⟩
    rintro rfl
    rw [List.mem_singleton.mp hb] at ha
    exact h.held_fresh k hk ha
  · exact hnodup.2
  · intro k' hk' hin
    rcases List.mem_append.mp hin with hin | hin
    · exact h.held_fresh k' (hsub k' hk') hin
    · rw [List.mem_singleton.mp hin] at hk'
      exact hnodup.1 hk'
  · intro k' hk'
    rcases List.mem_cons.mp (hspent.mem_iff.mp hk') with rfl | hk'
    · exact List.mem_append_right _ List.mem_cons_self
    · exact List.mem_append_left _ (h.spent_redeemed k' hk')
  · exact fun r hr hused => List.mem_append_left _ (h.used_redeemed r hr hused)
  · intro r hr hunused hin
    rcases List.mem_append.mp hin with hin | hin
    · exact hspent.mem_iff.mpr (List.mem_cons_of_mem _ (h.unmarked r hr hunused hin))
    · exact hspent.mem_iff.mpr (List.mem_singleton.mp hin ▸ List.mem_cons_self)
  · rintro k' (hk' | hk')
    · exact h.known k' (Or.inl (hsub k' hk'))
    · rcases List.mem_append.mp hk' with hk' | hk'
      · exact h.known k' (Or.inr hk')
      · exact h.known k' (Or.inl (List.mem_singleton.mp hk' ▸ hk))

variable [DecidableEq κ]

theorem map_id_mark (k : κ) (rows : List (Voucher κ)) :
    (mark k rows).map Voucher.id = rows.map Voucher.id := by
  rw [mark, List.map_map]
  refine List.map_congr_left fun r _ => ?_
  rw [Function.comp_apply, apply_ite Voucher.id, ite_self]

/-- A row after the mark is one that was marked, or another as it was. -/
theorem mem_mark {k : κ} {rows : List (Voucher κ)} {r' : Voucher κ} (hr' : r' ∈ mark k rows) :
    (r'.id = k ∧ r'.used = true) ∨ (r'.id ≠ k ∧ r' ∈ rows) := by
  obtain ⟨r, hr, rfl⟩ := List.mem_map.mp hr'
  by_cases hk : r.id = k
  · rw [if_pos hk]
    exact Or.inl ⟨hk, rfl⟩
  · rw [if_neg hk]
    exact Or.inr ⟨hk, hr⟩

theorem Sound.mark (h : Sound s) {k : κ} {spent : List κ} (hspent : s.spent.Perm (k :: spent)) :
    Sound { s with rows := mark k s.rows, spent := spent } where
  once := h.once
  held_nodup := h.held_nodup
  held_fresh := h.held_fresh
  spent_redeemed k' hk' := h.spent_redeemed k' (hspent.mem_iff.mpr (List.mem_cons_of_mem _ hk'))
  used_redeemed r hr hused := by
    rcases mem_mark hr with ⟨hid, -⟩ | ⟨-, hr⟩
    · rw [hid]
      exact h.spent_redeemed k (hspent.mem_iff.mpr List.mem_cons_self)
    · exact h.used_redeemed r hr hused
  unmarked r hr hunused hid := by
    rcases mem_mark hr with ⟨-, hused⟩ | ⟨hne, hr⟩
    · exact absurd (hunused.symm.trans hused) Bool.false_ne_true
    · exact (List.mem_cons.mp (hspent.mem_iff.mp (h.unmarked r hr hunused hid))).resolve_left hne
  known k' hk' := by
    rw [map_id_mark]
    exact h.known k' hk'

/-- **Every statement keeps a state sound.** -/
theorem Sound.step (h : Sound s) (hs : Step s s') : Sound s' := by
  cases hs with
  | giveUp hheld => exact h.giveUp hheld
  | issue hk => exact h.issue hk
  | find hr hunused hheld hspent hperm => exact h.find hr hunused hheld hspent hperm
  | redeem hheld hspent => exact h.redeem hheld hspent
  | mark hspent => exact h.mark hspent

end Foundations.Vouchers
