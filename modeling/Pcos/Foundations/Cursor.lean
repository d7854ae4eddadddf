import Mathlib.Data.List.Basic
import Mathlib.Order.Lattice
import Mathlib.Order.MinMax

/-!
# Foundations/Cursor — a list that is read by the time of its items

A reader keeps a cursor, asks for the items stamped after it, the newest first and a page of them at
most, and moves the cursor to the newestStamp stamp received.  What it still has to hear of is `Pending`
as long as each such key has an item after the cursor.  A poll hears of everything pending that the
page does not cut off, and leaves nothing after the cursor: what it has not heard of then, it will
not hear of later.
-/

namespace Foundations

variable {κ ρ τ : Type*} [LinearOrder τ] {key : ρ → κ} {stamp : ρ → τ}
  {items items' listing page : List ρ} {cursor : τ} {unheard : List κ} {n : ℕ}

/-- The items after the cursor. -/
def after (stamp : ρ → τ) (items : List ρ) (cursor : τ) : List ρ :=
  items.filter fun r => cursor < stamp r

/-- All the items, the newest first; those of one time come in any order. -/
def Lists (stamp : ρ → τ) (items listing : List ρ) : Prop :=
  listing.Perm items ∧ listing.Pairwise fun r r' => stamp r' ≤ stamp r

instance [DecidableEq ρ] : Decidable (Lists stamp items listing) :=
  inferInstanceAs (Decidable (_ ∧ _))

/-- The newestStamp stamp received so far. -/
def newestStamp (stamp : ρ → τ) (cursor : τ) (page : List ρ) : τ :=
  page.foldl (fun t r => max t (stamp r)) cursor

/-- The keys that a page does not report. -/
def unreported [DecidableEq κ] (key : ρ → κ) (unheard : List κ) (page : List ρ) : List κ :=
  unheard.filter fun x => x ∉ page.map key

/-- Each of the keys has an item after the cursor. -/
def Pending (key : ρ → κ) (stamp : ρ → τ) (items : List ρ) (cursor : τ) (unheard : List κ) : Prop :=
  ∀ x ∈ unheard, ∃ r ∈ items, key r = x ∧ cursor < stamp r

theorem mem_after {r : ρ} : r ∈ after stamp items cursor ↔ r ∈ items ∧ cursor < stamp r := by
  rw [after, List.mem_filter, decide_eq_true_eq]

theorem le_newestStamp : cursor ≤ newestStamp stamp cursor page := by
  unfold newestStamp
  induction page generalizing cursor with
  | nil => exact le_rfl
  | cons r page ih => exact (le_max_left _ _).trans ih

theorem stamp_le_newestStamp {r : ρ} (hr : r ∈ page) : stamp r ≤ newestStamp stamp cursor page := by
  induction page generalizing cursor with
  | nil => cases hr
  | cons r' page ih =>
    rcases List.mem_cons.mp hr with rfl | hr
    · exact (le_max_right _ _).trans le_newestStamp
    · exact ih hr

/-- **A poll leaves nothing after the cursor**, whatever the page has cut off. -/
theorem after_newestStamp (h : Lists stamp (after stamp items cursor) listing) :
    after stamp items (newestStamp stamp cursor (listing.take (n + 1))) = [] := by
  refine List.filter_eq_nil_iff.mpr fun r hr hlt => ?_
  rw [decide_eq_true_eq] at hlt
  have hmem : r ∈ listing := h.1.mem_iff.mpr (mem_after.mpr ⟨hr, le_newestStamp.trans_lt hlt⟩)
  obtain ⟨first, rest, rfl⟩ : ∃ first rest, listing = first :: rest := by
    cases listing with
    | nil => cases hmem
    | cons first rest => exact ⟨first, rest, rfl⟩
  -- the first item is the newest of all
  have hle : stamp r ≤ stamp first := by
    rcases List.mem_cons.mp hmem with rfl | hmem
    · exact le_rfl
    · exact List.rel_of_pairwise_cons h.2 hmem
  exact absurd hlt (not_lt.mpr (hle.trans (stamp_le_newestStamp List.mem_cons_self)))

/-- **A poll hears of all that is pending**, if the page cuts none of it off. -/
theorem Pending.unreported_eq_nil [DecidableEq κ] (h : Pending key stamp items cursor unheard)
    (hlists : Lists stamp (after stamp items cursor) listing)
    (hcut : ∀ r ∈ listing.drop n, key r ∉ unheard) :
    unreported key unheard (listing.take n) = [] := by
  refine List.filter_eq_nil_iff.mpr fun x hx hno => ?_
  obtain ⟨r, hr, rfl, hlt⟩ := h x hx
  have hmem : r ∈ listing.take n ++ listing.drop n := by
    rw [List.take_append_drop]
    exact hlists.1.mem_iff.mpr (mem_after.mpr ⟨hr, hlt⟩)
  rcases List.mem_append.mp hmem with hmem | hmem
  · exact absurd (List.mem_map_of_mem hmem) (of_decide_eq_true hno)
  · exact hcut r hmem hx

/-- **A write keeps what is pending**, if each key that loses its item gets one after the cursor. -/
theorem Pending.written (h : Pending key stamp items cursor unheard) {changed : List κ}
    (hkept : ∀ r ∈ items, r ∈ items' ∨ key r ∈ changed)
    (hchanged : ∀ x ∈ changed, x ∈ unheard → ∃ r ∈ items', key r = x ∧ cursor < stamp r) :
    Pending key stamp items' cursor unheard := by
  intro x hx
  obtain ⟨r, hr, rfl, hlt⟩ := h x hx
  rcases hkept r hr with hr | hr
  · exact ⟨r, hr, rfl, hlt⟩
  · exact hchanged _ hr hx

end Foundations
