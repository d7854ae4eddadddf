import Pcos.Backend.Change

/-!
# Backend/Forest — the file tree stays a forest, moves into own subtrees apart

New rows are leaves, deleting drops pointers, and every other request but `move_item` leaves the
parents alone.  `move_item` rejects a folder as its own target and nothing below it, although its
comment promises to reject descendants too: a folder moved into one of its own subfolders closes a
cycle, on which the breadcrumb loop and the recursive queries run forever.
-/

namespace Pcos

open Foundations

/-- Whether `a` is `x` or above it can be decided by walking up. -/
instance (t : FileTable) (a x : Uuid) : Decidable (Anc t.parent a x) :=
  decidable_of_iff (((List.range (t.rows.length + 1)).any fun n => up t.parent n x = some a) = true)
    <| by
    simp only [List.any_eq_true, decide_eq_true_eq]
    constructor
    · rintro ⟨n, -, hn⟩
      exact ⟨n, hn⟩
    · intro h
      by_cases hx : x ∈ t.rows.map FileEntry.id
      · obtain ⟨n, hlt, hn⟩ := h.exists_lt t.parentClosed hx
        rw [List.length_map] at hlt
        exact ⟨n, List.mem_range.mpr (hlt.trans (Nat.lt_succ_self _)), hn⟩
      · -- what is not in the table has no parent
        refine ⟨0, List.mem_range.mpr (Nat.succ_pos _), ?_⟩
        rcases anc_iff.mp h with rfl | ⟨y, hy, -⟩
        · rfl
        · obtain ⟨r, hr, hid, -⟩ := FileTable.parent_eq_some.mp hy
          exact absurd (List.mem_map.mpr ⟨r, hr, hid⟩) hx

/-- **The request moves an item of the user into a folder of the user that lies below it**, and
passes the checks of `move_item`. -/
def movesBelowItself (w : World) (e : Event) : Bool :=
  match e.request with
  | .moveItem item (some target) =>
    (w.owned e.call.user item).isSome
      && (w.owned e.call.user target).any (fun r => r.entryType = .folder)
      && item ≠ target && decide (Anc w.entries.parent item target)
  | _ => false

/-- The tree of the entries: acyclic, with every walk along it ending. -/
structure Forest (w : World) : Prop where
  acyclic : Acyclic w.entries.parent
  breadcrumb : ∀ user folder, ∃ fuel path, buildBreadcrumb w user folder fuel = some path
  descendants : ∀ user item, ∃ fuel ids,
    w.entries.descendantsLoop fuel (w.entries.anchor user item) [] = some ids

/-! ## Walks end on a forest -/

/-- The breadcrumb loop ends where the walk to the root does. -/
theorem breadcrumbLoop_isSome {w : World} (user : Uuid) {x : Uuid} {n : ℕ}
    (h : up w.entries.parent n x = none) (acc : List BreadcrumbItem) :
    (breadcrumbLoop w user (n + 1) (some x) acc).isSome := by
  induction n generalizing x acc with
  | zero => cases h
  | succ n ih =>
    rw [breadcrumbLoop]
    cases hown : w.owned user x with
    | none => rfl
    | some r =>
      obtain ⟨hr, rfl, -⟩ := World.owned_eq_some.mp hown
      rw [up_succ, FileTable.parent_of_mem hr] at h
      dsimp only
      cases hp : r.parentId with
      | none => rfl
      | some y =>
        rw [hp] at h
        exact ih h _

theorem Acyclic.exists_up_eq_none {t : FileTable} (hac : Acyclic t.parent) (x : Uuid) :
    ∃ n, up t.parent n x = none := by
  by_cases hx : x ∈ t.rows.map FileEntry.id
  · exact ⟨_, hac.up_length t.parentClosed hx⟩
  · refine ⟨1, ?_⟩
    rw [up_succ, Option.bind_eq_none_iff]
    intro y hy
    obtain ⟨r, hr, hid, -⟩ := FileTable.parent_eq_some.mp hy
    exact absurd (List.mem_map.mpr ⟨r, hr, hid⟩) hx

/-- **Acyclic parents make a forest.** -/
theorem Acyclic.forest {w : World} (hac : Acyclic w.entries.parent) : Forest w where
  acyclic := hac
  breadcrumb user folder := by
    cases folder with
    | none => exact ⟨1, _, rfl⟩
    | some x =>
      obtain ⟨n, hn⟩ := Acyclic.exists_up_eq_none hac x
      obtain ⟨items, hitems⟩ := Option.isSome_iff_exists.mp (breadcrumbLoop_isSome user hn [])
      exact ⟨n + 1, _, by rw [buildBreadcrumb, hitems]; rfl⟩
  descendants user item :=
    ⟨_, Option.isSome_iff_exists.mp (FileTable.descendants_isSome hac user item)⟩

/-! ## Steps -/

section Step

variable {env : Env} {w : World} {e : Event} {t : FileTable}

/-- A move that is not into the item's own subtree keeps the forest. -/
theorem Acyclic.move {item : Uuid} {target : Option Uuid} (hac : Acyclic w.entries.parent)
    (hreq : e.request = .moveItem item target) (hown : (w.owned e.call.user item).isSome)
    (htarget : ∀ x ∈ target, ∃ r, w.owned e.call.user x = some r ∧ r.entryType = .folder)
    (hne : target ≠ some item)
    (ht : w.entries.update (fun r => r.id = item)
      (fun r => { r with parentId := target, updatedAt := e.call.now }) = some t)
    (hok : movesBelowItself w e = false) : Acyclic t.parent := by
  obtain ⟨r, hr, rfl, -⟩ := World.owned_isSome.mp hown
  rw [FileTable.parent_reparent hr ht (fun _ => rfl) (fun _ => rfl)]
  cases target with
  | none => exact hac.detach r.id
  | some x =>
    refine hac.reparent fun hanc => ?_
    obtain ⟨f, hf, hfolder⟩ := htarget x rfl
    have hx : r.id ≠ x := fun h => hne (by rw [h])
    simp [movesBelowItself, hreq, hown, hf, hfolder, hx, hanc] at hok

/-- **A move into the item's own subtree that the unique key lets through closes a cycle.** -/
theorem not_acyclic_move {item target : Uuid} (hown : (w.owned e.call.user item).isSome)
    (ht : w.entries.update (fun r => r.id = item)
      (fun r => { r with parentId := some target, updatedAt := e.call.now }) = some t)
    (hbelow : Anc w.entries.parent item target) : ¬ Acyclic t.parent := by
  obtain ⟨r, hr, rfl, -⟩ := World.owned_isSome.mp hown
  rw [FileTable.parent_reparent hr ht (fun _ => rfl) (fun _ => rfl)]
  exact not_acyclic_reparent hbelow

/-- **Every other step keeps the forest.** -/
theorem Acyclic.rowChange (hac : Acyclic w.entries.parent) (h : RowChange env w e t)
    (hfresh : Fresh w e) (hok : movesBelowItself w e = false) : Acyclic t.parent := by
  cases h with
  | same => exact hac
  | insert hr ht =>
    rw [FileTable.parent_insert ht]
    refine hac.insert (fun x hx => ?_) (hr.parent_ne hfresh)
    obtain ⟨r', hr', hid⟩ := FileTable.parent_mem hx
    exact FileTable.id_notMem_of_insert ht hr' hid
  | rewrite hf ht => rwa [FileTable.parent_update ht hf.id hf.parentId]
  | move hreq hown htarget hne ht => exact Acyclic.move hac hreq hown htarget hne ht hok
  | trash hp time ht => rwa [FileTable.parent_update ht (fun _ => rfl) fun _ => rfl]
  | restore hreq hown hids ht => rwa [FileTable.parent_update ht (fun _ => rfl) fun _ => rfl]
  | delete hp => exact hac.mono fun x y => FileTable.parent_delete

end Step

/-! ## Runs -/

theorem acyclic_empty (columns : List Column) (users : Uuid → Option ℤ) :
    Acyclic (World.empty columns users).entries.parent := by
  intro x n h
  cases h

/-- **The file tree is a forest in every state of a run without moves into own subtrees.** -/
theorem forest_of_run (env : Env) (columns : List Column) (users : Uuid → Option ℤ)
    (es : List Event)
    (h : Along (fun w e => Fresh w e ∧ movesBelowItself w e = false) (step env)
      (.empty columns users) es) :
    Forest (run (step env) (.empty columns users) es) :=
  Acyclic.forest <| h.invariant (P := fun w => Acyclic w.entries.parent)
    (fun w e hac hok => Acyclic.rowChange hac (step_change env w e).rows hok.1 hok.2)
    (acyclic_empty columns users)

open Sample

/-- Two folders, one of which is moved into the other. -/
def moveIntoSibling : List Event :=
  [sent alice 0 id1 (.createFolder none "A"), sent alice 1 id2 (.createFolder none "B"),
    sent alice 2 id3 (.moveItem id1 (some id2))]

theorem forest_moveIntoSibling :
    (run (step env) start moveIntoSibling).entries.parent id1 = some id2
      ∧ Forest (run (step env) start moveIntoSibling) :=
  ⟨by decide, forest_of_run env migratedColumns users moveIntoSibling (by decide)⟩

/-- A folder, a folder in it, and a move of the first into the second. -/
def moveIntoChild : List Event :=
  [sent alice 0 id1 (.createFolder none "A"), sent alice 1 id2 (.createFolder (some id1) "B"),
    sent alice 2 id3 (.moveItem id1 (some id2))]

/-- **The two folders are each other's parent afterwards**, and a query below one never ends. -/
theorem not_forest_moveIntoChild :
    Along Fresh (step env) start moveIntoChild ∧ ¬ Forest (run (step env) start moveIntoChild)
      ∧ ∀ fuel, (run (step env) start moveIntoChild).entries.descendantsLoop fuel
        ((run (step env) start moveIntoChild).entries.anchor alice id1) [] = none :=
  ⟨by decide, fun h => h.acyclic id1 1 (by decide),
    fun fuel => FileTable.descendantsLoop_eq_none (by decide) fuel []⟩

end Pcos
