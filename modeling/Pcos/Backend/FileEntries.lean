import Mathlib.Data.Int.Notation
import Mathlib.Data.List.Nodup
import Pcos.Backend.Paths
import Pcos.Foundations.Ancestry

/-!
# Backend/FileEntries — the `file_entries` table (`migrations/20240101000005_file_entries.sql`)

Files and folders share one table.  Its constraints are the field `valid` of `FileTable`: the primary
key, the foreign key of `parent_id` into the table itself, the unique key (with NULLs not distinct)
on user, parent, name and `is_trashed`, and the declared widths.  A statement that would break one of
them is refused as a whole, so inserts and updates return an `Option`.

Deleting rows removes, through `ON DELETE CASCADE`, everything below them.  The recursive queries of
the service walk down from one row with `UNION ALL`, level by level, until a level is empty; on a
cycle of parents no level ever is.
-/

namespace Pcos

open Foundations

/-- The values that the check on `entry_type` allows. -/
inductive EntryType
  | file
  | folder
  deriving DecidableEq, Repr

/-- A row of `file_entries`. -/
structure FileEntry where
  id : Uuid
  userId : Uuid
  parentId : Option Uuid
  name : String
  entryType : EntryType
  mimeType : Option String
  sizeBytes : ℤ
  sha256Hash : Option String
  storagePath : Option String
  isTrashed : Bool
  trashedAt : Option ℤ
  createdAt : ℤ
  updatedAt : ℤ
  deriving DecidableEq

namespace FileEntry

/-- The columns of `uq_file_entries_parent_name`. -/
def key (r : FileEntry) : Uuid × Option Uuid × String × Bool :=
  (r.userId, r.parentId, r.name, r.isTrashed)

/-- The texts fit their columns. -/
def Fits (r : FileEntry) : Prop :=
  r.name.length ≤ 255 ∧ (∀ m ∈ r.mimeType, m.length ≤ 255) ∧ ∀ h ∈ r.sha256Hash, h.length ≤ 64

instance (r : FileEntry) : Decidable r.Fits :=
  inferInstanceAs (Decidable (_ ∧ _ ∧ _))

end FileEntry

/-- The constraints of the table. -/
structure Valid (rows : List FileEntry) : Prop where
  pk : (rows.map FileEntry.id).Nodup
  fk : ∀ r ∈ rows, ∀ p ∈ r.parentId, p ∈ rows.map FileEntry.id
  uq : (rows.map FileEntry.key).Nodup
  fits : ∀ r ∈ rows, r.Fits

instance (rows : List FileEntry) : Decidable (Valid rows) :=
  decidable_of_iff
    ((rows.map FileEntry.id).Nodup ∧ (∀ r ∈ rows, ∀ p ∈ r.parentId, p ∈ rows.map FileEntry.id)
      ∧ (rows.map FileEntry.key).Nodup ∧ ∀ r ∈ rows, r.Fits)
    ⟨fun ⟨pk, fk, uq, fits⟩ => ⟨pk, fk, uq, fits⟩, fun h => ⟨h.pk, h.fk, h.uq, h.fits⟩⟩

theorem Valid.nil : Valid [] :=
  ⟨List.nodup_nil, fun _ h => absurd h List.not_mem_nil, List.nodup_nil,
    fun _ h => absurd h List.not_mem_nil⟩

theorem nodup_map_concat {β : Type} {f : FileEntry → β} {rows : List FileEntry} {r : FileEntry}
    (h : (rows.map f).Nodup) (hr : ∀ r' ∈ rows, f r' ≠ f r) : ((rows ++ [r]).map f).Nodup := by
  rw [List.map_append, List.map_singleton, ← List.concat_eq_append, List.nodup_concat]
  refine ⟨fun hmem => ?_, h⟩
  obtain ⟨r', hr', heq⟩ := List.mem_map.mp hmem
  exact hr r' hr' heq

/-- One more row, in the root, of an id and a key that are not taken. -/
theorem Valid.concat {rows : List FileEntry} {r : FileEntry} (h : Valid rows)
    (hid : ∀ r' ∈ rows, r'.id ≠ r.id) (hroot : r.parentId = none)
    (hkey : ∀ r' ∈ rows, r'.key ≠ r.key) (hfits : r.Fits) : Valid (rows ++ [r]) where
  pk := nodup_map_concat h.pk hid
  fk r' hr' p hp := by
    rw [List.map_append]
    rcases List.mem_append.mp hr' with hr' | hr'
    · exact List.mem_append_left _ (h.fk r' hr' p hp)
    · obtain rfl := List.mem_singleton.mp hr'
      rw [hroot] at hp
      cases hp
  uq := nodup_map_concat h.uq hkey
  fits r' hr' := by
    rcases List.mem_append.mp hr' with hr' | hr'
    · exact h.fits r' hr'
    · obtain rfl := List.mem_singleton.mp hr'
      exact hfits

/-- The table. -/
structure FileTable where
  rows : List FileEntry
  valid : Valid rows

namespace FileTable

def empty : FileTable := ⟨[], .nil⟩

/-- Accept new contents, unless they break a constraint. -/
def commit (rows : List FileEntry) : Option FileTable :=
  if h : Valid rows then some ⟨rows, h⟩ else none

/-- `SELECT … WHERE id = x`. -/
def find? (t : FileTable) (x : Uuid) : Option FileEntry := t.rows.find? fun r => r.id = x

def insert (t : FileTable) (r : FileEntry) : Option FileTable := commit (t.rows ++ [r])

/-- `UPDATE … SET … WHERE p`. -/
def update (t : FileTable) (p : FileEntry → Bool) (f : FileEntry → FileEntry) : Option FileTable :=
  commit (t.rows.map fun r => if p r then f r else r)

/-- The parent pointers. -/
def parent (t : FileTable) (x : Uuid) : Option Uuid := (t.find? x).bind FileEntry.parentId

/-- The row, or a row above it, satisfies `p`. -/
def doomed (t : FileTable) (p : FileEntry → Bool) (r : FileEntry) : Bool :=
  (List.range t.rows.length).any fun n => ((up t.parent n r.id).bind t.find?).any p

/-! ## Looking rows up -/

variable {t t' : FileTable} {r r' : FileEntry} {p : FileEntry → Bool} {f : FileEntry → FileEntry}
  {x y : Uuid}

theorem rows_of_commit {rows : List FileEntry} (h : commit rows = some t) : t.rows = rows := by
  unfold commit at h
  split at h
  · cases h
    rfl
  · cases h

theorem commit_of_valid {rows : List FileEntry} (h : Valid rows) : commit rows = some ⟨rows, h⟩ :=
  dif_pos h

theorem rows_of_insert (h : t.insert r = some t') : t'.rows = t.rows ++ [r] := rows_of_commit h

theorem rows_of_update (h : t.update p f = some t') :
    t'.rows = t.rows.map fun r => if p r then f r else r := rows_of_commit h

/-- Two rows of one id are one row. -/
theorem eq_of_id (hr : r ∈ t.rows) (hr' : r' ∈ t.rows) (h : r.id = r'.id) : r = r' :=
  List.inj_on_of_nodup_map t.valid.pk hr hr' h

theorem find?_eq_some : t.find? x = some r ↔ r ∈ t.rows ∧ r.id = x := by
  constructor
  · intro h
    exact ⟨List.mem_of_find?_eq_some h, by simpa using List.find?_some h⟩
  · rintro ⟨hr, rfl⟩
    cases hf : t.find? r.id with
    | none => exact absurd (List.find?_eq_none.mp hf r hr) (by simp)
    | some r' =>
      have hr' := List.mem_of_find?_eq_some hf
      have hid : r'.id = r.id := by simpa using List.find?_some hf
      rw [eq_of_id hr' hr hid]

theorem parent_eq_some : t.parent x = some y ↔ ∃ r ∈ t.rows, r.id = x ∧ r.parentId = some y := by
  unfold parent
  rw [Option.bind_eq_some_iff]
  constructor
  · rintro ⟨r, hr, hy⟩
    obtain ⟨hr, hx⟩ := find?_eq_some.mp hr
    exact ⟨r, hr, hx, hy⟩
  · rintro ⟨r, hr, hx, hy⟩
    exact ⟨r, find?_eq_some.mpr ⟨hr, hx⟩, hy⟩

theorem parent_of_mem (hr : r ∈ t.rows) : t.parent r.id = r.parentId := by
  unfold parent
  rw [find?_eq_some.mpr ⟨hr, rfl⟩]
  rfl

/-- Parents are rows. -/
theorem parent_mem (h : t.parent x = some y) : ∃ r ∈ t.rows, r.id = y := by
  obtain ⟨r, hr, -, hy⟩ := parent_eq_some.mp h
  exact List.mem_map.mp (t.valid.fk r hr y hy)

theorem parentClosed (t : FileTable) : ParentClosed t.parent (t.rows.map FileEntry.id) := by
  intro x _ y h
  obtain ⟨r, hr, rfl⟩ := parent_mem h
  exact List.mem_map_of_mem hr

/-! ## What statements do to the rows and to the parent pointers -/

theorem mem_insert (h : t.insert r = some t') : r' ∈ t'.rows ↔ r' ∈ t.rows ∨ r' = r := by
  rw [rows_of_insert h, List.mem_append, List.mem_singleton]

theorem id_notMem_of_insert (h : t.insert r = some t') (hr' : r' ∈ t.rows) : r'.id ≠ r.id := by
  have hpk := t'.valid.pk
  rw [rows_of_insert h, List.map_append] at hpk
  exact fun heq => (List.nodup_append.mp hpk).2.2 _ (List.mem_map_of_mem hr') _
    (List.mem_singleton_self _) heq

theorem mem_update (h : t.update p f = some t') :
    r' ∈ t'.rows ↔ ∃ r ∈ t.rows, (if p r then f r else r) = r' := by
  rw [rows_of_update h, List.mem_map]

/-- What holds of the rows and of the new one holds after an insert. -/
theorem forall_insert {P : FileEntry → Prop} (h : t.insert r = some t') (ht : ∀ r ∈ t.rows, P r)
    (hr : P r) : ∀ r ∈ t'.rows, P r := by
  intro r' hr'
  rcases (mem_insert h).mp hr' with hr' | rfl
  · exact ht r' hr'
  · exact hr

/-- …and what holds of the rows and of the rewritten ones, after an update. -/
theorem forall_update {P : FileEntry → Prop} (h : t.update p f = some t') (ht : ∀ r ∈ t.rows, P r)
    (hf : ∀ r ∈ t.rows, p r = true → P (f r)) : ∀ r ∈ t'.rows, P r := by
  intro r' hr'
  obtain ⟨r, hr, rfl⟩ := (mem_update h).mp hr'
  by_cases hp : p r
  · rw [if_pos hp]
    exact hf r hr hp
  · rw [if_neg hp]
    exact ht r hr

/-- **An update that keeps ids, parents and keys and still fits is accepted.** -/
theorem update_isSome (hid : ∀ r, (f r).id = r.id) (hpar : ∀ r, (f r).parentId = r.parentId)
    (hkey : ∀ r, (f r).key = r.key) (hfits : ∀ r ∈ t.rows, p r = true → (f r).Fits) :
    (t.update p f).isSome := by
  have hmap : ∀ {β : Type} (g : FileEntry → β), (∀ r, g (f r) = g r) →
      (t.rows.map fun r => if p r then f r else r).map g = t.rows.map g := by
    intro β g hg
    rw [List.map_map]
    refine List.map_congr_left fun r _ => ?_
    by_cases hp : p r <;> simp [hp, hg]
  have hvalid : Valid (t.rows.map fun r => if p r then f r else r) := by
    refine ⟨by rw [hmap _ hid]; exact t.valid.pk, ?_, by rw [hmap _ hkey]; exact t.valid.uq, ?_⟩
    · intro r' hr' y hy
      obtain ⟨r, hr, rfl⟩ := List.mem_map.mp hr'
      rw [hmap _ hid]
      refine t.valid.fk r hr y ?_
      by_cases hp : p r
      · rwa [if_pos hp, hpar] at hy
      · rwa [if_neg hp] at hy
    · intro r' hr'
      obtain ⟨r, hr, rfl⟩ := List.mem_map.mp hr'
      by_cases hp : p r
      · rw [if_pos hp]
        exact hfits r hr hp
      · rw [if_neg hp]
        exact t.valid.fits r hr
  rw [update, commit_of_valid hvalid]
  rfl

theorem parent_insert (h : t.insert r = some t') :
    t'.parent = Function.update t.parent r.id r.parentId := by
  funext x
  by_cases hx : x = r.id
  · subst hx
    rw [Function.update_self]
    exact parent_of_mem ((mem_insert h).mpr (Or.inr rfl))
  · rw [Function.update_of_ne hx]
    refine Option.ext fun y => ?_
    rw [parent_eq_some, parent_eq_some]
    constructor
    · rintro ⟨r', hr', hid, hy⟩
      rcases (mem_insert h).mp hr' with hr' | rfl
      · exact ⟨r', hr', hid, hy⟩
      · exact absurd hid.symm hx
    · rintro ⟨r', hr', hid, hy⟩
      exact ⟨r', (mem_insert h).mpr (Or.inl hr'), hid, hy⟩

/-- An update that keeps ids and parents keeps the pointers. -/
theorem parent_update (h : t.update p f = some t') (hid : ∀ r, (f r).id = r.id)
    (hpar : ∀ r, (f r).parentId = r.parentId) : t'.parent = t.parent := by
  have hg : ∀ r, (if p r then f r else r).id = r.id
      ∧ (if p r then f r else r).parentId = r.parentId := by
    intro r
    by_cases hp : p r <;> simp [hp, hid, hpar]
  funext x
  refine Option.ext fun y => ?_
  rw [parent_eq_some, parent_eq_some]
  constructor
  · rintro ⟨r', hr', hx, hy⟩
    obtain ⟨r, hr, rfl⟩ := (mem_update h).mp hr'
    exact ⟨r, hr, (hg r).1.symm.trans hx, (hg r).2.symm.trans hy⟩
  · rintro ⟨r, hr, hx, hy⟩
    exact ⟨_, (mem_update h).mpr ⟨r, hr, rfl⟩, (hg r).1.trans hx, (hg r).2.trans hy⟩

/-- Giving one row another parent moves one pointer. -/
theorem parent_reparent {target : Option Uuid} (hr : r ∈ t.rows)
    (h : t.update (fun r' => r'.id = r.id) f = some t') (hid : ∀ r, (f r).id = r.id)
    (hpar : ∀ r, (f r).parentId = target) :
    t'.parent = Function.update t.parent r.id target := by
  have hmem : ∀ r' ∈ t.rows, (if decide (r'.id = r.id) then f r' else r') ∈ t'.rows := fun r' hr' =>
    (mem_update h).mpr ⟨r', hr', rfl⟩
  funext x
  by_cases hx : x = r.id
  · subst hx
    rw [Function.update_self]
    have hfr : f r ∈ t'.rows := by simpa using hmem r hr
    rw [← hpar r, ← hid r, parent_of_mem hfr]
  · rw [Function.update_of_ne hx]
    refine Option.ext fun y => ?_
    rw [parent_eq_some, parent_eq_some]
    constructor
    · rintro ⟨r', hr', hrx, hy⟩
      obtain ⟨r'', hr'', rfl⟩ := (mem_update h).mp hr'
      by_cases hp : r''.id = r.id
      · rw [if_pos (by simpa using hp), hid] at hrx
        exact absurd (hrx.symm.trans hp) hx
      · rw [if_neg (by simpa using hp)] at hrx hy
        exact ⟨r'', hr'', hrx, hy⟩
    · rintro ⟨r', hr', hrx, hy⟩
      have hp : r'.id ≠ r.id := fun hp => hx (hrx.symm.trans hp)
      have := hmem r' hr'
      rw [if_neg (by simpa using hp)] at this
      exact ⟨r', this, hrx, hy⟩

/-! ## Deleting -/

/-- **A row is doomed when it or an ancestor of it satisfies the condition.** -/
theorem doomed_iff (hr : r ∈ t.rows) :
    t.doomed p r = true ↔ ∃ a ∈ t.rows, Anc t.parent a.id r.id ∧ p a = true := by
  simp only [doomed, List.any_eq_true, List.mem_range, Option.any_eq_true, Option.bind_eq_some_iff]
  constructor
  · rintro ⟨n, -, a, ⟨x, hn, ha⟩, hp⟩
    obtain ⟨hmem, rfl⟩ := find?_eq_some.mp ha
    exact ⟨a, hmem, ⟨n, hn⟩, hp⟩
  · rintro ⟨a, ha, hanc, hp⟩
    obtain ⟨n, hlt, hn⟩ := hanc.exists_lt t.parentClosed (List.mem_map_of_mem hr)
    rw [List.length_map] at hlt
    exact ⟨n, hlt, a, ⟨a.id, hn, find?_eq_some.mpr ⟨ha, rfl⟩⟩, hp⟩

/-- `DELETE … WHERE p`, with the cascade. -/
def delete (t : FileTable) (p : FileEntry → Bool) : FileTable where
  rows := t.rows.filter fun r => !t.doomed p r
  valid :=
    { pk := t.valid.pk.sublist (List.filter_sublist.map _)
      uq := t.valid.uq.sublist (List.filter_sublist.map _)
      fits := fun r hr => t.valid.fits r (List.mem_of_mem_filter hr)
      fk := by
        intro r hr y hy
        obtain ⟨hr, hok⟩ := List.mem_filter.mp hr
        obtain ⟨q, hq, hqy⟩ := List.mem_map.mp (t.valid.fk r hr y hy)
        refine List.mem_map.mpr ⟨q, List.mem_filter.mpr ⟨hq, ?_⟩, hqy⟩
        -- what dooms the parent dooms the row
        by_contra hd
        obtain ⟨a, ha, hanc, hp⟩ := (doomed_iff hq).mp (by simpa using hd)
        have hpar : t.parent r.id = some q.id := by rw [parent_of_mem hr, hqy]; exact hy
        have := (doomed_iff hr).mpr ⟨a, ha, hanc.trans (.of_parent hpar), hp⟩
        simp [this] at hok }

theorem mem_delete : r ∈ (t.delete p).rows ↔
    r ∈ t.rows ∧ ∀ a ∈ t.rows, Anc t.parent a.id r.id → p a = false := by
  unfold delete
  rw [List.mem_filter]
  refine and_congr_right fun hr => ?_
  rw [Bool.not_eq_true', ← Bool.not_eq_true, doomed_iff hr]
  simp

theorem parent_delete (h : (t.delete p).parent x = some y) : t.parent x = some y := by
  obtain ⟨r, hr, hx, hy⟩ := parent_eq_some.mp h
  exact parent_eq_some.mpr ⟨r, (mem_delete.mp hr).1, hx, hy⟩

/-! ## The recursive query -/

/-- The children of the rows of the working table: `file_entries fe JOIN descendants d ON
fe.parent_id = d.id`. -/
def children (t : FileTable) (working : List Uuid) : List Uuid :=
  working.flatMap fun d => (t.rows.filter fun fe => fe.parentId = some d).map FileEntry.id

/-- Level after level, until one is empty.  `none` stands for a query that has not ended within
`fuel` levels. -/
def descendantsLoop (t : FileTable) : ℕ → List Uuid → List Uuid → Option (List Uuid)
  | 0, _, _ => none
  | fuel + 1, working, acc =>
    match working with
    | [] => some acc
    | d :: ds => descendantsLoop t fuel (t.children (d :: ds)) (acc ++ (d :: ds))

/-- The anchor row of the query: `WHERE id = $1 AND user_id = $2`. -/
def anchor (t : FileTable) (user item : Uuid) : List Uuid :=
  (t.rows.filter fun r => r.id = item && r.userId = user).map FileEntry.id

/-- `WITH RECURSIVE descendants AS …`: the ids of an item of the user and of everything below it.
A query that does not end within as many levels as there are rows never ends. -/
def descendants (t : FileTable) (user item : Uuid) : Option (List Uuid) :=
  t.descendantsLoop (t.rows.length + 1) (t.anchor user item) []

theorem mem_children {working : List Uuid} :
    x ∈ t.children working ↔ ∃ d ∈ working, t.parent x = some d := by
  simp only [children, List.mem_flatMap, List.mem_map, List.mem_filter, decide_eq_true_eq,
    parent_eq_some]
  grind

theorem mem_anchor {user item : Uuid} :
    x ∈ t.anchor user item ↔ x = item ∧ ∃ r ∈ t.rows, r.id = item ∧ r.userId = user := by
  simp only [anchor, List.mem_map, List.mem_filter, Bool.and_eq_true, decide_eq_true_eq]
  grind

/-- The working table after `n` levels. -/
def level (t : FileTable) (user item : Uuid) : ℕ → List Uuid
  | 0 => t.anchor user item
  | n + 1 => t.children (t.level user item n)

theorem mem_level {user item : Uuid} {n : ℕ} : x ∈ t.level user item n ↔
    up t.parent n x = some item ∧ ∃ r ∈ t.rows, r.id = item ∧ r.userId = user := by
  induction n generalizing x with
  | zero => rw [level, mem_anchor, up_zero, Option.some.injEq]
  | succ n ih =>
    rw [level, mem_children, up_succ]
    simp only [ih, Option.bind_eq_some_iff]
    constructor
    · rintro ⟨d, ⟨hd, hr⟩, hp⟩
      exact ⟨⟨d, hp, hd⟩, hr⟩
    · rintro ⟨⟨d, hp, hd⟩, hr⟩
      exact ⟨d, ⟨hd, hr⟩, hp⟩

/-- The loop, started at a level, stops at the first empty one and has then seen all before it. -/
theorem descendantsLoop_spec {user item : Uuid} {fuel n : ℕ} {acc ds : List Uuid}
    (h : t.descendantsLoop fuel (t.level user item n) acc = some ds) :
    ∃ m, n ≤ m ∧ t.level user item m = []
      ∧ ∀ x, x ∈ ds ↔ x ∈ acc ∨ ∃ k, n ≤ k ∧ k < m ∧ x ∈ t.level user item k := by
  induction fuel generalizing n acc with
  | zero => cases h
  | succ fuel ih =>
    unfold descendantsLoop at h
    split at h
    case h_1 hlevel =>
      cases h
      exact ⟨n, le_rfl, hlevel, fun x => by simp; omega⟩
    case h_2 d ds' hlevel =>
      rw [← hlevel] at h
      obtain ⟨m, hm, hempty, hmem⟩ := ih (n := n + 1) h
      refine ⟨m, by omega, hempty, fun x => ?_⟩
      rw [hmem, List.mem_append]
      constructor
      · rintro ((hx | hx) | ⟨k, h1, h2, hx⟩)
        · exact Or.inl hx
        · exact Or.inr ⟨n, le_rfl, by omega, hx⟩
        · exact Or.inr ⟨k, by omega, h2, hx⟩
      · rintro (hx | ⟨k, h1, h2, hx⟩)
        · exact Or.inl (Or.inl hx)
        · rcases h1.lt_or_eq with h1 | rfl
          · exact Or.inr ⟨k, h1, h2, hx⟩
          · exact Or.inl (Or.inr hx)

/-- Below an empty level all are empty. -/
theorem level_nil_of_le {user item : Uuid} {m n : ℕ} (hmn : m ≤ n)
    (h : t.level user item m = []) : t.level user item n = [] := by
  induction n, hmn using Nat.le_induction with
  | base => exact h
  | succ n _ ih => rw [level, ih]; rfl

/-- **The query returns the item and what is below it.** -/
theorem mem_descendants {user item : Uuid} {ds : List Uuid}
    (h : t.descendants user item = some ds) :
    x ∈ ds ↔ Anc t.parent item x ∧ ∃ r ∈ t.rows, r.id = item ∧ r.userId = user := by
  obtain ⟨m, -, hempty, hmem⟩ := descendantsLoop_spec (n := 0) h
  rw [hmem]
  constructor
  · rintro (hx | ⟨k, -, -, hx⟩)
    · cases hx
    · exact ⟨⟨k, (mem_level.mp hx).1⟩, (mem_level.mp hx).2⟩
  · rintro ⟨⟨k, hk⟩, hr⟩
    refine Or.inr ⟨k, Nat.zero_le _, ?_, mem_level.mpr ⟨hk, hr⟩⟩
    by_contra hge
    have hx : x ∈ t.level user item k := mem_level.mpr ⟨hk, hr⟩
    rw [level_nil_of_le (Nat.le_of_not_lt hge) hempty] at hx
    cases hx

/-- Enough fuel to reach an empty level. -/
theorem descendantsLoop_isSome {user item : Uuid} {fuel n : ℕ} {acc : List Uuid}
    (h : t.level user item (n + fuel) = []) :
    (t.descendantsLoop (fuel + 1) (t.level user item n) acc).isSome := by
  induction fuel generalizing n acc with
  | zero =>
    rw [Nat.add_zero] at h
    rw [h]
    rfl
  | succ fuel ih =>
    unfold descendantsLoop
    split
    · rfl
    case h_2 d ds hlevel =>
      rw [← hlevel]
      exact ih (n := n + 1) (by rw [← h]; congr 1; omega)

theorem mem_ids_of_mem_level {user item : Uuid} {n : ℕ} (h : x ∈ t.level user item n) :
    x ∈ t.rows.map FileEntry.id := by
  obtain ⟨hx, r, hr, hid, -⟩ := mem_level.mp h
  cases n with
  | zero =>
    rw [up_zero, Option.some.injEq] at hx
    exact List.mem_map.mpr ⟨r, hr, hid.trans hx.symm⟩
  | succ n =>
    obtain ⟨y, hy, -⟩ := Option.bind_eq_some_iff.mp hx
    obtain ⟨r', hr', hid', -⟩ := parent_eq_some.mp hy
    exact List.mem_map.mpr ⟨r', hr', hid'⟩

/-- **On a forest the query ends.** -/
theorem descendants_isSome (hac : Acyclic t.parent) (user item : Uuid) :
    (t.descendants user item).isSome := by
  refine descendantsLoop_isSome (n := 0) (List.eq_nil_iff_forall_not_mem.mpr fun x hx => ?_)
  rw [Nat.zero_add] at hx
  have hnone := hac.up_length t.parentClosed (mem_ids_of_mem_level hx)
  rw [List.length_map] at hnone
  rw [mem_level, hnone] at hx
  exact absurd hx.1 (by simp)

/-- **A query that has not ended within as many levels as there are rows never ends.** -/
theorem descendantsLoop_eq_none {user item : Uuid} (h : t.descendants user item = none) (fuel : ℕ)
    (acc : List Uuid) : t.descendantsLoop fuel (t.anchor user item) acc = none := by
  have hne : t.level user item t.rows.length ≠ [] := fun hnil => by
    have hsome : (t.descendants user item).isSome :=
      descendantsLoop_isSome (n := 0) (by rw [Nat.zero_add]; exact hnil)
    rw [h] at hsome
    cases hsome
  obtain ⟨x, hx⟩ := List.exists_mem_of_ne_nil _ hne
  obtain ⟨hup, hr⟩ := mem_level.mp hx
  by_contra hsome
  obtain ⟨ds, hds⟩ := Option.ne_none_iff_exists'.mp hsome
  obtain ⟨m, -, hempty, -⟩ := descendantsLoop_spec (n := 0) hds
  obtain ⟨y, -, hy⟩ := t.parentClosed.exists_up (mem_ids_of_mem_level hx)
    (by rw [List.length_map]) hup m
  have : y ∈ t.level user item m := mem_level.mpr ⟨hy, hr⟩
  rw [hempty] at this
  cases this

end FileTable

end Pcos
