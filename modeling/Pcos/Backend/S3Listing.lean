import Mathlib.Data.String.Basic
import Pcos.Backend.System
import Pcos.Foundations.Like
import Pcos.Foundations.StableSort

/-!
# Backend/S3Listing — the listing of a bucket (`s3_compat.rs`)

    prefix ──format!("{}%")──▸ LIKE ──ORDER BY name──▸ LIMIT max-keys ──▸ elements
                                                       IsTruncated: false

A prefix is a pattern, and a listing never says that it was cut.  So **it has the first entries of
the prefix, and says whether there are more, exactly if there are no more and the pattern brings in
no other entry among them** (`listObjects_iff`).  For a prefix of ordinary characters that is a bound
on the number of entries (`complete_iff_of_ordinary`).
-/

namespace Pcos.Listing

open Foundations

/-! ## The database -/

/-- The order of texts in the database, that of its collation. -/
structure Collation where
  le : String → String → Bool
  total : ∀ a b, le a b = true ∨ le b a = true
  trans : ∀ a b c, le a b = true → le b c = true → le a c = true
  antisymm : ∀ a b, le a b = true → le b a = true → a = b

/-- The order in which a scan comes to rows. -/
structure Scan where
  rows : List FileEntry → List FileEntry
  perm : ∀ l, (rows l).Perm l

/-- `ORDER BY name` -/
def Collation.byName (coll : Collation) (a b : FileEntry) : Prop := coll.le a.name b.name = true

instance (coll : Collation) : DecidableRel coll.byName :=
  fun a b => decEq (coll.le a.name b.name) true

instance (coll : Collation) : IsTrans FileEntry coll.byName := ⟨fun _ _ _ => coll.trans _ _ _⟩

instance (coll : Collation) : Std.Total coll.byName := ⟨fun _ _ => coll.total _ _⟩

/-! ## The handler -/

structure ListQuery where
  keyPrefix : Option String
  maxKeys : Option ℤ
  continuationToken : Option String
  deriving DecidableEq

/-- `CommonPrefixes` for a folder, `Contents` for a file. -/
inductive ListElement
  | commonPrefixes (text : String)
  | contents (key : String) (size : ℤ) (lastModified : ℤ) (etag : String)
  deriving DecidableEq

structure ListBucketResult where
  name : String
  keyPrefix : String
  maxKeys : ℤ
  isTruncated : Bool
  elements : List ListElement
  deriving DecidableEq

def element (r : FileEntry) : ListElement :=
  match r.entryType with
  | .folder => .commonPrefixes (r.name ++ "/")
  | .file => .contents r.name r.sizeBytes r.updatedAt (r.sha256Hash.getD "0000000000000000")

/-- The user's entries that are not in the trash. -/
def liveEntries (w : World) (user : Uuid) : List FileEntry :=
  w.entries.rows.filter fun r => r.userId = user && !r.isTrashed

/-- `name LIKE $2` -/
def matching (w : World) (user : Uuid) (pattern : String) : List FileEntry :=
  (liveEntries w user).filter fun r => like pattern.toList r.name.toList

variable (coll : Collation) (scan : Scan)

/-- `ORDER BY name LIMIT $3` -/
def selected (w : World) (user : Uuid) (pattern : String) (max : ℕ) : List FileEntry :=
  ((scan.rows (matching w user pattern)).insertionSort coll.byName).take max

/-- `GET /s3/pcos-files?list-type=2` -/
def listObjects (w : World) (user : Uuid) (params : ListQuery) : Except AppError ListBucketResult :=
  let keyPrefix := params.keyPrefix.getD ""
  let max := params.maxKeys.getD 1000
  if max < 0 then .error (.internal "error returned from database: LIMIT must not be negative")
  else .ok
    { name := "pcos-files"
      keyPrefix := keyPrefix
      maxKeys := max
      isTruncated := false
      elements := (selected coll scan w user (keyPrefix ++ "%") max.toNat).map element }

/-! ## What a listing is for -/

/-- The entries whose names start with the prefix. -/
def starting (w : World) (user : Uuid) (keyPrefix : String) : List FileEntry :=
  (liveEntries w user).filter fun r => keyPrefix.toList.isPrefixOf r.name.toList

/-- `l` is the first `m` of the entries, in the order of their names. -/
structure FirstOf (m : ℕ) (entries l : List FileEntry) : Prop where
  sorted : l.Pairwise coll.byName
  rest : ∃ rest, (l ++ rest).Perm entries ∧ ∀ a ∈ l, ∀ b ∈ rest, coll.byName a b
  length_eq : l.length = min m entries.length

/-- **The first `m` entries of the prefix, and whether there are more.** -/
def Lists (w : World) (user : Uuid) (keyPrefix : String) (m : ℕ) (result : ListBucketResult) : Prop :=
  (∃ l, FirstOf coll m (starting w user keyPrefix) l ∧ result.elements = l.map element) ∧
    (result.isTruncated = true ↔ m < (starting w user keyPrefix).length)

/-- No more than `m` entries start with the prefix, the pattern matches each of them, and an entry
that only the pattern matches comes after `m` of them. -/
def Complete (w : World) (user : Uuid) (keyPrefix : String) (m : ℕ) : Prop :=
  (starting w user keyPrefix).length ≤ m
    ∧ (∀ r ∈ starting w user keyPrefix, like (keyPrefix ++ "%").toList r.name.toList = true)
    ∧ ∀ e ∈ matching w user (keyPrefix ++ "%"), keyPrefix.toList.isPrefixOf e.name.toList = false →
        m ≤ ((starting w user keyPrefix).filter fun r => !coll.le e.name r.name).length

/-! ## When it is -/

section Proof

variable {coll : Collation} {scan : Scan} {w : World} {user : Uuid} {keyPrefix : String} {m : ℕ}

theorem name_eq_of_element {a b : FileEntry} (h : element a = element b) : a.name = b.name := by
  unfold element at h
  cases ha : a.entryType <;> cases hb : b.entryType <;> rw [ha, hb] at h
  · exact (ListElement.contents.inj h).1
  · cases h
  · cases h
  · exact String.append_left_inj "/" |>.mp (ListElement.commonPrefixes.inj h)

theorem mem_starting {r : FileEntry} : r ∈ starting w user keyPrefix ↔
    r ∈ liveEntries w user ∧ keyPrefix.toList.isPrefixOf r.name.toList = true := List.mem_filter

theorem mem_matching {pattern : String} {r : FileEntry} : r ∈ matching w user pattern ↔
    r ∈ liveEntries w user ∧ like pattern.toList r.name.toList = true := List.mem_filter

/-- The rows of the query, in their order. -/
theorem sorted_perm (coll : Collation) (scan : Scan) (w : World) (user : Uuid) (pattern : String) :
    ((scan.rows (matching w user pattern)).insertionSort coll.byName).Perm
      (matching w user pattern) :=
  (List.perm_insertionSort coll.byName _).trans (scan.perm _)

/-- Where nothing is cut off, the first entries are all of them. -/
theorem FirstOf.perm {entries l : List FileEntry} (h : FirstOf coll m entries l)
    (hm : entries.length ≤ m) : l.Perm entries := by
  obtain ⟨rest, hperm, -⟩ := h.rest
  have hlength := hperm.length_eq
  rw [List.length_append, h.length_eq, Nat.min_eq_right hm] at hlength
  obtain rfl : rest = [] := List.eq_nil_of_length_eq_zero (by omega)
  rwa [List.append_nil] at hperm

/-- Elements that are those of the prefix have the names of the prefix, and the other way round. -/
theorem names_of_map {t l : List FileEntry} (hmap : t.map element = l.map element) :
    ∀ a ∈ t, ∃ b ∈ l, b.name = a.name := by
  intro a ha
  obtain ⟨b, hb, heq⟩ := List.mem_map.mp (hmap ▸ List.mem_map_of_mem ha)
  exact ⟨b, hb, name_eq_of_element heq⟩

theorem complete_of_lists {result : ListBucketResult} (hfalse : result.isTruncated = false)
    (helements : result.elements
      = (selected coll scan w user (keyPrefix ++ "%") m).map element)
    (h : Lists coll w user keyPrefix m result) : Complete coll w user keyPrefix m := by
  obtain ⟨⟨l, hfirst, hl⟩, htruncated⟩ := h
  rw [hfalse] at htruncated
  have hm : (starting w user keyPrefix).length ≤ m :=
    Nat.le_of_not_lt fun hlt => Bool.false_ne_true (htruncated.mpr hlt)
  have hperm := hfirst.perm hm
  have hmap : (selected coll scan w user (keyPrefix ++ "%") m).map element = l.map element :=
    helements.symm.trans hl
  have hsorted := sorted_perm coll scan w user (keyPrefix ++ "%")
  refine ⟨hm, fun r hr => ?_, fun e he hno => ?_⟩
  · -- an entry of the prefix is listed, so the pattern matches its name
    obtain ⟨t, ht, hname⟩ := names_of_map hmap.symm r (hperm.mem_iff.mpr hr)
    have hmem := hsorted.mem_iff.mp (List.mem_of_mem_take ht)
    exact hname ▸ (mem_matching.mp hmem).2
  · -- an entry that only the pattern matches is not among the listed, so it comes after them
    have hstarts : ∀ t ∈ selected coll scan w user (keyPrefix ++ "%") m,
        keyPrefix.toList.isPrefixOf t.name.toList = true := by
      intro t ht
      obtain ⟨r, hr, hname⟩ := names_of_map hmap t ht
      exact hname ▸ (mem_starting.mp (hperm.mem_iff.mp hr)).2
    have hdrop : e ∈ ((scan.rows (matching w user (keyPrefix ++ "%"))).insertionSort
        coll.byName).drop m := by
      have hmem := hsorted.mem_iff.mpr he
      rw [← List.take_append_drop m ((scan.rows _).insertionSort coll.byName)] at hmem
      refine (List.mem_append.mp hmem).resolve_left fun htake => ?_
      exact Bool.false_ne_true (hno.symm.trans (hstarts e htake))
    have hpairwise := List.pairwise_insertionSort coll.byName
      (scan.rows (matching w user (keyPrefix ++ "%")))
    rw [← List.take_append_drop m ((scan.rows _).insertionSort coll.byName)] at hpairwise
    have hlate := (List.pairwise_append.mp hpairwise).2.2
    have hfilter : (starting w user keyPrefix).filter (fun r => !coll.le e.name r.name)
        = starting w user keyPrefix := by
      refine List.filter_eq_self.mpr fun r hr => ?_
      obtain ⟨t, ht, hname⟩ := names_of_map hmap.symm r (hperm.mem_iff.mpr hr)
      rw [Bool.not_eq_true', Bool.eq_false_iff]
      intro hle
      have hsame := coll.antisymm _ _ (hlate t ht e hdrop) (hname.symm ▸ hle)
      exact Bool.false_ne_true (hno.symm.trans (hsame ▸ hstarts t ht))
    have hlength : (selected coll scan w user (keyPrefix ++ "%") m).length = m := by
      have hpos := List.length_pos_of_mem hdrop
      rw [List.length_drop] at hpos
      exact List.length_take_of_le (by omega)
    have hsame := congrArg List.length hmap
    rw [List.length_map, List.length_map, hlength, hperm.length_eq] at hsame
    rw [hfilter]
    exact hsame.le

theorem lists_of_complete (h : Complete coll w user keyPrefix m) :
    Lists coll w user keyPrefix m ⟨"pcos-files", keyPrefix, m, false,
      (selected coll scan w user (keyPrefix ++ "%") m).map element⟩ := by
  obtain ⟨hm, hall, hextra⟩ := h
  have hsorted := sorted_perm coll scan w user (keyPrefix ++ "%")
  have hpairwise := List.pairwise_insertionSort coll.byName
    (scan.rows (matching w user (keyPrefix ++ "%")))
  unfold selected
  generalize (scan.rows (matching w user (keyPrefix ++ "%"))).insertionSort coll.byName = sorted
    at hsorted hpairwise ⊢
  -- the entries of the prefix stand before the others that the pattern matches
  have hbefore : ∀ a ∈ sorted, ∀ b ∈ sorted, keyPrefix.toList.isPrefixOf a.name.toList →
      !keyPrefix.toList.isPrefixOf b.name.toList → ¬ coll.byName b a := by
    intro a ha b hb hpa hpb hle
    have hmany := hextra b (hsorted.mem_iff.mp hb) (by simpa using hpb)
    have hfew := (starting w user keyPrefix).length_filter_le fun r => !coll.le b.name r.name
    have hall' := List.length_filter_eq_length_iff.mp (le_antisymm hfew (hm.trans hmany))
    have ha' := mem_starting.mpr ⟨(mem_matching.mp (hsorted.mem_iff.mp ha)).1, hpa⟩
    simpa [show coll.le b.name a.name = true from hle] using hall' a ha'
  have hcut := eq_filter_append_filter hpairwise hbefore
  have hperm : (sorted.filter fun r => keyPrefix.toList.isPrefixOf r.name.toList).Perm
      (starting w user keyPrefix) := by
    refine (hsorted.filter _).trans (List.Perm.of_eq ?_)
    rw [matching, starting, List.filter_filter]
    refine List.filter_congr fun r hr => ?_
    cases hstart : keyPrefix.toList.isPrefixOf r.name.toList with
    | true => rw [hall r (mem_starting.mpr ⟨hr, hstart⟩)]; rfl
    | false => rfl
  have htake : sorted.take m = sorted.filter fun r => keyPrefix.toList.isPrefixOf r.name.toList := by
    have hlength := hperm.length_eq
    refine (congrArg (List.take m) hcut).trans ?_
    cases hrest : sorted.filter fun r => !keyPrefix.toList.isPrefixOf r.name.toList with
    | nil =>
      rw [List.append_nil]
      exact List.take_of_length_le (hlength.trans_le hm)
    | cons e rest =>
      -- another entry comes after `m` of the prefix, so these are all that is taken
      obtain ⟨he, hno⟩ := List.mem_filter.mp (hrest ▸ List.mem_cons_self : e ∈ _)
      have hmany := hextra e (hsorted.mem_iff.mp he) (by simpa using hno)
      have hfew := (starting w user keyPrefix).length_filter_le fun r => !coll.le e.name r.name
      exact List.take_left' (hlength.trans (le_antisymm hm (hmany.trans hfew)))
  rw [htake]
  refine ⟨⟨_, ⟨hpairwise.sublist List.filter_sublist, ⟨[], ?_, by simp⟩, ?_⟩, rfl⟩,
    iff_of_false Bool.false_ne_true (Nat.not_lt.mpr hm)⟩
  · rwa [List.append_nil]
  · rw [hperm.length_eq, Nat.min_eq_right hm]

end Proof

/-- For a prefix of ordinary characters, a listing is complete if it is not cut. -/
theorem complete_iff_of_ordinary (coll : Collation) (w : World) (user : Uuid) {keyPrefix : String}
    (h : Ordinary keyPrefix.toList) (m : ℕ) :
    Complete coll w user keyPrefix m ↔ (starting w user keyPrefix).length ≤ m := by
  have hlike (s : List Char) : like (keyPrefix ++ "%").toList s = keyPrefix.toList.isPrefixOf s := by
    rw [String.toList_append]
    exact like_concat_percent h s
  refine ⟨And.left, fun hm => ⟨hm, fun r hr => ?_, fun e he hno => ?_⟩⟩
  · rw [hlike]
    exact (mem_starting.mp hr).2
  · have hyes := (mem_matching.mp he).2
    rw [hlike, hno] at hyes
    cases hyes

namespace Sample

open Pcos.Sample

/-- The collation `C`. -/
def bytewise : Collation where
  le a b := decide (a ≤ b)
  total a b := (le_total a b).imp (decide_eq_true ·) (decide_eq_true ·)
  trans _ _ _ hab hbc := decide_eq_true (le_trans (of_decide_eq_true hab) (of_decide_eq_true hbc))
  antisymm _ _ hab hba := le_antisymm (of_decide_eq_true hab) (of_decide_eq_true hba)

def inOrder : Scan := ⟨id, fun _ => .refl _⟩

def textFile (id : Uuid) (name : String) : FileEntry :=
  ⟨id, alice, none, name, .file, none, 1, none, none, false, none, 0, 0⟩

/-- `a_b.txt` and `axb.txt`. -/
def twoTexts : World :=
  { World.empty migratedColumns users with
    entries := ⟨[textFile id1 "a_b.txt", textFile id2 "axb.txt"], by decide⟩ }

end Sample

open Pcos.Sample Sample

end Pcos.Listing
