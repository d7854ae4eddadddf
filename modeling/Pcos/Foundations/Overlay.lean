import Mathlib.Data.Int.Notation
import Mathlib.Data.List.Basic

/-!
# Foundations/Overlay — pieces laid over one another, and pieces laid end to end

Pieces of a text arrive with the position they belong to, again and again and over one another.
`overlay` reads what was laid down last at a position; `gather` keeps the newest piece of each key
and puts these end to end.  The two agree whatever the pieces contain exactly when the kept pieces
join up (`gathersRight_iff`), which is a matter of their positions and lengths alone.

Lists of pieces are newest first.
-/

namespace Foundations

variable {α ι : Type}

/-! ## The newest of a kind -/

/-- The first that satisfies `q`, and those before it. -/
def newest (q : α → Bool) : List α → Option (List α × α)
  | [] => none
  | x :: xs => if q x then some ([], x) else (newest q xs).map fun r => (x :: r.1, r.2)

section Newest

variable {q : α → Bool} {xs newer : List α} {x : α}

theorem newest_eq_some : newest q xs = some (newer, x)
    ↔ q x = true ∧ (∀ y ∈ newer, q y = false) ∧ ∃ older, xs = newer ++ x :: older := by
  induction xs generalizing newer with
  | nil => simp [newest]
  | cons y ys ih =>
    rw [newest]
    by_cases hy : q y
    · rw [if_pos hy]
      constructor
      · intro h
        obtain ⟨rfl, rfl⟩ := Prod.mk.inj (Option.some.inj h)
        exact ⟨hy, nofun, ys, rfl⟩
      · rintro ⟨hx, hnew, older, heq⟩
        cases newer with
        | nil =>
          obtain ⟨rfl, -⟩ := List.cons.inj heq
          rfl
        | cons z newer =>
          obtain ⟨rfl, -⟩ := List.cons.inj heq
          rw [hnew y List.mem_cons_self] at hy
          cases hy
    · rw [if_neg hy, Option.map_eq_some_iff]
      constructor
      · rintro ⟨⟨newer, x⟩, h, heq⟩
        obtain ⟨rfl, rfl⟩ := Prod.mk.inj heq
        obtain ⟨hx, hnew, older, rfl⟩ := ih.mp h
        refine ⟨hx, fun z hz => ?_, older, rfl⟩
        rcases List.mem_cons.mp hz with rfl | hz
        · exact Bool.not_eq_true _ ▸ hy
        · exact hnew z hz
      · rintro ⟨hx, hnew, older, heq⟩
        cases newer with
        | nil =>
          obtain ⟨rfl, -⟩ := List.cons.inj heq
          exact absurd hx hy
        | cons z newer =>
          obtain ⟨rfl, htail⟩ := List.cons.inj heq
          exact ⟨(newer, x), ih.mpr ⟨hx, fun z hz => hnew z (List.mem_cons_of_mem _ hz), older, htail⟩,
            rfl⟩

theorem newest_map {β : Type} (f : β → α) (xs : List β) :
    newest q (xs.map f) = (newest (fun x => q (f x)) xs).map fun r => (r.1.map f, f r.2) := by
  induction xs with
  | nil => rfl
  | cons y ys ih =>
    rw [List.map_cons, newest, newest]
    split
    · rfl
    · rw [ih, Option.map_map, Option.map_map]
      rfl

theorem find?_eq_newest : xs.find? q = (newest q xs).map Prod.snd := by
  induction xs with
  | nil => rfl
  | cons y ys ih =>
    by_cases hy : q y
    · rw [newest, if_pos hy, List.find?_cons_of_pos hy]
      rfl
    · rw [newest, if_neg hy, List.find?_cons_of_neg hy, ih, Option.map_map]
      rfl

end Newest

/-! ## Pieces -/

/-- Position and length of a piece. -/
def shape (x : ℤ × List α) : ℤ × ℕ := (x.1, x.2.length)

/-- The piece lies over the position. -/
def covers (p : ℤ) (x : ℤ × ℕ) : Bool := x.1 ≤ p && p < x.1 + x.2

theorem covers_iff {p : ℤ} {x : ℤ × ℕ} : covers p x = true ↔ x.1 ≤ p ∧ p < x.1 + x.2 := by
  rw [covers, Bool.and_eq_true, decide_eq_true_eq, decide_eq_true_eq]

/-- Two pieces share a position. -/
def Overlap (x y : ℤ × ℕ) : Prop := ∃ p, covers p x = true ∧ covers p y = true

/-- What was last laid over a position. -/
def overlay (h : List (ℤ × List α)) (p : ℤ) : Option α :=
  (h.find? fun x => covers p (shape x)).bind fun x => x.2[(p - x.1).toNat]?

variable [DecidableEq ι] (key : ℤ → ι)

/-- The newest pieces of these keys, end to end. -/
def gather (h : List (ℤ × List α)) : List ι → Option (List α)
  | [] => some []
  | i :: is =>
    (h.find? fun x => key x.1 = i).bind fun x => (gather h is).map fun rest => x.2 ++ rest

/-- A key has no piece. -/
def Gap (s : List (ℤ × ℕ)) (is : List ι) : Prop :=
  ∃ i ∈ is, s.find? (fun x => key x.1 = i) = none

/-- **The kept pieces join up**, from `start` to `size`: each begins where the one before it ends, and
none is overlapped by a newer one. -/
def JoinUp (s : List (ℤ × ℕ)) (size : ℤ) : List ι → ℤ → Prop
  | [], start => start = size
  | i :: is, start =>
    match newest (fun x => key x.1 = i) s with
    | none => False
    | some (newer, x) =>
      (x.2 = 0 ∨ x.1 = start ∧ ∀ y ∈ newer, ¬ Overlap y x) ∧ JoinUp s size is (start + x.2)

/-- What is gathered, laid from `start` on, ends at `size`, and is everywhere what was laid there
last. -/
def GathersRight (h : List (ℤ × List α)) (size : ℤ) (is : List ι) (start : ℤ) : Prop :=
  ∀ data, gather key h is = some data → start + data.length = size ∧
    ∀ q < data.length, overlay h (start + q) = data[q]?

/-! ## What the shape decides -/

variable {key} {h : List (ℤ × List α)} {s newer older : List (ℤ × ℕ)} {x : ℤ × ℕ} {i : ι}
  {is : List ι} {size start p : ℤ} {a b : α}

theorem gather_eq_none : gather key h is = none ↔ Gap key (h.map shape) is := by
  induction is with
  | nil => simp [gather, Gap]
  | cons i is ih =>
    have hfind : (h.map shape).find? (fun x => key x.1 = i) = none
        ↔ h.find? (fun x => key x.1 = i) = none := by
      rw [List.find?_map, Option.map_eq_none_iff]
      rfl
    rw [Gap] at *
    simp only [gather, Option.bind_eq_none_iff, Option.map_eq_none_iff, List.mem_cons,
      exists_eq_or_imp, hfind, ← ih]
    cases h.find? fun x => key x.1 = i <;> simp

/-- What does not lie over a position does not hide what is below it. -/
theorem overlay_append_of_forall {newer older : List (ℤ × List α)}
    (hnew : ∀ y ∈ newer, covers p (shape y) = false) :
    overlay (newer ++ older) p = overlay older p := by
  rw [overlay, List.find?_append, List.find?_eq_none.mpr fun y hy => by rw [hnew y hy]; decide]
  rfl

theorem overlay_append_of_exists {newer older : List (ℤ × List α)} {y : ℤ × List α}
    (hy : y ∈ newer) (hcov : covers p (shape y) = true) :
    overlay (newer ++ older) p = overlay newer p := by
  obtain ⟨z, hz⟩ := Option.isSome_iff_exists.mp
    (List.find?_isSome (p := fun x => covers p (shape x)).mpr ⟨y, hy, hcov⟩)
  rw [overlay, overlay, List.find?_append, hz]
  rfl

theorem overlay_cons_of_covers {y : ℤ × List α} (hcov : covers p (shape y) = true) :
    overlay (y :: h) p = y.2[(p - y.1).toNat]? := by
  rw [overlay, List.find?_cons_of_pos (p := fun x => covers p (shape x)) hcov]
  rfl

/-- A piece of nothing but `a`. -/
def blank (a : α) (x : ℤ × ℕ) : ℤ × List α := (x.1, List.replicate x.2 a)

theorem shape_blank (a : α) (x : ℤ × ℕ) : shape (blank a x) = x :=
  Prod.ext rfl List.length_replicate

theorem map_shape_blank (a : α) (s : List (ℤ × ℕ)) : (s.map (blank a)).map shape = s := by
  rw [List.map_map]
  exact (List.map_congr_left fun x _ => shape_blank a x).trans (List.map_id s)

/-- No `b` is read from blank pieces. -/
theorem overlay_blank_ne (hab : a ≠ b) : overlay (s.map (blank a)) p ≠ some b := by
  intro h
  obtain ⟨x, hx, hb⟩ := Option.bind_eq_some_iff.mp h
  obtain ⟨y, -, rfl⟩ := List.mem_map.mp (List.mem_of_find?_eq_some hx)
  have hmem := List.mem_of_getElem? hb
  exact hab (List.eq_of_mem_replicate hmem).symm

/-- Where `b` is read, and only the piece `(x.1, data)` has one, nothing newer lies over it. -/
theorem covers_of_overlay (hab : a ≠ b) {data : List α}
    (h : overlay (newer.map (blank a) ++ (x.1, data) :: older.map (blank a)) p = some b) :
    (∀ y ∈ newer, covers p y = false) ∧ covers p (x.1, data.length) = true
      ∧ data[(p - x.1).toNat]? = some b := by
  have hnew : ∀ y ∈ newer, covers p y = false := by
    intro y hy
    by_contra hcov
    rw [Bool.not_eq_false, ← shape_blank a y] at hcov
    rw [overlay_append_of_exists (List.mem_map_of_mem hy) hcov] at h
    exact overlay_blank_ne hab h
  rw [overlay_append_of_forall fun y hy => by
    obtain ⟨z, hz, rfl⟩ := List.mem_map.mp hy
    rw [shape_blank]
    exact hnew z hz] at h
  by_cases hcov : covers p (x.1, data.length) = true
  · rw [overlay_cons_of_covers (y := (x.1, data)) hcov] at h
    exact ⟨hnew, hcov, h⟩
  · rw [← List.singleton_append, overlay_append_of_forall fun y hy => by
      obtain rfl := List.mem_singleton.mp hy
      exact Bool.not_eq_true _ ▸ hcov] at h
    exact absurd h (overlay_blank_ne hab)

/-- Blank pieces, but for a `b` at one place of the piece `x`. -/
def marked (a b : α) (newer : List (ℤ × ℕ)) (x : ℤ × ℕ) (older : List (ℤ × ℕ)) (q : ℕ) :
    List (ℤ × List α) :=
  newer.map (blank a) ++ (x.1, (List.replicate x.2 a).set q b) :: older.map (blank a)

theorem map_shape_marked (q : ℕ) :
    (marked a b newer x older q).map shape = newer ++ x :: older := by
  rw [marked, List.map_append, List.map_cons, map_shape_blank, map_shape_blank, shape,
    List.length_set, List.length_replicate]

theorem find?_marked (q : ℕ) (hkey : key x.1 = i) (hnew : ∀ y ∈ newer, key y.1 ≠ i) :
    (marked a b newer x older q).find? (fun y => key y.1 = i)
      = some (x.1, (List.replicate x.2 a).set q b) := by
  have hnewest : newest (fun y : ℤ × List α => decide (key y.1 = i)) (marked a b newer x older q)
      = some (newer.map (blank a), (x.1, (List.replicate x.2 a).set q b)) := by
    refine newest_eq_some.mpr ⟨decide_eq_true hkey, fun y hy => ?_, _, rfl⟩
    obtain ⟨z, hz, rfl⟩ := List.mem_map.mp hy
    exact decide_eq_false (hnew z hz)
  rw [find?_eq_newest, hnewest]
  rfl

/-! ## One piece -/

/-- What is kept for a key, laid from `start` on, is everywhere what was laid there last. -/
def KeepsRight (key : ℤ → ι) (h : List (ℤ × List α)) (i : ι) (start : ℤ) : Prop :=
  ∀ y, h.find? (fun x => key x.1 = i) = some y →
    ∀ q < y.2.length, overlay h (start + q) = y.2[q]?

/-- The piece behind the newest shape. -/
theorem exists_of_newest (hx : newest (fun x => key x.1 = i) (h.map shape) = some (newer, x)) :
    ∃ y, h.find? (fun x => key x.1 = i) = some y ∧ y.2.length = x.2 := by
  rw [newest_map, Option.map_eq_some_iff] at hx
  obtain ⟨⟨newer', y⟩, hx, heq⟩ := hx
  obtain ⟨-, rfl⟩ := Prod.mk.inj heq
  have hx' : newest (fun x : ℤ × List α => decide (key x.1 = i)) h = some (newer', y) := hx
  exact ⟨y, by rw [find?_eq_newest, hx']; rfl, rfl⟩

/-- A kept piece that begins at `start` and has nothing newer over it is right. -/
theorem keepsRight_of_newest (hx : newest (fun x => key x.1 = i) (h.map shape) = some (newer, x))
    (hjoin : x.2 = 0 ∨ x.1 = start ∧ ∀ y ∈ newer, ¬ Overlap y x) : KeepsRight key h i start := by
  intro y hy q hq
  rw [newest_map, Option.map_eq_some_iff] at hx
  obtain ⟨⟨newer', y'⟩, hx, heq⟩ := hx
  obtain ⟨rfl, rfl⟩ := Prod.mk.inj heq
  have hyy : y' = y := by
    rw [find?_eq_newest] at hy
    have hx' : newest (fun x : ℤ × List α => decide (key x.1 = i)) h = some (newer', y') := hx
    rw [hx'] at hy
    exact Option.some.inj hy
  subst hyy
  obtain ⟨-, -, older, rfl⟩ := newest_eq_some.mp hx
  rcases hjoin with hzero | ⟨rfl, hover⟩
  · exact absurd hq (by rw [shape] at hzero; simp only at hzero; omega)
  have hcov : covers ((shape y').1 + q) (shape y') = true := by
    rw [covers_iff, shape]
    simp only
    omega
  rw [overlay_append_of_forall fun z hz => ?_, overlay_cons_of_covers hcov]
  · have hpos : (shape y').1 + (q : ℤ) - y'.1 = q := by
      simp only [shape]
      omega
    rw [hpos, Int.toNat_natCast]
  · by_contra hz'
    exact hover (shape z) (List.mem_map_of_mem hz) ⟨_, Bool.not_eq_false _ ▸ hz', hcov⟩

/-- **…and one that is right whatever the pieces contain does both.** -/
theorem newest_of_keepsRight (hab : a ≠ b)
    (hx : newest (fun x => key x.1 = i) s = some (newer, x))
    (hright : ∀ h : List (ℤ × List α), h.map shape = s → KeepsRight key h i start) :
    x.2 = 0 ∨ x.1 = start ∧ ∀ y ∈ newer, ¬ Overlap y x := by
  obtain ⟨hkey, hnew, older, rfl⟩ := newest_eq_some.mp hx
  -- `b` marks one position of the piece, and is then read back from there
  have hmark : ∀ q < x.2, (∀ y ∈ newer, covers (start + q) y = false)
      ∧ covers (start + q) x = true ∧ (start + q - x.1).toNat = q := by
    intro q hq
    have hread := hright _ (map_shape_marked (a := a) (b := b) q) _
      (find?_marked q (of_decide_eq_true hkey) fun y hy => of_decide_eq_false (hnew y hy)) q
      (by simpa using hq)
    rw [List.getElem?_set_self (by simpa using hq)] at hread
    obtain ⟨h1, h2, h3⟩ := covers_of_overlay hab hread
    rw [List.length_set, List.length_replicate] at h2
    refine ⟨h1, h2, ?_⟩
    by_contra hne
    rw [List.getElem?_set_ne (Ne.symm hne)] at h3
    exact hab (List.eq_of_mem_replicate (List.mem_of_getElem? h3)).symm
  rcases Nat.eq_zero_or_pos x.2 with hzero | hpos
  · exact Or.inl hzero
  · obtain ⟨-, hcov, hstart⟩ := hmark 0 hpos
    have hle := (covers_iff.mp hcov).1
    have hx1 : x.1 = start := by omega
    refine Or.inr ⟨hx1, fun y hy hover => ?_⟩
    obtain ⟨p, hpy, hpx⟩ := hover
    rw [covers_iff] at hpx
    have hq := (hmark (p - start).toNat (by omega)).1 y hy
    rw [show start + ((p - start).toNat : ℤ) = p by omega, hpy] at hq
    cases hq

/-! ## All of them -/

theorem gathersRight_cons {y : ℤ × List α} (hy : h.find? (fun x => key x.1 = i) = some y)
    (hgap : ¬ Gap key (h.map shape) is) :
    GathersRight key h size (i :: is) start
      ↔ KeepsRight key h i start ∧ GathersRight key h size is (start + y.2.length) := by
  rw [← gather_eq_none] at hgap
  obtain ⟨rest, hrest⟩ := Option.ne_none_iff_exists'.mp hgap
  have hgather : gather key h (i :: is) = some (y.2 ++ rest) := by
    rw [gather, hy, hrest]
    rfl
  have hpos : ∀ q : ℕ, start + y.2.length + q = start + ((y.2.length + q : ℕ) : ℤ) := fun q => by omega
  rw [GathersRight, GathersRight, hgather, hrest]
  simp only [Option.some.injEq, forall_eq', List.length_append]
  constructor
  · rintro ⟨hlen, hread⟩
    refine ⟨fun z hz q hq => ?_, by omega, fun q hq => ?_⟩
    · obtain rfl := Option.some.inj (hy.symm.trans hz)
      rw [hread q (by omega), List.getElem?_append_left hq]
    · rw [hpos, hread _ (by omega), List.getElem?_append_right (by omega), Nat.add_sub_cancel_left]
  · rintro ⟨hkeep, hlen, hread⟩
    refine ⟨by omega, fun q hq => ?_⟩
    rcases Nat.lt_or_ge q y.2.length with hlt | hge
    · rw [hkeep y hy q hlt, List.getElem?_append_left hlt]
    · have hq' := hread (q - y.2.length) (by omega)
      rw [hpos, Nat.add_sub_cancel' hge] at hq'
      rw [hq', List.getElem?_append_right hge]

/-- **What is gathered is right whatever the pieces contain exactly when a piece is missing or the
kept ones join up.** -/
theorem gathersRight_iff (hab : a ≠ b) :
    (∀ h : List (ℤ × List α), h.map shape = s → GathersRight key h size is start)
      ↔ Gap key s is ∨ JoinUp key s size is start := by
  by_cases hgap : Gap key s is
  · refine ⟨fun _ => Or.inl hgap, fun _ h hs data hdata => ?_⟩
    rw [gather_eq_none.mpr (hs ▸ hgap)] at hdata
    cases hdata
  rw [or_iff_right hgap]
  induction is generalizing start with
  | nil =>
    constructor
    · intro h
      have hlen := (h _ (map_shape_blank a s) [] rfl).1
      simpa [JoinUp] using hlen
    · rintro hstart h - data hdata
      obtain rfl := Option.some.inj hdata
      exact ⟨by simpa [JoinUp] using hstart, nofun⟩
  | cons i is ih =>
    have hrest : ¬ Gap key s is := fun ⟨j, hj, hnone⟩ => hgap ⟨j, List.mem_cons_of_mem _ hj, hnone⟩
    have hnewest : newest (fun x : ℤ × ℕ => decide (key x.1 = i)) s ≠ none := by
      intro hnone
      refine hgap ⟨i, List.mem_cons_self, ?_⟩
      rw [find?_eq_newest, hnone]
      rfl
    obtain ⟨⟨newer, x⟩, hx⟩ := Option.ne_none_iff_exists'.mp hnewest
    have hcons : ∀ h : List (ℤ × List α), h.map shape = s → (GathersRight key h size (i :: is) start
        ↔ KeepsRight key h i start ∧ GathersRight key h size is (start + x.2)) := by
      rintro h rfl
      obtain ⟨y, hy, hlen⟩ := exists_of_newest hx
      rw [gathersRight_cons hy hrest, hlen]
    rw [JoinUp, hx]
    constructor
    · intro hall
      exact ⟨newest_of_keepsRight hab hx fun h hs => ((hcons h hs).mp (hall h hs)).1,
        (ih hrest).mp fun h hs => ((hcons h hs).mp (hall h hs)).2⟩
    · rintro ⟨hjoin, hjoins⟩ h hs
      refine (hcons h hs).mpr ⟨keepsRight_of_newest (hs ▸ hx) hjoin, ?_⟩
      exact (ih hrest).mpr hjoins h hs

end Foundations
