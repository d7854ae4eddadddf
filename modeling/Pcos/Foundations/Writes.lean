import Mathlib.Data.List.Basic

/-!
# Foundations/Writes — a file written piece by piece

`writeAt` lays bytes over those of a file from a position on, and fills a gap before it.  Where pieces
of one content are written, the file shows it wherever they were (`Shows.write`); so **once every
position is written, a file that is no longer is the content** (`Shows.eq_content`), in whatever order
and however often the pieces came.
-/

namespace Foundations

variable {α : Type}

/-- What a file is after `data` was written from `offset` on. -/
def writeAt (zero : α) (file : List α) (offset : ℕ) (data : List α) : List α :=
  if data = [] then file
  else file.take offset ++ List.replicate (offset - file.length) zero ++ data
    ++ file.drop (offset + data.length)

/-- The position was written. -/
def Written (h : List (ℕ × List α)) (p : ℕ) : Prop := ∃ x ∈ h, x.1 ≤ p ∧ p < x.1 + x.2.length

/-- These bytes are those of the content from the offset on. -/
def Piece (content : List α) (x : ℕ × List α) : Prop :=
  ∀ i < x.2.length, content[x.1 + i]? = x.2[i]?

/-- The file agrees with the content wherever it was written. -/
def Shows (content : List α) (h : List (ℕ × List α)) (file : List α) : Prop :=
  ∀ p, Written h p → file[p]? = content[p]?

variable {zero : α} {file data content : List α} {offset p : ℕ} {h : List (ℕ × List α)}

theorem writeAt_nil : writeAt zero file offset [] = file := if_pos rfl

theorem length_writeAt (hdata : data ≠ []) :
    (writeAt zero file offset data).length = max file.length (offset + data.length) := by
  rw [writeAt, if_neg hdata]
  simp only [List.length_append, List.length_take, List.length_replicate, List.length_drop]
  omega

theorem getElem?_writeAt_of_lt (hp : p < offset) (hfile : p < file.length) :
    (writeAt zero file offset data)[p]? = file[p]? := by
  unfold writeAt
  split
  · rfl
  · rw [List.append_assoc, List.append_assoc, List.getElem?_append_left, List.getElem?_take_of_lt hp]
    rw [List.length_take]
    omega

theorem getElem?_writeAt_of_mem (hp : offset ≤ p) (hlt : p < offset + data.length) :
    (writeAt zero file offset data)[p]? = data[p - offset]? := by
  have hdata : data ≠ [] := by
    rintro rfl
    rw [List.length_nil] at hlt
    omega
  have hgap : (file.take offset ++ List.replicate (offset - file.length) zero).length = offset := by
    simp only [List.length_append, List.length_take, List.length_replicate]
    omega
  rw [writeAt, if_neg hdata, List.append_assoc, List.getElem?_append_right (hgap.symm ▸ hp), hgap,
    List.getElem?_append_left (by omega)]

theorem getElem?_writeAt_of_ge (hdata : data ≠ []) (hp : offset + data.length ≤ p) :
    (writeAt zero file offset data)[p]? = file[p]? := by
  have hgap : (file.take offset ++ List.replicate (offset - file.length) zero ++ data).length
      = offset + data.length := by
    simp only [List.length_append, List.length_take, List.length_replicate]
    omega
  rw [writeAt, if_neg hdata, List.getElem?_append_right (hgap.symm ▸ hp), hgap, List.getElem?_drop]
  congr 1
  omega

theorem Piece.end_le {x : ℕ × List α} (hx : Piece content x) (hdata : x.2 ≠ []) :
    x.1 + x.2.length ≤ content.length := by
  have hpos : 0 < x.2.length := List.length_pos_iff.mpr hdata
  have hlast := hx (x.2.length - 1) (by omega)
  rw [List.getElem?_eq_getElem (l := x.2) (by omega)] at hlast
  have hbound := (List.getElem?_eq_some_iff.mp hlast).1
  omega

theorem Piece.take {x : ℕ × List α} (hx : Piece content x) (n : ℕ) :
    Piece content (x.1, x.2.take n) := by
  intro i hi
  dsimp only at hi ⊢
  rw [List.length_take] at hi
  rw [hx i (by omega), List.getElem?_take_of_lt (by omega)]

theorem written_cons {x : ℕ × List α} : Written (x :: h) p ↔
    (x.1 ≤ p ∧ p < x.1 + x.2.length) ∨ Written h p := by
  simp only [Written, List.mem_cons, exists_eq_or_imp]

theorem shows_nil : Shows content [] file := fun _ ⟨_, hx, _⟩ => absurd hx List.not_mem_nil

/-- A piece of the content makes a file longer at most by what is missing of it. -/
theorem Piece.length_writeAt_le {x : ℕ × List α} (hx : Piece content x)
    (hfile : file.length ≤ content.length) :
    (writeAt zero file x.1 x.2).length ≤ content.length := by
  rcases eq_or_ne x.2 [] with hnil | hdata
  · rwa [hnil, writeAt_nil]
  · rw [length_writeAt hdata]
    exact Nat.max_le.mpr ⟨hfile, hx.end_le hdata⟩

/-- **Writing a piece of the content shows it there, and leaves the rest.** -/
theorem Shows.write {x : ℕ × List α} (hs : Shows content h file) (hx : Piece content x) :
    Shows content (x :: h) (writeAt zero file x.1 x.2) := by
  obtain ⟨offset, data⟩ := x
  intro p hp
  rcases eq_or_ne data [] with rfl | hdata
  · rw [writeAt_nil]
    rcases written_cons.mp hp with ⟨hle, hlt⟩ | hp
    · rw [List.length_nil] at hlt
      omega
    · exact hs p hp
  have hend : offset + data.length ≤ content.length := hx.end_le hdata
  by_cases hin : offset ≤ p ∧ p < offset + data.length
  · have hpiece : content[offset + (p - offset)]? = data[p - offset]? := hx (p - offset) (by
      dsimp only
      omega)
    rw [getElem?_writeAt_of_mem hin.1 hin.2, ← hpiece, Nat.add_sub_cancel' hin.1]
  have hagrees := hs p ((written_cons.mp hp).resolve_left hin)
  rcases Nat.lt_or_ge p offset with hlt | hge
  · -- a position before the piece is one of the content, so the file has it
    have hsome : p < file.length := by
      by_contra hnone
      rw [List.getElem?_eq_none (by omega)] at hagrees
      have := List.getElem?_eq_none_iff.mp hagrees.symm
      omega
    rw [getElem?_writeAt_of_lt hlt hsome, hagrees]
  · rw [getElem?_writeAt_of_ge hdata (by omega), hagrees]

/-- **A file that is written everywhere, and no longer, is the content.** -/
theorem Shows.eq_content (hs : Shows content h file) (hfile : file.length ≤ content.length)
    (hall : ∀ p < content.length, Written h p) : file = content := by
  refine List.ext_getElem? fun p => ?_
  rcases Nat.lt_or_ge p content.length with hlt | hge
  · exact hs p (hall p hlt)
  · rw [List.getElem?_eq_none (by omega), List.getElem?_eq_none hge]

/-- A piece written over the content leaves it. -/
theorem Piece.writeAt_content {x : ℕ × List α} (hx : Piece content x) :
    writeAt zero content x.1 x.2 = content := by
  have hshows : Shows content [(0, content)] content := fun _ _ => rfl
  refine (hshows.write hx).eq_content (hx.length_writeAt_le (Nat.le_refl _)) fun p hp => ?_
  exact written_cons.mpr (Or.inr ⟨_, List.mem_cons_self, Nat.zero_le p, by dsimp only; omega⟩)

/-- The second half first, over a file that is too long by nothing. -/
example : writeAt 0 (writeAt 0 [9] 2 [3, 4]) 0 [1, 2] = [1, 2, 3, 4] := by decide

end Foundations
