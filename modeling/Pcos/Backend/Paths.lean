import Mathlib.Data.List.Basic

/-!
# Backend/Paths — where the storage engine puts files (`storage.rs`)

A UUID is printed as 36 characters, and every path the backend writes to is built from the printed
form of a user and of a file.  The paths are plain strings in the `storage_path` column; that they
name different files is a fact about their text: `filePath` and `flatPath` are injective, no two of
the shapes of path coincide (their lengths differ), and each starts with its user's directory.
-/

namespace Pcos

/-- A lower-case hexadecimal digit or a hyphen. -/
def isUuidChar (c : Char) : Bool := c.isDigit || ('a' ≤ c && c ≤ 'f') || c == '-'

theorem isUuidChar_iff {c : Char} : isUuidChar c = true ↔
    48 ≤ c.toNat ∧ c.toNat ≤ 57 ∨ 97 ≤ c.toNat ∧ c.toNat ≤ 102 ∨ c = '-' := by
  simp only [isUuidChar, Bool.or_eq_true, Bool.and_eq_true, decide_eq_true_eq, beq_iff_eq, or_assoc]
  exact or_congr Char.isDigit_iff_toNat Iff.rfl

/-- A UUID, as `to_string` prints it. -/
structure Uuid where
  text : String
  canonical : (text.length == 36 && text.toList.all isUuidChar) = true
  deriving DecidableEq

namespace Uuid

variable {a b : Uuid}

@[simp] theorem length_text (a : Uuid) : a.text.length = 36 := by
  have h := a.canonical
  rw [Bool.and_eq_true, beq_iff_eq] at h
  exact h.1

theorem text_injective (h : a.text = b.text) : a = b := by
  cases a
  cases b
  cases h
  rfl

end Uuid

/-- `<user>/<first 2 chars of the file id>/<file id>`, relative to the base path. -/
def filePath (user file : Uuid) : String :=
  user.text ++ ("/" ++ (String.ofList (file.text.toList.take 2) ++ ("/" ++ file.text)))

/-- The path `finalize_transfer` makes up when there are no chunks. -/
def flatPath (user file : Uuid) : String := user.text ++ ("/" ++ file.text)

/-- The temporary file `assemble_chunks` writes before it renames it. -/
def tmpAsmPath (user file tmp : Uuid) : String := filePath user file ++ (".tmp_asm_" ++ tmp.text)

/-- What `storage_path` holds while a resumable transfer is in progress. -/
def resumableTransfer : String := "resumable_transfer"

/-- The path lies in the user's directory. -/
def InDirOf (user : Uuid) (path : String) : Prop := ∃ rest, path = user.text ++ ("/" ++ rest)

variable {u v a b t : Uuid} {p : String}

theorem inDirOf_filePath (u a : Uuid) : InDirOf u (filePath u a) := ⟨_, rfl⟩

theorem inDirOf_flatPath (u a : Uuid) : InDirOf u (flatPath u a) := ⟨_, rfl⟩

theorem inDirOf_tmpAsmPath (u a t : Uuid) : InDirOf u (tmpAsmPath u a t) :=
  ⟨String.ofList (a.text.toList.take 2) ++ ("/" ++ a.text) ++ (".tmp_asm_" ++ t.text), by
    simp only [tmpAsmPath, filePath, String.append_assoc]⟩

/-- Two strings that start with strings of one length agree on both parts. -/
theorem append_inj_of_length {s s' r r' : String} (h : s ++ r = s' ++ r')
    (hlen : s.length = s'.length) : s = s' ∧ r = r' := by
  have hl : s.toList ++ r.toList = s'.toList ++ r'.toList := by
    rw [← String.toList_append, ← String.toList_append, h]
  obtain ⟨h1, h2⟩ := List.append_inj hl (by rw [String.length_toList, String.length_toList, hlen])
  exact ⟨String.toList_injective h1, String.toList_injective h2⟩

/-- A path lies in one user's directory only. -/
theorem InDirOf.user_eq (h1 : InDirOf u p) (h2 : InDirOf v p) : u = v := by
  obtain ⟨r, rfl⟩ := h1
  obtain ⟨r', h⟩ := h2
  exact Uuid.text_injective (append_inj_of_length h (by simp)).1

theorem length_filePath (u a : Uuid) : (filePath u a).length = 76 := by
  have h : (a.text.toList.take 2).length = 2 := by
    rw [List.length_take, String.length_toList, Uuid.length_text]
    rfl
  simp only [filePath, String.length_append, String.length_ofList, Uuid.length_text, h]
  rfl

theorem length_flatPath (u a : Uuid) : (flatPath u a).length = 73 := by
  simp only [flatPath, String.length_append, Uuid.length_text]
  rfl

theorem length_tmpAsmPath (u a t : Uuid) : (tmpAsmPath u a t).length = 121 := by
  simp only [tmpAsmPath, String.length_append, length_filePath, Uuid.length_text]
  rfl

theorem not_inDirOf_resumableTransfer (u : Uuid) : ¬ InDirOf u resumableTransfer := by
  rintro ⟨r, h⟩
  have hlen := congrArg String.length h
  have h18 : resumableTransfer.length = 18 := by decide
  simp only [String.length_append, Uuid.length_text, h18] at hlen
  omega

/-- **A file's path determines its user and its id.** -/
theorem filePath_inj (h : filePath u a = filePath v b) : u = v ∧ a = b := by
  have huv := (inDirOf_filePath u a).user_eq (h ▸ inDirOf_filePath v b)
  subst huv
  refine ⟨rfl, Uuid.text_injective ?_⟩
  simp only [filePath, ← String.append_assoc] at h
  have hlen : ∀ c : Uuid, (String.ofList (c.text.toList.take 2)).length = 2 := by
    intro c
    rw [String.length_ofList, List.length_take, String.length_toList, Uuid.length_text]
    rfl
  exact (append_inj_of_length h (by simp only [String.length_append, hlen])).2

theorem flatPath_inj (h : flatPath u a = flatPath v b) : u = v ∧ a = b := by
  have huv := (inDirOf_flatPath u a).user_eq (h ▸ inDirOf_flatPath v b)
  subst huv
  simp only [flatPath, ← String.append_assoc] at h
  exact ⟨rfl, Uuid.text_injective (append_inj_of_length h (by simp)).2⟩

theorem filePath_ne_flatPath : filePath u a ≠ flatPath v b := by
  intro h
  have hlen := congrArg String.length h
  rw [length_filePath, length_flatPath] at hlen
  omega

theorem filePath_ne_tmpAsmPath : filePath u a ≠ tmpAsmPath v b t := by
  intro h
  have hlen := congrArg String.length h
  rw [length_filePath, length_tmpAsmPath] at hlen
  omega

theorem flatPath_ne_tmpAsmPath : flatPath u a ≠ tmpAsmPath v b t := by
  intro h
  have hlen := congrArg String.length h
  rw [length_flatPath, length_tmpAsmPath] at hlen
  omega

theorem filePath_ne_resumableTransfer : filePath u a ≠ resumableTransfer := fun h =>
  not_inDirOf_resumableTransfer u (h ▸ inDirOf_filePath u a)

theorem flatPath_ne_resumableTransfer : flatPath u a ≠ resumableTransfer := fun h =>
  not_inDirOf_resumableTransfer u (h ▸ inDirOf_flatPath u a)

theorem tmpAsmPath_ne_resumableTransfer : tmpAsmPath u a t ≠ resumableTransfer := fun h =>
  not_inDirOf_resumableTransfer u (h ▸ inDirOf_tmpAsmPath u a t)

end Pcos
