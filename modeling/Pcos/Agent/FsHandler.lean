import Pcos.Backend.Resumable
import Pcos.Foundations.FileSystem
import Pcos.Foundations.Text

/-!
# Agent/FsHandler — paths below a storage root (`agent/src/fs_handler.rs`)

`safe_resolve` cleans a relative path, turns down what looks like an escape, and resolves the rest
below the root; `list_dir` reports what is in a folder, each entry with a path of its own.  It cleans
the folder's path as `safe_resolve` does, but not the names in it: `resolves_iff` says which entries
the reported paths lead back to.
-/

namespace Pcos.FsHandler

open Foundations

/-! ## Paths -/

inductive FsError
  | pathTraversal (path : String)
  | invalidRoot (path : String)
  | notFound (path : String)
  | permissionDenied (path : String)
  | io
  deriving DecidableEq, Repr

/-- The text of an error; that of a failing call is the system's. -/
def FsError.display (osError : String) : FsError → String
  | .pathTraversal p => "Path traversal violation: '" ++ p ++ "' escapes root"
  | .invalidRoot p => "Storage root inaccessible: '" ++ p ++ "'"
  | .notFound p => "File/directory not found: '" ++ p ++ "'"
  | .permissionDenied p => "Access denied: '" ++ p ++ "'"
  | .io => "I/O error: " ++ osError

/-- A path that starts at a real location. -/
structure PathBuf where
  base : Location
  rest : List String
  deriving DecidableEq, Repr

/-- As many links as a path may lead through. -/
def maxLinks : ℕ := 40

section Paths

variable (fs : FileSystem)

/-- `canonicalize`, and where `exists` looks. -/
def PathBuf.canonicalize (p : PathBuf) : Option Location := fs.walk maxLinks p.base p.rest

/-- `parent()`; trailing pieces that are no names go with it. -/
def PathBuf.parent (p : PathBuf) : Option PathBuf :=
  if names p.rest ≠ [] then some ⟨p.base, (names p.rest).dropLast⟩
  else if p.base ≠ [] then some ⟨p.base.dropLast, []⟩
  else none

/-- `replace('\\', "/").trim().trim_start_matches('/')` -/
def clean (relPath : String) : String :=
  trimStart (· = '/') (trim isWhiteSpace
    (String.ofList (relPath.toList.map fun c => if c = '\\' then '/' else c)))

/-- A drive prefix, such as `C:`. -/
def isDrive (path : String) : Bool :=
  match path.toList with
  | a :: ':' :: _ => a.isAlpha
  | _ => false

/-- Strictly jail and resolve a relative path within a storage root. -/
def safeResolve (root relPath : String) : Except FsError PathBuf :=
  match (PathBuf.mk [] (pieces root)).canonicalize fs with
  | none => .error (.invalidRoot root)
  | some canonicalRoot =>
    let cleaned := clean relPath
    if isDrive cleaned then .error (.pathTraversal relPath)
    else if ".." ∈ pieces cleaned then .error (.pathTraversal relPath)
    else
      let candidate := PathBuf.mk canonicalRoot (pieces cleaned)
      match candidate.canonicalize fs with
      | some canonicalCandidate =>
        if canonicalRoot.isPrefixOf canonicalCandidate then .ok ⟨canonicalCandidate, []⟩
        else .error (.pathTraversal relPath)
      | none =>
        match candidate.parent.bind (PathBuf.canonicalize fs) with
        | some canonicalParent =>
          if canonicalRoot.isPrefixOf canonicalParent then .ok candidate
          else .error (.pathTraversal relPath)
        | none => .ok candidate

end Paths

/-! ## Listing -/

/-- What the host says of its files, and Unicode's lower case. -/
structure Host where
  fs : FileSystem
  modifiedAt : Location → Option String
  isReadonly : Location → Bool
  toLowercase : String → String

structure FsEntry where
  name : String
  relativePath : String
  entryType : String
  sizeBytes : ℕ
  modifiedAt : Option String
  mimeType : Option String
  isReadonly : Bool
  deriving DecidableEq, Repr

structure ListDirResult where
  relativePath : String
  entries : List FsEntry
  totalCount : ℕ
  deriving DecidableEq, Repr

/-- The table of `guess_mime_type`. -/
def mimeTypes : List (String × String) :=
  [("mp4", "video/mp4"), ("m4v", "video/mp4"), ("mkv", "video/x-matroska"), ("webm", "video/webm"),
    ("mov", "video/quicktime"), ("avi", "video/x-msvideo"), ("mp3", "audio/mpeg"),
    ("flac", "audio/flac"), ("wav", "audio/wav"), ("m4a", "audio/mp4"), ("ogg", "audio/ogg"),
    ("jpg", "image/jpeg"), ("jpeg", "image/jpeg"), ("png", "image/png"), ("gif", "image/gif"),
    ("webp", "image/webp"), ("svg", "image/svg+xml"), ("pdf", "application/pdf"),
    ("json", "application/json"), ("txt", "text/plain"), ("md", "text/plain"), ("rs", "text/plain"),
    ("ts", "text/plain"), ("dart", "text/plain"), ("toml", "text/plain"), ("yaml", "text/plain"),
    ("yml", "text/plain"), ("html", "text/html"), ("htm", "text/html"), ("zip", "application/zip"),
    ("tar", "application/x-tar"), ("gz", "application/gzip")]

section Listing

variable (h : Host)

def guessMimeType (filename : String) : String :=
  let extension := ((h.toLowercase filename).toList.splitOnP (· = '.')).getLast?.getD []
  (mimeTypes.lookup (String.ofList extension)).getD "application/octet-stream"

/-- The path that is reported of a name. -/
def entryRel (relPath name : String) : String :=
  if clean relPath = "" then name else clean relPath ++ "/" ++ name

/-- An entry; a link is not followed. -/
def entryOf (relPath : String) (folder : Location) (name : String) : FsEntry :=
  let node := h.fs.node (folder ++ [name])
  let isDir : Bool := node = some .folder
  { name
    relativePath := entryRel relPath name
    entryType := if isDir then "folder" else "file"
    sizeBytes := match node with
      | some (.file data) => data.length
      | some (.link target) => target.utf8ByteSize
      | _ => 0
    modifiedAt := h.modifiedAt (folder ++ [name])
    mimeType := if isDir then none else some (guessMimeType h name)
    isReadonly := h.isReadonly (folder ++ [name]) }

@[simp] theorem entryOf_name (relPath : String) (folder : Location) (name : String) :
    (entryOf h relPath folder name).name = name := by
  simp only [entryOf]

@[simp] theorem entryOf_relativePath (relPath : String) (folder : Location) (name : String) :
    (entryOf h relPath folder name).relativePath = entryRel relPath name := by
  simp only [entryOf]

/-- Folders first, then files alphabetically. -/
def entryLe (a b : FsEntry) : Bool :=
  if (a.entryType = "folder") = (b.entryType = "folder") then
    h.toLowercase a.name ≤ h.toLowercase b.name
  else a.entryType = "folder"

/-- List contents of a directory confined within root. -/
def listDir (root relPath : String) : Except FsError ListDirResult := do
  let fullPath ← safeResolve h.fs root relPath
  match fullPath.canonicalize h.fs with
  | none => .error (.notFound relPath)
  | some folder =>
    if h.fs.node folder ≠ some .folder then
      .error (.invalidRoot ("'" ++ relPath ++ "' is not a directory"))
    else
      let entries := ((h.fs.children folder).map (entryOf h relPath folder)).mergeSort (entryLe h)
      pure ⟨clean relPath, entries, entries.length⟩

end Listing

/-! ## What cleaning leaves -/

/-- The entry's path is one that cleaning leaves alone. -/
structure Plain (relPath name : String) : Prop where
  noBackslash : '\\' ∉ name.toList
  noSpaceBefore : ∀ c ∈ (entryRel relPath name).toList.head?, isWhiteSpace c = false
  noSpaceAfter : ∀ c ∈ name.toList.getLast?, isWhiteSpace c = false
  noDrive : isDrive (entryRel relPath name) = false

/-- How much of the characters is in names. -/
def pieceWeight (piece : List Char) : ℕ := if piece = [] ∨ piece = ['.'] then 0 else piece.length

def weight (l : List Char) : ℕ := ((l.splitOnP (· = '/')).map pieceWeight).sum

variable {l : List Char} {c : Char}

theorem pieceWeight_le (piece : List Char) : pieceWeight piece ≤ piece.length := by
  unfold pieceWeight
  split
  · exact Nat.zero_le _
  · exact Nat.le_refl _

/-- A piece with white space at an end is a name. -/
theorem pieceWeight_of_isWhiteSpace {piece : List Char} (hc : isWhiteSpace c = true)
    (hmem : c ∈ piece) : pieceWeight piece = piece.length := by
  rw [pieceWeight, if_neg]
  rintro (rfl | rfl)
  · cases hmem
  · rw [List.mem_singleton.mp hmem] at hc
    exact absurd hc (by decide)

theorem ne_slash_of_isWhiteSpace (hc : isWhiteSpace c = true) : (decide (c = '/')) = false := by
  rw [decide_eq_false_iff_not]
  rintro rfl
  exact absurd hc (by decide)

theorem weight_slash (l : List Char) : weight ('/' :: l) = weight l := by
  rw [weight, List.splitOnP_cons_eq_if_modifyHead, if_pos (by decide)]
  exact Nat.zero_add _

theorem weight_dropSlashes (l : List Char) : weight (l.dropWhile (· = '/')) = weight l := by
  induction l with
  | nil => rfl
  | cons c l ih =>
    rw [List.dropWhile_cons]
    split
    · rename_i hc
      rw [ih, of_decide_eq_true hc, weight_slash]
    · rfl

/-- **White space at the start is part of a name.** -/
theorem weight_cons_lt (hc : isWhiteSpace c = true) (l : List Char) : weight l < weight (c :: l) := by
  obtain ⟨piece, rest, hsplit⟩ := List.exists_cons_of_ne_nil (List.splitOnP_ne_nil (· = '/') l)
  rw [weight, weight, List.splitOnP_cons_eq_if_modifyHead,
    if_neg (by rw [ne_slash_of_isWhiteSpace hc]; exact Bool.false_ne_true), hsplit,
    List.modifyHead_cons, List.map_cons, List.map_cons, List.sum_cons, List.sum_cons,
    pieceWeight_of_isWhiteSpace hc List.mem_cons_self, List.length_cons]
  have hle := pieceWeight_le piece
  omega

/-- A text ends with its last piece. -/
theorem exists_lastPiece (l : List Char) : ∃ before last : List Char, '/' ∉ last ∧
    (l = last ∧ before = [] ∨ l = before ++ '/' :: last) := by
  by_cases hslash : '/' ∈ l
  · obtain ⟨last, before, hl, hlast⟩ := List.eq_append_cons_of_mem (List.mem_reverse.mpr hslash)
    refine ⟨before.reverse, last.reverse, fun h => hlast (List.mem_reverse.mp h), Or.inr ?_⟩
    rw [← List.reverse_reverse l, hl]
    simp
  · exact ⟨[], l, hslash, Or.inl ⟨rfl, rfl⟩⟩

theorem splitOnP_of_notMem (h : '/' ∉ l) : l.splitOnP (· = '/') = [l] :=
  List.splitOnP_eq_singleton fun c hc => by
    rw [decide_eq_false_iff_not]
    rintro rfl
    exact h hc

/-- **…and so is white space at the end.** -/
theorem weight_concat_lt (hc : isWhiteSpace c = true) (l : List Char) :
    weight l < weight (l ++ [c]) := by
  obtain ⟨before, last, hlast, hl⟩ := exists_lastPiece l
  have hlast' : '/' ∉ last ++ [c] := by
    intro h
    rcases List.mem_append.mp h with h | h
    · exact hlast h
    · exact absurd (List.mem_singleton.mp h).symm
        (of_decide_eq_false (ne_slash_of_isWhiteSpace hc))
  have hpiece : pieceWeight last < pieceWeight (last ++ [c]) := by
    rw [pieceWeight_of_isWhiteSpace hc (List.mem_append_right _ (List.mem_singleton_self c)),
      List.length_append, List.length_singleton]
    exact Nat.lt_succ_of_le (pieceWeight_le last)
  rcases hl with ⟨rfl, -⟩ | rfl
  · rw [weight, weight, splitOnP_of_notMem hlast, splitOnP_of_notMem hlast']
    simpa using hpiece
  · rw [List.append_assoc, List.cons_append, weight, weight,
      List.splitOnP_append_cons _ _ (by decide), List.splitOnP_append_cons _ _ (by decide),
      splitOnP_of_notMem hlast, splitOnP_of_notMem hlast']
    simpa using hpiece

theorem weight_dropWhile_le (l : List Char) : weight (l.dropWhile isWhiteSpace) ≤ weight l := by
  induction l with
  | nil => exact Nat.le_refl _
  | cons c l ih =>
    rw [List.dropWhile_cons]
    split
    · rename_i hc
      exact Nat.le_of_lt (Nat.lt_of_le_of_lt ih (weight_cons_lt hc l))
    · exact Nat.le_refl _

theorem weight_rdropWhile_le (l : List Char) : weight (l.rdropWhile isWhiteSpace) ≤ weight l := by
  induction l using List.reverseRecOn with
  | nil => exact Nat.le_refl _
  | append_singleton l c ih =>
    by_cases hc : isWhiteSpace c = true
    · rw [List.rdropWhile_concat_pos _ _ _ hc]
      exact Nat.le_of_lt (Nat.lt_of_le_of_lt ih (weight_concat_lt hc l))
    · rw [List.rdropWhile_concat_neg _ _ _ hc]

theorem sum_names (ps : List (List Char)) :
    ((names (ps.map String.ofList)).map fun p => p.toList.length).sum = (ps.map pieceWeight).sum := by
  induction ps with
  | nil => rfl
  | cons p ps ih =>
    have hstays : stays (String.ofList p) = true ↔ p = [] ∨ p = ['.'] := by
      rw [stays, Bool.or_eq_true, decide_eq_true_eq, decide_eq_true_eq, ← String.toList_inj,
        ← String.toList_inj, String.toList_ofList]
      exact Iff.rfl
    rw [List.map_cons, List.map_cons, List.sum_cons, ← ih, pieceWeight]
    split
    · rename_i h
      rw [FileSystem.names_cons_of_stays (hstays.mpr h), Nat.zero_add]
    · rename_i h
      rw [FileSystem.names_cons_of_not_stays fun hs => h (hstays.mp hs), List.map_cons, List.sum_cons,
        String.toList_ofList]

/-- Paths of the same names have as much in them. -/
theorem weight_eq_of_names {s t : String} (h : names (pieces s) = names (pieces t)) :
    weight s.toList = weight t.toList := by
  have hs := sum_names (s.toList.splitOnP (· = '/'))
  have ht := sum_names (t.toList.splitOnP (· = '/'))
  unfold pieces at h
  rw [weight, weight, ← hs, ← ht, h]

/-! ## Cleaning -/

variable {s : String}

theorem toList_clean (s : String) : (clean s).toList =
    ((((s.toList.map fun c => if c = '\\' then '/' else c).dropWhile isWhiteSpace).rdropWhile
      isWhiteSpace).dropWhile (· = '/')) := by
  rw [clean, trimStart, String.toList_ofList, toList_trim, String.toList_ofList]

theorem map_unbackslash {l : List Char} (h : '\\' ∉ l) :
    (l.map fun c => if c = '\\' then '/' else c) = l := by
  refine (List.map_congr_left fun c hc => ?_).trans (List.map_id l)
  exact if_neg fun heq : c = '\\' => h (heq ▸ hc)

theorem backslash_notMem_clean (s : String) : '\\' ∉ (clean s).toList := by
  rw [toList_clean]
  intro h
  have hmem := (List.rdropWhile_prefix _ _).subset ((List.dropWhile_suffix _).subset h)
  obtain ⟨c, -, hc⟩ := List.mem_map.mp ((List.dropWhile_suffix _).subset hmem)
  split at hc
  · exact absurd hc (by decide)
  · rename_i hne
    exact hne hc

/-- A cleaned path does not start with a slash. -/
theorem head_clean (s : String) : ∀ c ∈ (clean s).toList.head?, c ≠ '/' := by
  intro c hc
  rw [toList_clean] at hc
  have hhead := List.head?_dropWhile_not (p := fun c => decide (c = '/'))
    (l := (((s.toList.map fun c => if c = '\\' then '/' else c).dropWhile isWhiteSpace).rdropWhile
      isWhiteSpace))
  rw [Option.mem_def.mp hc] at hhead
  simpa using hhead

theorem dropWhile_eq_self {p : Char → Bool} {l : List Char} (h : ∀ c ∈ l.head?, p c = false) :
    l.dropWhile p = l := by
  cases l with
  | nil => rfl
  | cons c l => exact List.dropWhile_cons_of_neg (by rw [h c rfl]; exact Bool.false_ne_true)

theorem rdropWhile_eq_self {p : Char → Bool} {l : List Char} (h : ∀ c ∈ l.getLast?, p c = false) :
    l.rdropWhile p = l := by
  induction l using List.reverseRecOn with
  | nil => rfl
  | append_singleton l c _ =>
    refine List.rdropWhile_concat_neg _ _ _ ?_
    rw [h c List.getLast?_concat]
    exact Bool.false_ne_true

/-- **A path that needs no cleaning is left alone.** -/
theorem clean_eq_self (hback : '\\' ∉ s.toList) (hstart : ∀ c ∈ s.toList.head?, isWhiteSpace c = false)
    (hstop : ∀ c ∈ s.toList.getLast?, isWhiteSpace c = false) (hslash : ∀ c ∈ s.toList.head?, c ≠ '/') :
    clean s = s := by
  rw [← String.toList_inj, toList_clean, map_unbackslash hback, dropWhile_eq_self hstart,
    rdropWhile_eq_self hstop, dropWhile_eq_self fun c hc => decide_eq_false (hslash c hc)]

/-- **Cleaning white space off loses part of a name.** -/
theorem noSpace_of_weight (hback : '\\' ∉ s.toList) (h : weight (clean s).toList = weight s.toList) :
    (∀ c ∈ s.toList.head?, isWhiteSpace c = false) ∧
    ∀ c ∈ s.toList.getLast?, isWhiteSpace c = false := by
  rw [toList_clean, map_unbackslash hback, weight_dropSlashes] at h
  have hstart : ∀ c ∈ s.toList.head?, isWhiteSpace c = false := by
    intro c hc
    by_contra hspace
    rw [Bool.not_eq_false] at hspace
    obtain ⟨l, hl⟩ : ∃ l, s.toList = c :: l := by
      cases hs : s.toList with
      | nil => rw [hs] at hc; cases hc
      | cons c' l => rw [hs] at hc; cases hc; exact ⟨l, rfl⟩
    rw [hl, List.dropWhile_cons_of_pos hspace] at h
    have hright := weight_rdropWhile_le (l.dropWhile isWhiteSpace)
    have hleft := weight_dropWhile_le l
    have hfirst := weight_cons_lt hspace l
    omega
  refine ⟨hstart, fun c hc => ?_⟩
  by_contra hspace
  rw [Bool.not_eq_false] at hspace
  obtain ⟨l, hl⟩ := List.getLast?_eq_some_iff.mp hc
  rw [dropWhile_eq_self hstart, hl, List.rdropWhile_concat_pos _ _ _ hspace] at h
  have hright := weight_rdropWhile_le l
  have hlast := weight_concat_lt hspace l
  omega

/-! ## Listing and resolving -/

variable {fs : FileSystem} {root relPath : String} {r loc : Location}

theorem canonicalize_spec (hfree : fs.LinkFree r) {ps : List String} (hup : ".." ∉ ps)
    (h : (PathBuf.mk r ps).canonicalize fs = some loc) : loc = r ++ names ps := by
  rw [PathBuf.canonicalize] at h
  dsimp only at h
  rw [← List.append_nil r] at h
  have hloc := FileSystem.walk_spec hfree hup h
  rwa [List.append_nil] at hloc

theorem canonicalize_concat (hfree : fs.LinkFree r) {ps : List String} (hup : ".." ∉ ps)
    {name : String} (h : (fs.node (r ++ names ps ++ [name])).isSome = true) :
    (PathBuf.mk r (ps ++ [name])).canonicalize fs = some (r ++ names ps ++ [name]) := by
  rw [PathBuf.canonicalize]
  dsimp only
  rw [← List.append_nil r] at h ⊢
  exact FileSystem.walk_concat hfree hup h

/-- **A path that is resolved to what is there**, where there are no links. -/
theorem safeResolve_eq_ok_iff (hroot : (PathBuf.mk [] (pieces root)).canonicalize fs = some r)
    (hfree : fs.LinkFree r) : safeResolve fs root relPath = .ok ⟨loc, []⟩ ↔
      isDrive (clean relPath) = false ∧ ".." ∉ pieces (clean relPath) ∧
      (PathBuf.mk r (pieces (clean relPath))).canonicalize fs = some loc := by
  unfold safeResolve
  rw [hroot]
  dsimp only
  split
  · rename_i hdrive
    simp [hdrive]
  · rename_i hdrive
    rw [Bool.not_eq_true] at hdrive
    split
    · rename_i hup
      simp only [reduceCtorEq, false_iff]
      exact fun h => h.2.1 hup
    · rename_i hup
      have hne : pieces (clean relPath) ≠ [] := by
        unfold pieces
        rw [ne_eq, List.map_eq_nil_iff]
        exact List.splitOnP_ne_nil _ _
      have hraw : PathBuf.mk r (pieces (clean relPath)) ≠ ⟨loc, []⟩ := fun h =>
        hne (PathBuf.mk.inj h).2
      rw [and_iff_right hdrive, and_iff_right hup]
      cases hwalk : (PathBuf.mk r (pieces (clean relPath))).canonicalize fs with
      | some found =>
        have hstarts : r.isPrefixOf found = true := by
          rw [List.isPrefixOf_iff_prefix, canonicalize_spec hfree hup hwalk]
          exact List.prefix_append _ _
        simp only [hstarts, if_true, Except.ok.injEq, PathBuf.mk.injEq, and_true, Option.some.injEq]
      | none =>
        simp only [reduceCtorEq, iff_false]
        intro h
        split at h
        · split at h
          · exact absurd (Except.ok.inj h) hraw
          · cases h
        · exact absurd (Except.ok.inj h) hraw

/-- The characters of a piece are the path's. -/
theorem mem_of_mem_pieces {path piece : String} (h : piece ∈ pieces path) {c : Char}
    (hc : c ∈ piece.toList) : c ∈ path.toList := by
  obtain ⟨l, hl, rfl⟩ := List.mem_map.mp h
  rw [String.toList_ofList] at hc
  exact (sublist_of_mem_splitOnP hl).subset hc

/-- What is reported of a name. -/
theorem pieces_entryRel (name : String) (hname : '/' ∉ name.toList) : ∃ ps : List String,
    pieces (entryRel relPath name) = ps ++ [name] ∧
    (∀ p ∈ ps, p ∈ pieces (clean relPath)) ∧ names ps = names (pieces (clean relPath)) := by
  have hsingle : pieces name = [name] := by
    rw [pieces, splitOnP_of_notMem hname, List.map_singleton, String.ofList_toList]
  unfold entryRel
  split
  · rename_i hempty
    exact ⟨[], hsingle, List.forall_mem_nil _, by rw [hempty]; rfl⟩
  · refine ⟨pieces (clean relPath), ?_, fun _ hp => hp, rfl⟩
    have hsplit : ((clean relPath).toList ++ '/' :: name.toList).splitOnP (· = '/')
        = (clean relPath).toList.splitOnP (· = '/') ++ name.toList.splitOnP (· = '/') :=
      List.splitOnP_append_cons _ _ (by decide)
    rw [← hsingle, pieces, pieces, pieces, ← List.map_append, ← hsplit]
    simp [String.toList_append]

/-- An entry that is listed is there. -/
theorem exists_of_listed {h : Host} {d : Location}
    (hd : safeResolve h.fs root relPath = .ok ⟨d, []⟩) {listing : ListDirResult}
    (hlisting : listDir h root relPath = .ok listing) {entry : FsEntry}
    (hentry : entry ∈ listing.entries) :
    (h.fs.node (d ++ [entry.name])).isSome = true ∧
      entry.relativePath = entryRel relPath entry.name := by
  have hreal : (PathBuf.mk d []).canonicalize h.fs = some d := by
    rw [PathBuf.canonicalize]
    exact FileSystem.walk_nil
  unfold listDir at hlisting
  rw [hd] at hlisting
  simp only [bind, Except.bind, hreal] at hlisting
  split at hlisting
  · cases hlisting
  · simp only [pure, Except.pure, Except.ok.injEq] at hlisting
    rw [← hlisting] at hentry
    obtain ⟨name, hname, rfl⟩ := List.mem_map.mp (List.mem_mergeSort.mp hentry)
    rw [entryOf_name, entryOf_relativePath]
    exact ⟨FileSystem.mem_children.mp hname, rfl⟩

theorem entryRel_of_clean (h : clean relPath = "") (name : String) : entryRel relPath name = name :=
  if_pos h

theorem entryRel_of_ne (h : clean relPath ≠ "") (name : String) :
    entryRel relPath name = clean relPath ++ "/" ++ name := if_neg h

theorem backslash_mem_entryRel {name : String} :
    '\\' ∈ (entryRel relPath name).toList ↔ '\\' ∈ name.toList := by
  by_cases h : clean relPath = ""
  · rw [entryRel_of_clean h]
  · rw [entryRel_of_ne h, String.toList_append, String.toList_append, List.mem_append, List.mem_append]
    have hclean := backslash_notMem_clean relPath
    have hslash : '\\' ∉ "/".toList := by decide
    exact ⟨fun hmem => hmem.resolve_left fun h => h.elim hclean hslash, Or.inr⟩

theorem getLast_entryRel {name : String} (hname : name ≠ "") :
    (entryRel relPath name).toList.getLast? = name.toList.getLast? := by
  by_cases h : clean relPath = ""
  · rw [entryRel_of_clean h]
  · have hne : name.toList ≠ [] := fun hnil => hname (String.toList_inj.mp hnil)
    rw [entryRel_of_ne h, String.toList_append, List.getLast?_append_of_ne_nil _ hne]

theorem head_entryRel {name : String} (hname : '/' ∉ name.toList) :
    ∀ c ∈ (entryRel relPath name).toList.head?, c ≠ '/' := by
  by_cases h : clean relPath = ""
  · rw [entryRel_of_clean h]
    rintro c hc rfl
    exact hname (List.mem_of_mem_head? hc)
  · have hne : (clean relPath).toList ≠ [] := fun hnil => h (String.toList_inj.mp hnil)
    rw [entryRel_of_ne h, String.toList_append, String.toList_append, List.append_assoc,
      List.head?_append_of_ne_nil _ hne]
    exact head_clean relPath

/-- An entry's path leads back to it exactly if it needs no cleaning. -/
theorem resolves_listed_iff {h : Host} (hroot : (PathBuf.mk [] (pieces root)).canonicalize h.fs = some r)
    (hfree : h.fs.LinkFree r) {d : Location} (hd : safeResolve h.fs root relPath = .ok ⟨d, []⟩)
    {listing : ListDirResult} (hlisting : listDir h root relPath = .ok listing)
    {entry : FsEntry} (hentry : entry ∈ listing.entries) :
    safeResolve h.fs root entry.relativePath = .ok ⟨d ++ [entry.name], []⟩
      ↔ Plain relPath entry.name := by
  obtain ⟨hthere, hrel⟩ := exists_of_listed hd hlisting hentry
  obtain ⟨hne, hdot, hup, hslash, -⟩ := FileSystem.isName_of_child hthere
  obtain ⟨-, hupd, hwalkd⟩ := (safeResolve_eq_ok_iff hroot hfree).mp hd
  have hloc := canonicalize_spec hfree hupd hwalkd
  obtain ⟨ps, hps, hmem, hnames⟩ := @pieces_entryRel relPath entry.name hslash
  have hups : ".." ∉ ps := fun h => hupd (hmem _ h)
  rw [hrel, safeResolve_eq_ok_iff hroot hfree]
  constructor
  · rintro ⟨hdrive, hupe, hwalk⟩
    have hname : names (pieces (clean (entryRel relPath entry.name)))
        = names (pieces (clean relPath)) ++ [entry.name] := by
      have hfound := canonicalize_spec hfree hupe hwalk
      rw [hloc, List.append_assoc] at hfound
      exact (List.append_cancel_left hfound).symm
    have hback : '\\' ∉ entry.name.toList := by
      intro hmem
      have hpiece : entry.name ∈ pieces (clean (entryRel relPath entry.name)) :=
        List.mem_of_mem_filter (hname ▸ List.mem_append_right _ (List.mem_singleton_self _))
      exact backslash_notMem_clean _ (mem_of_mem_pieces hpiece hmem)
    have hback' : '\\' ∉ (entryRel relPath entry.name).toList :=
      fun h => hback (backslash_mem_entryRel.mp h)
    have hweight : weight (clean (entryRel relPath entry.name)).toList
        = weight (entryRel relPath entry.name).toList := by
      refine weight_eq_of_names (hname.trans ?_)
      have hlast : names [entry.name] = [entry.name] :=
        FileSystem.names_cons_of_not_stays (by simp [stays, hne, hdot])
      rw [hps, ← hnames, names, names, List.filter_append]
      exact congrArg (_ ++ ·) hlast.symm
    obtain ⟨hbefore, hafter⟩ := noSpace_of_weight hback' hweight
    have hclean := clean_eq_self hback' hbefore hafter (head_entryRel hslash)
    rw [getLast_entryRel hne] at hafter
    exact ⟨hback, hbefore, hafter, hclean ▸ hdrive⟩
  · intro hplain
    have hclean : clean (entryRel relPath entry.name) = entryRel relPath entry.name :=
      clean_eq_self (fun h => hplain.noBackslash (backslash_mem_entryRel.mp h)) hplain.noSpaceBefore
        (by rw [getLast_entryRel hne]; exact hplain.noSpaceAfter) (head_entryRel hslash)
    rw [hclean, hps]
    refine ⟨hplain.noDrive, fun h => ?_, ?_⟩
    · rcases List.mem_append.mp h with h | h
      · exact hups h
      · exact hup (List.mem_singleton.mp h).symm
    · rw [hloc, ← hnames]
      rw [hloc, ← hnames] at hthere
      exact canonicalize_concat hfree hups hthere

/-- What is in a folder is listed. -/
theorem exists_listing {h : Host} {d : Location} (hd : safeResolve h.fs root relPath = .ok ⟨d, []⟩)
    {name : String} (hname : name ∈ h.fs.children d) :
    ∃ listing, listDir h root relPath = .ok listing ∧
      ∃ entry ∈ listing.entries, entry.name = name := by
  have hreal : (PathBuf.mk d []).canonicalize h.fs = some d := by
    rw [PathBuf.canonicalize]
    exact FileSystem.walk_nil
  have hfolder := FileSystem.folder_of_child (FileSystem.mem_children.mp hname)
  unfold listDir
  rw [hd]
  simp only [bind, Except.bind, hreal, hfolder, ne_eq, not_true_eq_false, if_false, pure, Except.pure,
    Except.ok.injEq, exists_eq_left']
  exact ⟨entryOf h relPath d name, List.mem_mergeSort.mpr (List.mem_map_of_mem hname), entryOf_name ..⟩

/-- The paths that are reported of a name lead back to it. -/
def ResolvesBack (h : Host) (root relPath : String) (d : Location) (name : String) : Prop :=
  ∀ listing, listDir h root relPath = .ok listing → ∀ entry ∈ listing.entries, entry.name = name →
    safeResolve h.fs root entry.relativePath = .ok ⟨d ++ [name], []⟩

theorem plain_of_resolvesBack {h : Host}
    (hroot : (PathBuf.mk [] (pieces root)).canonicalize h.fs = some r) (hfree : h.fs.LinkFree r)
    {d : Location} (hd : safeResolve h.fs root relPath = .ok ⟨d, []⟩) {name : String}
    (hname : name ∈ h.fs.children d) (hback : ResolvesBack h root relPath d name) :
    Plain relPath name := by
  obtain ⟨listing, hlisting, entry, hentry, rfl⟩ := exists_listing hd hname
  exact (resolves_listed_iff hroot hfree hd hlisting hentry).mp (hback listing hlisting entry hentry rfl)

/-- **Listing and resolving agree exactly on the names whose paths need no cleaning**, in every folder
below a root without links. -/
theorem resolves_iff {h : Host} (hroot : (PathBuf.mk [] (pieces root)).canonicalize h.fs = some r)
    (hfree : h.fs.LinkFree r) {d : Location} (hd : safeResolve h.fs root relPath = .ok ⟨d, []⟩)
    {name : String} (hname : name ∈ h.fs.children d) :
    ResolvesBack h root relPath d name ↔ Plain relPath name := by
  refine ⟨plain_of_resolvesBack hroot hfree hd hname, ?_⟩
  rintro hplain listing hlisting entry hentry rfl
  exact (resolves_listed_iff hroot hfree hd hlisting hentry).mpr hplain

namespace Sample

/-- A folder with two notes, the name of one of which starts with a space. -/
def disk : FileSystem where
  entries := [(["srv"], .folder), (["srv", "docs"], .folder), (["srv", "docs", "a.txt"], .file [0x61]),
    (["srv", " b.txt"], .file [0x62])]
  nodup := by decide
  placed := by decide

def host : Host where
  fs := disk
  modifiedAt _ := none
  isReadonly _ := false
  toLowercase s := String.ofList (s.toList.map Char.toLower)

theorem linkFree_disk : disk.LinkFree ["srv"] := by
  intro l target h
  have hmem := (FileSystem.node_eq_some_iff (List.cons_ne_nil _ _)).mp h
  simp [disk] at hmem

end Sample

open Sample in
theorem resolves_docs : ResolvesBack host "/srv" "/docs/" ["srv", "docs"] "a.txt" :=
  (resolves_iff (by decide) linkFree_disk (by decide) (by decide)).mpr
    ⟨by decide, forall_mem_option_of_all (by decide), forall_mem_option_of_all (by decide),
      by decide⟩

open Sample in
/-- A name that starts with a space is listed, but its path is that of another. -/
theorem not_resolves_spaceBefore : ¬ ResolvesBack host "/srv" "" ["srv"] " b.txt" := by
  intro hback
  have hplain := plain_of_resolvesBack (r := ["srv"]) (by decide) linkFree_disk
    (by decide) (by decide) hback
  exact absurd (hplain.noSpaceBefore ' ' (by decide)) (by decide)

end Pcos.FsHandler
