import Mathlib.Data.List.Induction
import Mathlib.Data.List.Nodup
import Mathlib.Data.List.SplitOn
import Pcos.Foundations.Digest

/-!
# Foundations/FileSystem — a tree with symbolic links, and how a path is walked

A file system has a node at some locations, each in a folder.  `walk` resolves a path the way POSIX
does, piece by piece: `.` and empty pieces stay, `..` goes up, a link is followed, and whatever has
more pieces after it has to be a folder.  Below a location without links a path leads to what its
names say (`walk_eq_some_iff`).
-/

namespace Foundations

/-- A real location, as names from the top. -/
abbrev Location := List String

inductive Node
  | file (data : Bytes)
  | folder
  | link (target : String)
  deriving DecidableEq

/-- The pieces of a path. -/
def pieces (path : String) : List String := (path.toList.splitOnP (· = '/')).map String.ofList

/-- A piece that stays where it is. -/
def stays (piece : String) : Bool := piece = "" || piece = "."

/-- The names of a path. -/
def names (ps : List String) : List String := ps.filter fun p => !stays p

/-- What a file can be called. -/
def IsName (name : String) : Prop :=
  name ≠ "" ∧ name ≠ "." ∧ name ≠ ".." ∧ '/' ∉ name.toList ∧ '\x00' ∉ name.toList

instance (name : String) : Decidable (IsName name) := inferInstanceAs (Decidable (_ ∧ _))

/-- A location that can be taken: at the top, or a name in a folder. -/
def Placed (entries : List (Location × Node)) (loc : Location) : Prop :=
  ∃ name ∈ loc.getLast?, IsName name ∧ (loc.dropLast = [] ∨ (loc.dropLast, Node.folder) ∈ entries)

instance (entries : List (Location × Node)) (loc : Location) : Decidable (Placed entries loc) :=
  match h : loc.getLast? with
  | none => isFalse (by rintro ⟨name, hname, -⟩; rw [h] at hname; cases hname)
  | some name =>
    if hplaced : IsName name ∧ (loc.dropLast = [] ∨ (loc.dropLast, Node.folder) ∈ entries) then
      isTrue ⟨name, h, hplaced⟩
    else isFalse (by
      rintro ⟨name', hname', hplaced'⟩
      rw [h] at hname'
      cases hname'
      exact hplaced hplaced')

/-- The nodes below the top, by location. -/
structure FileSystem where
  entries : List (Location × Node)
  nodup : (entries.map Prod.fst).Nodup
  placed : ∀ e ∈ entries, Placed entries e.1

namespace FileSystem

variable (fs : FileSystem)

/-- The node at a location; the top is a folder. -/
def node (loc : Location) : Option Node :=
  if loc = [] then some .folder else (fs.entries.find? fun e => e.1 = loc).map Prod.snd

/-- The names in a folder. -/
def children (loc : Location) : List String :=
  fs.entries.filterMap fun e => if e.1.dropLast = loc then e.1.getLast? else none

/-- Walk from a folder; `follow` goes on at a link. -/
def walkWith (follow : Location → List String → Option Location) :
    Location → List String → Option Location
  | loc, [] => some loc
  | loc, p :: ps =>
    if fs.node loc ≠ some .folder then none
    else if stays p then walkWith follow loc ps
    else if p = ".." then walkWith follow loc.dropLast ps
    else
      match fs.node (loc ++ [p]) with
      | none => none
      | some (.link target) =>
        follow (if target.toList.head? = some '/' then [] else loc) (pieces target ++ ps)
      | some _ => walkWith follow (loc ++ [p]) ps

/-- The real location that a path leads to, through at most so many links. -/
def walk : ℕ → Location → List String → Option Location
  | 0 => fs.walkWith fun _ _ => none
  | links + 1 => fs.walkWith (walk links)

/-! ## Nodes and names -/

variable {fs} {loc : Location} {name : String}

theorem ne_nil_of_mem {e : Location × Node} (he : e ∈ fs.entries) : e.1 ≠ [] := by
  obtain ⟨name, hname, -⟩ := fs.placed e he
  rintro hnil
  rw [hnil] at hname
  cases hname

theorem node_eq_some_iff {n : Node} (hloc : loc ≠ []) :
    fs.node loc = some n ↔ (loc, n) ∈ fs.entries := by
  rw [node, if_neg hloc]
  constructor
  · intro h
    obtain ⟨e, he, rfl⟩ := Option.map_eq_some_iff.mp h
    have hloc' : e.1 = loc := by simpa using List.find?_some he
    exact hloc' ▸ List.mem_of_find?_eq_some he
  · intro hmem
    have hsome : (fs.entries.find? fun e => e.1 = loc).isSome = true := by
      rw [List.find?_isSome]
      exact ⟨(loc, n), hmem, decide_eq_true rfl⟩
    obtain ⟨e, he⟩ := Option.isSome_iff_exists.mp hsome
    have hloc' : e.1 = loc := by simpa using List.find?_some he
    have heq : e = (loc, n) :=
      List.inj_on_of_nodup_map fs.nodup (List.mem_of_find?_eq_some he) hmem hloc'
    rw [he, heq]
    rfl

/-- **What is in a folder**: the names that have a node. -/
theorem mem_children : name ∈ fs.children loc ↔ (fs.node (loc ++ [name])).isSome = true := by
  have hne : loc ++ [name] ≠ [] := List.append_ne_nil_of_right_ne_nil _ (List.cons_ne_nil _ _)
  rw [Option.isSome_iff_exists]
  simp only [children, List.mem_filterMap, node_eq_some_iff hne]
  constructor
  · rintro ⟨⟨loc', n⟩, hmem, hname⟩
    split at hname
    · rename_i hdrop
      obtain ⟨l, rfl⟩ := List.getLast?_eq_some_iff.mp hname
      rw [List.dropLast_concat] at hdrop
      exact ⟨n, hdrop ▸ hmem⟩
    · cases hname
  · rintro ⟨n, hmem⟩
    exact ⟨(loc ++ [name], n), hmem, by simp⟩

theorem placed_of_child (h : (fs.node (loc ++ [name])).isSome = true) :
    IsName name ∧ (loc = [] ∨ (loc, Node.folder) ∈ fs.entries) := by
  have hne : loc ++ [name] ≠ [] := List.append_ne_nil_of_right_ne_nil _ (List.cons_ne_nil _ _)
  obtain ⟨n, hn⟩ := Option.isSome_iff_exists.mp h
  obtain ⟨name', hname', hplaced⟩ := fs.placed _ ((node_eq_some_iff hne).mp hn)
  dsimp only at hname' hplaced
  rw [List.getLast?_concat, Option.mem_some_iff] at hname'
  rw [List.dropLast_concat] at hplaced
  exact hname' ▸ hplaced

theorem isName_of_child (h : (fs.node (loc ++ [name])).isSome = true) : IsName name :=
  (placed_of_child h).1

/-- What has a node in it is a folder. -/
theorem folder_of_child (h : (fs.node (loc ++ [name])).isSome = true) :
    fs.node loc = some .folder := by
  rcases (placed_of_child h).2 with rfl | hmem
  · rfl
  · exact (node_eq_some_iff (ne_nil_of_mem hmem)).mpr hmem

/-- …and so is all above it. -/
theorem folder_of_descendant {l : Location} (h : (fs.node (loc ++ l ++ [name])).isSome = true) :
    fs.node loc = some .folder := by
  induction l using List.reverseRecOn generalizing name with
  | nil => exact folder_of_child (by rwa [List.append_nil] at h)
  | append_singleton l last ih =>
    have hlast : (fs.node (loc ++ l ++ [last])).isSome = true := by
      rw [List.append_assoc, folder_of_child h]
      rfl
    exact ih hlast

/-! ## Walking without links -/

/-- There is no link below the location. -/
def LinkFree (fs : FileSystem) (root : Location) : Prop :=
  ∀ l target, fs.node (root ++ l) ≠ some (.link target)

variable {root : Location} {ps : List String} {links : ℕ}

theorem walk_nil : fs.walk links loc [] = some loc := by cases links <;> rfl

theorem walk_cons (piece : String) : fs.walk links loc (piece :: ps) =
    if fs.node loc ≠ some .folder then none
    else if stays piece then fs.walk links loc ps
    else if piece = ".." then fs.walk links loc.dropLast ps
    else
      match fs.node (loc ++ [piece]) with
      | none => none
      | some (.link target) =>
        match links with
        | 0 => none
        | links + 1 =>
          fs.walk links (if target.toList.head? = some '/' then [] else loc) (pieces target ++ ps)
      | some _ => fs.walk links (loc ++ [piece]) ps := by
  cases links <;> rfl

theorem names_cons_of_stays {piece : String} (h : stays piece = true) :
    names (piece :: ps) = names ps :=
  List.filter_cons_of_neg (by rw [h]; exact Bool.false_ne_true)

theorem names_cons_of_not_stays {piece : String} (h : ¬ stays piece = true) :
    names (piece :: ps) = piece :: names ps :=
  List.filter_cons_of_pos (by rw [Bool.not_eq_true] at h; rw [h]; rfl)

/-- **A path leads to what its names say**, where there are no links. -/
theorem walk_spec (hfree : LinkFree fs root) (hup : ".." ∉ ps) {l : Location} {found : Location}
    (h : fs.walk links (root ++ l) ps = some found) : found = root ++ l ++ names ps := by
  induction ps generalizing l with
  | nil =>
    rw [walk_nil] at h
    exact ((List.append_nil _).trans (Option.some.inj h)).symm
  | cons piece ps ih =>
    have hrest : ".." ∉ ps := fun hmem => hup (List.mem_cons_of_mem _ hmem)
    rw [walk_cons] at h
    split at h
    · cases h
    · split at h
      · rename_i hstays
        rw [names_cons_of_stays hstays]
        exact ih hrest h
      · rename_i hstays
        rw [if_neg fun heq : piece = ".." => hup (heq ▸ List.mem_cons_self), List.append_assoc] at h
        rw [names_cons_of_not_stays hstays, ← List.singleton_append, ← List.append_assoc,
          List.append_assoc root]
        split at h
        · cases h
        · rename_i target hlink
          exact absurd hlink (hfree _ _)
        · exact ih hrest h

/-- **What is there is found** by a path that ends with its name. -/
theorem walk_concat (hfree : LinkFree fs root) (hup : ".." ∉ ps) {l : Location}
    (h : (fs.node (root ++ l ++ names ps ++ [name])).isSome = true) :
    fs.walk links (root ++ l) (ps ++ [name]) = some (root ++ l ++ names ps ++ [name]) := by
  have hname := isName_of_child h
  induction ps generalizing l with
  | nil =>
    have hstays : ¬ stays name = true := by simp [stays, hname.1, hname.2.1]
    rw [show names [] = [] from rfl, List.append_nil] at h ⊢
    rw [List.nil_append, walk_cons, if_neg (not_not.mpr (folder_of_child h)), if_neg hstays,
      if_neg hname.2.2.1]
    obtain ⟨n, hn⟩ := Option.isSome_iff_exists.mp h
    cases n with
    | link target => exact absurd hn (by rw [List.append_assoc]; exact hfree _ _)
    | file data => rw [hn, walk_nil]
    | folder => rw [hn, walk_nil]
  | cons piece ps ih =>
    have hrest : ".." ∉ ps := fun hmem => hup (List.mem_cons_of_mem _ hmem)
    rw [List.cons_append, walk_cons, if_neg (not_not.mpr (folder_of_descendant h))]
    by_cases hstays : stays piece = true
    · rw [names_cons_of_stays hstays] at h ⊢
      rw [if_pos hstays]
      exact ih hrest h
    · have hassoc : root ++ l ++ names (piece :: ps) = root ++ (l ++ [piece]) ++ names ps := by
        rw [names_cons_of_not_stays hstays, List.append_cons, List.append_assoc root]
      have hfolder : fs.node (root ++ l ++ [piece]) = some .folder := by
        rw [hassoc] at h
        rw [List.append_assoc]
        exact folder_of_descendant h
      rw [hassoc] at h ⊢
      rw [if_neg hstays, if_neg fun heq : piece = ".." => hup (heq ▸ List.mem_cons_self), hfolder]
      dsimp only
      rw [List.append_assoc]
      exact ih hrest h

end FileSystem

end Foundations
