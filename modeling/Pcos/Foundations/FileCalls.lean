import Pcos.Foundations.FileSystem
import Pcos.Foundations.Text

/-!
# Foundations/FileCalls — what makes, opens and removes files in a tree with symbolic links

A walk is a derivation (`Walks`), so that what holds along walks is an induction on it: a walk along
two paths in turn is one along both (`walks_append_iff`), and what is added leaves the walks there
were (`Walks.add`).

A node is added at a `Vacancy`, a place that can be taken and is free.  A directory is made where the
folder before the last name is; a file is opened where the whole path leads, also through a link to a
place that is free (`openAt`).
-/

namespace Foundations

/-- A place that can be taken can be taken where there are more folders. -/
theorem Placed.mono {entries entries' : List (Location × Node)} {loc : Location}
    (h : Placed entries loc)
    (hsub : ∀ l, (l, Node.folder) ∈ entries → (l, Node.folder) ∈ entries') :
    Placed entries' loc := by
  obtain ⟨name, hname, hok, hparent⟩ := h
  exact ⟨name, hname, hok, hparent.imp_right (hsub _)⟩

/-- The text of a location. -/
def pathText (loc : Location) : String :=
  String.ofList ('/' :: ['/'].intercalate (loc.map String.toList))

namespace FileSystem

variable {fs : FileSystem} {loc found : Location} {ps qs : List String} {piece name : String}
  {links rest : ℕ}

/-! ## Walks -/

/-- Where a link goes on from. -/
def linkStart (loc : Location) (target : String) : Location :=
  if target.toList.head? = some '/' then [] else loc

/-- A walk from a location along a path, to a location and with so many links left. -/
inductive Walks (fs : FileSystem) : ℕ → Location → List String → ℕ → Location → Prop
  | nil {links : ℕ} {loc : Location} : Walks fs links loc [] links loc
  | stay {links rest : ℕ} {loc found : Location} {piece : String} {ps : List String}
      (hfolder : fs.node loc = some .folder) (hstays : stays piece = true)
      (h : Walks fs links loc ps rest found) : Walks fs links loc (piece :: ps) rest found
  | up {links rest : ℕ} {loc found : Location} {ps : List String}
      (hfolder : fs.node loc = some .folder) (h : Walks fs links loc.dropLast ps rest found) :
      Walks fs links loc (".." :: ps) rest found
  | follow {links rest : ℕ} {loc found : Location} {piece target : String} {ps : List String}
      (hfolder : fs.node loc = some .folder) (hstays : ¬ stays piece = true) (hup : piece ≠ "..")
      (hnode : fs.node (loc ++ [piece]) = some (.link target))
      (h : Walks fs links (linkStart loc target) (pieces target ++ ps) rest found) :
      Walks fs (links + 1) loc (piece :: ps) rest found
  | enter {links rest : ℕ} {loc found : Location} {piece : String} {ps : List String} {n : Node}
      (hfolder : fs.node loc = some .folder) (hstays : ¬ stays piece = true) (hup : piece ≠ "..")
      (hnode : fs.node (loc ++ [piece]) = some n) (hn : ∀ target, n ≠ .link target)
      (h : Walks fs links (loc ++ [piece]) ps rest found) :
      Walks fs links loc (piece :: ps) rest found

/-- **`walk` finds what there is a walk to.** -/
theorem walk_eq_some_iff :
    fs.walk links loc ps = some found ↔ ∃ rest, Walks fs links loc ps rest found := by
  constructor
  · intro h
    induction links using Nat.strongRecOn generalizing loc ps with
    | ind links ih =>
      induction ps generalizing loc with
      | nil =>
        rw [walk_nil, Option.some.injEq] at h
        exact ⟨links, h ▸ .nil⟩
      | cons piece ps ihps =>
        rw [walk_cons] at h
        split at h
        case isTrue => cases h
        case isFalse hfolder =>
          rw [not_not] at hfolder
          split at h
          case isTrue hstays =>
            obtain ⟨rest, hrest⟩ := ihps h
            exact ⟨rest, .stay hfolder hstays hrest⟩
          case isFalse hstays =>
            split at h
            case isTrue hup =>
              obtain ⟨rest, hrest⟩ := ihps h
              exact ⟨rest, hup ▸ .up hfolder hrest⟩
            case isFalse hup =>
              split at h
              case h_1 => cases h
              case h_2 target hnode =>
                cases links with
                | zero => cases h
                | succ links =>
                  obtain ⟨rest, hrest⟩ := ih links (Nat.lt_succ_self links) h
                  exact ⟨rest, .follow hfolder hstays hup hnode hrest⟩
              case h_3 n hn hnode =>
                obtain ⟨rest, hrest⟩ := ihps h
                exact ⟨rest, .enter hfolder hstays hup hnode hn hrest⟩
  · rintro ⟨rest, h⟩
    induction h with
    | nil => exact walk_nil
    | stay hfolder hstays _ ih =>
      rw [walk_cons, if_neg (not_not.mpr hfolder), if_pos hstays]
      exact ih
    | up hfolder _ ih =>
      rw [walk_cons, if_neg (not_not.mpr hfolder), if_neg (by decide), if_pos rfl]
      exact ih
    | follow hfolder hstays hup hnode _ ih =>
      rw [walk_cons, if_neg (not_not.mpr hfolder), if_neg hstays, if_neg hup, hnode]
      exact ih
    | @enter _ _ _ _ _ _ n hfolder hstays hup hnode hn _ ih =>
      rw [walk_cons, if_neg (not_not.mpr hfolder), if_neg hstays, if_neg hup, hnode]
      cases n with
      | link target => exact absurd rfl (hn target)
      | file data => exact ih
      | folder => exact ih

/-- **Along two paths in turn** is along both. -/
theorem walks_append_iff : Walks fs links loc (ps ++ qs) rest found ↔
    ∃ mid left, Walks fs links loc ps left mid ∧ Walks fs left mid qs rest found := by
  constructor
  · intro h
    generalize hpath : ps ++ qs = path at h
    induction h generalizing ps with
    | @nil links loc =>
      obtain ⟨rfl, rfl⟩ := List.append_eq_nil_iff.mp hpath
      exact ⟨loc, links, .nil, .nil⟩
    | stay hfolder hstays h ih =>
      rcases List.append_eq_cons_iff.mp hpath with ⟨rfl, rfl⟩ | ⟨ps, rfl, htail⟩
      · exact ⟨_, _, .nil, .stay hfolder hstays h⟩
      · obtain ⟨mid, left, hps, hqs⟩ := ih htail.symm
        exact ⟨mid, left, .stay hfolder hstays hps, hqs⟩
    | up hfolder h ih =>
      rcases List.append_eq_cons_iff.mp hpath with ⟨rfl, rfl⟩ | ⟨ps, rfl, htail⟩
      · exact ⟨_, _, .nil, .up hfolder h⟩
      · obtain ⟨mid, left, hps, hqs⟩ := ih htail.symm
        exact ⟨mid, left, .up hfolder hps, hqs⟩
    | follow hfolder hstays hup hnode h ih =>
      rcases List.append_eq_cons_iff.mp hpath with ⟨rfl, rfl⟩ | ⟨ps, rfl, htail⟩
      · exact ⟨_, _, .nil, .follow hfolder hstays hup hnode h⟩
      · obtain ⟨mid, left, hps, hqs⟩ := ih (by rw [htail, List.append_assoc])
        exact ⟨mid, left, .follow hfolder hstays hup hnode hps, hqs⟩
    | enter hfolder hstays hup hnode hn h ih =>
      rcases List.append_eq_cons_iff.mp hpath with ⟨rfl, rfl⟩ | ⟨ps, rfl, htail⟩
      · exact ⟨_, _, .nil, .enter hfolder hstays hup hnode hn h⟩
      · obtain ⟨mid, left, hps, hqs⟩ := ih htail.symm
        exact ⟨mid, left, .enter hfolder hstays hup hnode hn hps, hqs⟩
  · rintro ⟨mid, left, hps, hqs⟩
    induction hps with
    | nil => exact hqs
    | stay hfolder hstays _ ih => exact .stay hfolder hstays (ih hqs)
    | up hfolder _ ih => exact .up hfolder (ih hqs)
    | follow hfolder hstays hup hnode _ ih =>
      rw [List.cons_append]
      exact .follow hfolder hstays hup hnode (List.append_assoc _ _ _ ▸ ih hqs)
    | enter hfolder hstays hup hnode hn _ ih => exact .enter hfolder hstays hup hnode hn (ih hqs)

/-- Pieces that stay where they are can be left out. -/
theorem Walks.names (h : Walks fs links loc ps rest found) :
    Walks fs links loc (names ps) rest found := by
  induction ps generalizing links loc with
  | nil => exact h
  | cons piece ps ih =>
    by_cases hstays : stays piece = true
    · rw [names_cons_of_stays hstays]
      cases h with
      | stay _ _ h => exact ih h
      | up => exact absurd hstays (by decide)
      | follow _ hno => exact absurd hstays hno
      | enter _ hno => exact absurd hstays hno
    · rw [names_cons_of_not_stays hstays, ← List.singleton_append]
      rw [← List.singleton_append] at h
      obtain ⟨mid, left, hpiece, hrest⟩ := walks_append_iff.mp h
      exact walks_append_iff.mpr ⟨mid, left, hpiece, ih hrest⟩

/-- There is something there, and it is no link. -/
def Solid (fs : FileSystem) (loc : Location) : Prop :=
  ∃ n, fs.node loc = some n ∧ ∀ target, n ≠ .link target

theorem solid_of_folder (h : fs.node loc = some .folder) : Solid fs loc :=
  ⟨_, h, fun _ h => by cases h⟩

theorem folder_dropLast (h : fs.node loc = some .folder) : fs.node loc.dropLast = some .folder := by
  rcases List.eq_nil_or_concat loc with rfl | ⟨l, name, rfl⟩
  · exact h
  · rw [List.concat_eq_append] at h ⊢
    rw [List.dropLast_concat]
    exact folder_of_child (by rw [h]; rfl)

/-- **A walk does not end at a link.** -/
theorem Walks.solid (h : Walks fs links loc ps rest found) (hloc : Solid fs loc) :
    Solid fs found := by
  induction h with
  | nil => exact hloc
  | stay _ _ _ ih => exact ih hloc
  | up hfolder _ ih => exact ih (solid_of_folder (folder_dropLast hfolder))
  | @follow _ _ _ _ _ target _ hfolder _ _ _ _ ih =>
    refine ih (solid_of_folder ?_)
    unfold linkStart
    split
    · rfl
    · exact hfolder
  | enter _ _ _ hnode hn _ ih => exact ih ⟨_, hnode, hn⟩

/-- A path with pieces starts in a folder. -/
theorem folder_of_walk (h : fs.walk links loc ps = some found) (hps : ps ≠ []) :
    fs.node loc = some .folder := by
  obtain ⟨piece, ps, rfl⟩ := List.exists_cons_of_ne_nil hps
  obtain ⟨rest, h⟩ := walk_eq_some_iff.mp h
  cases h <;> assumption

/-- **A location that is no link is where its own names lead.** -/
theorem walk_of_solid (h : Solid fs loc) : fs.walk links [] loc = some loc := by
  refine walk_eq_some_iff.mpr ⟨links, ?_⟩
  induction loc using List.reverseRecOn with
  | nil => exact .nil
  | append_singleton l name ih =>
    obtain ⟨n, hn, hlink⟩ := h
    have hchild : (fs.node (l ++ [name])).isSome = true := by
      rw [hn]
      rfl
    have hfolder := folder_of_child hchild
    have hname := isName_of_child hchild
    have hstays : ¬ stays name = true := by
      rw [stays, Bool.or_eq_true, decide_eq_true_eq, decide_eq_true_eq, not_or]
      exact ⟨hname.1, hname.2.1⟩
    exact walks_append_iff.mpr ⟨l, links, ih (solid_of_folder hfolder),
      .enter hfolder hstays hname.2.2.1 hn hlink .nil⟩

/-- The names of a real location have no slash. -/
theorem slash_notMem_of_solid (h : Solid fs loc) : ∀ name ∈ loc, '/' ∉ name.toList := by
  induction loc using List.reverseRecOn with
  | nil => exact List.forall_mem_nil _
  | append_singleton l name ih =>
    obtain ⟨n, hn, -⟩ := h
    have hchild : (fs.node (l ++ [name])).isSome = true := by
      rw [hn]
      rfl
    rw [List.forall_mem_append]
    refine ⟨ih (solid_of_folder (folder_of_child hchild)), ?_⟩
    rw [List.forall_mem_singleton]
    exact (isName_of_child hchild).2.2.2.1

theorem pieces_pathText (h : ∀ name ∈ loc, '/' ∉ name.toList) :
    pieces (pathText loc) = "" :: if loc = [] then [""] else loc := by
  rw [pieces, pathText, String.toList_ofList,
    List.splitOnP_cons_eq_if_modifyHead, if_pos (by decide), List.map_cons]
  split
  · rename_i hloc
    rw [hloc]
    rfl
  · rename_i hloc
    have hsep : ∀ l ∈ loc.map String.toList, ∀ c ∈ l, decide (c = '/') = false := by
      intro l hl c hc
      obtain ⟨name, hname, rfl⟩ := List.mem_map.mp hl
      refine decide_eq_false ?_
      rintro rfl
      exact h name hname hc
    rw [splitOnP_intercalate (p := fun c => decide (c = '/')) (by decide) (by simpa using hloc) hsep,
      List.map_map]
    have hid : String.ofList ∘ String.toList = id := funext fun _ => String.ofList_toList
    rw [hid, List.map_id]

/-- **A location that is no link is found by its text.** -/
theorem walk_pathText (h : Solid fs loc) : fs.walk links [] (pieces (pathText loc)) = some loc := by
  have htop : fs.node [] = some .folder := rfl
  rw [pieces_pathText (slash_notMem_of_solid h), walk_cons, if_neg (not_not.mpr htop),
    if_pos (by decide)]
  split
  · rename_i hloc
    rw [walk_cons, if_neg (not_not.mpr htop), if_pos (by decide), walk_nil, hloc]
  · exact walk_of_solid h

/-! ## Adding -/

/-- A place that can be taken, and is free. -/
structure Vacancy (fs : FileSystem) where
  loc : Location
  placed : Placed fs.entries loc
  free : fs.node loc = none

/-- The place, if it is a vacancy. -/
def vacancy (fs : FileSystem) (loc : Location) : Option (Vacancy fs) :=
  if h : Placed fs.entries loc ∧ fs.node loc = none then some ⟨loc, h.1, h.2⟩ else none

theorem Vacancy.ne_nil (v : Vacancy fs) : v.loc ≠ [] := by
  intro h
  have hfree := v.free
  rw [h] at hfree
  cases hfree

theorem Vacancy.notMem (v : Vacancy fs) : v.loc ∉ fs.entries.map Prod.fst := by
  intro hmem
  obtain ⟨⟨loc, n⟩, hmem, hloc⟩ := List.mem_map.mp hmem
  obtain rfl : loc = v.loc := hloc
  have hnode := (node_eq_some_iff v.ne_nil).mpr hmem
  rw [v.free] at hnode
  cases hnode

/-- With a node where there was none. -/
def add (fs : FileSystem) (v : Vacancy fs) (n : Node) : FileSystem where
  entries := (v.loc, n) :: fs.entries
  nodup := List.nodup_cons.mpr ⟨v.notMem, fs.nodup⟩
  placed e he := by
    have hsub : ∀ l, (l, Node.folder) ∈ fs.entries → (l, Node.folder) ∈ (v.loc, n) :: fs.entries :=
      fun l hl => List.mem_cons_of_mem _ hl
    rcases List.mem_cons.mp he with rfl | he
    · exact v.placed.mono hsub
    · exact (fs.placed e he).mono hsub

theorem node_add (v : Vacancy fs) (n : Node) :
    (fs.add v n).node loc = if loc = v.loc then some n else fs.node loc := by
  by_cases hnil : loc = []
  · have hne : loc ≠ v.loc := fun h => v.ne_nil (h.symm.trans hnil)
    rw [if_neg hne, node, node, if_pos hnil, if_pos hnil]
  · rw [node, node, if_neg hnil, if_neg hnil]
    change Option.map _ (((v.loc, n) :: fs.entries).find? _) = _
    rw [List.find?_cons]
    by_cases hloc : loc = v.loc
    · simp [hloc]
    · simp [hloc, Ne.symm hloc]

/-- What there was is there. -/
theorem node_add_of_some {v : Vacancy fs} {n n' : Node} (h : fs.node loc = some n') :
    (fs.add v n).node loc = some n' := by
  rw [node_add, if_neg, h]
  rintro rfl
  rw [v.free] at h
  cases h

/-- **What is added leaves the walks there were.** -/
theorem Walks.add {v : Vacancy fs} {n : Node} (h : Walks fs links loc ps rest found) :
    Walks (fs.add v n) links loc ps rest found := by
  induction h with
  | nil => exact .nil
  | stay hfolder hstays _ ih => exact .stay (node_add_of_some hfolder) hstays ih
  | up hfolder _ ih => exact .up (node_add_of_some hfolder) ih
  | follow hfolder hstays hup hnode _ ih =>
    exact .follow (node_add_of_some hfolder) hstays hup (node_add_of_some hnode) ih
  | enter hfolder hstays hup hnode hn _ ih =>
    exact .enter (node_add_of_some hfolder) hstays hup (node_add_of_some hnode) hn ih

theorem walk_add {v : Vacancy fs} {n : Node} (h : fs.walk links loc ps = some found) :
    (fs.add v n).walk links loc ps = some found := by
  obtain ⟨rest, h⟩ := walk_eq_some_iff.mp h
  exact walk_eq_some_iff.mpr ⟨rest, h.add⟩

/-- A new folder has nothing in it. -/
theorem node_add_child (v : Vacancy fs) (name : String) :
    (fs.add v .folder).node (v.loc ++ [name]) = none := by
  rw [node_add, if_neg (by simp)]
  by_contra hsome
  have hfolder := folder_of_child (Option.isSome_iff_ne_none.mpr hsome)
  rw [v.free] at hfolder
  cases hfolder

/-! ## The last name -/

/-- Something to be found after a folder: a name that is not followed. -/
theorem walk_append_singleton_of_node {n : Node} (h : fs.walk links loc ps = some found)
    (hname : IsName name) (hnode : fs.node (found ++ [name]) = some n)
    (hn : ∀ target, n ≠ .link target) :
    fs.walk links loc (ps ++ [name]) = some (found ++ [name]) := by
  obtain ⟨rest, h⟩ := walk_eq_some_iff.mp h
  have hfolder : fs.node found = some .folder := folder_of_child (by rw [hnode]; rfl)
  have hstays : ¬ stays name = true := by simp [stays, hname.1, hname.2.1]
  exact walk_eq_some_iff.mpr ⟨rest, walks_append_iff.mpr
    ⟨found, rest, h, .enter hfolder hstays hname.2.2.1 hnode hn .nil⟩⟩

/-- What is found after a folder is there. -/
theorem exists_of_walk_append_singleton (hname : IsName name)
    (h : fs.walk links loc (ps ++ [name]) = some found) : ∃ l, fs.walk links loc ps = some l ∧
      fs.node l = some .folder ∧ (fs.node (l ++ [name])).isSome = true := by
  obtain ⟨rest, h⟩ := walk_eq_some_iff.mp h
  obtain ⟨mid, left, hps, hlast⟩ := walks_append_iff.mp h
  refine ⟨mid, walk_eq_some_iff.mpr ⟨left, hps⟩, ?_⟩
  have hstays : ¬ stays name = true := by simp [stays, hname.1, hname.2.1]
  cases hlast with
  | stay _ hstays' => exact absurd hstays' hstays
  | up => exact absurd rfl hname.2.2.1
  | follow hfolder _ _ hnode _ => exact ⟨hfolder, by rw [hnode]; rfl⟩
  | enter hfolder _ _ hnode _ _ => exact ⟨hfolder, by rw [hnode]; rfl⟩

/-- Where a directory of the last name is made. -/
def dirAt (fs : FileSystem) (links : ℕ) (loc : Location) (ps : List String) :
    Option (Vacancy fs) :=
  ps.getLast?.bind fun name =>
    (fs.walk links loc ps.dropLast).bind fun folder => fs.vacancy (folder ++ [name])

/-! ## Opening -/

/-- Open a file, or make it if there is none; `follow` goes on at a link. -/
def openWith (fs : FileSystem) (follow : Location → List String → Option Location) :
    Location → List String → Option Location
  | _, [] => none
  | loc, p :: ps =>
    if fs.node loc ≠ some .folder then none
    else if stays p then openWith fs follow loc ps
    else if p = ".." then openWith fs follow loc.dropLast ps
    else
      match fs.node (loc ++ [p]) with
      | some (.link target) => follow (linkStart loc target) (pieces target ++ ps)
      | some .folder => openWith fs follow (loc ++ [p]) ps
      | _ => if ps = [] then some (loc ++ [p]) else none

/-- Where a path leads that is opened for writing, with a file that may be missing at its end. -/
def openAt (fs : FileSystem) : ℕ → Location → List String → Option Location
  | 0 => fs.openWith fun _ _ => none
  | links + 1 => fs.openWith (openAt fs links)

theorem openAt_cons : fs.openAt links loc (piece :: ps) =
    if fs.node loc ≠ some .folder then none
    else if stays piece then fs.openAt links loc ps
    else if piece = ".." then fs.openAt links loc.dropLast ps
    else
      match fs.node (loc ++ [piece]) with
      | some (.link target) =>
        match links with
        | 0 => none
        | links + 1 => fs.openAt links (linkStart loc target) (pieces target ++ ps)
      | some .folder => fs.openAt links (loc ++ [piece]) ps
      | _ => if ps = [] then some (loc ++ [piece]) else none := by
  cases links <;> rfl

theorem openAt_nil : fs.openAt links loc [] = none := by cases links <;> rfl

/-- **A file is opened in the folder that the path before its name leads to**, unless the name is
that of a link. -/
theorem exists_of_openAt (hstaysname : ¬ stays name = true) (hupname : name ≠ "..")
    (h : fs.openAt links loc (ps ++ [name]) = some found) : ∃ l, fs.walk links loc ps = some l ∧
      (found = l ++ [name] ∨ ∃ target, fs.node (l ++ [name]) = some (.link target)) := by
  suffices hwalks : ∃ l rest, Walks fs links loc ps rest l ∧
      (found = l ++ [name] ∨ ∃ target, fs.node (l ++ [name]) = some (.link target)) by
    obtain ⟨l, rest, hl, hfound⟩ := hwalks
    exact ⟨l, walk_eq_some_iff.mpr ⟨rest, hl⟩, hfound⟩
  induction links using Nat.strongRecOn generalizing loc ps with
  | ind links ih =>
    induction ps generalizing loc with
    | nil =>
      refine ⟨loc, links, .nil, ?_⟩
      rw [List.nil_append, openAt_cons] at h
      split at h
      case isTrue => cases h
      case isFalse =>
        split at h
        case h_1 target hnode => exact .inr ⟨target, hnode⟩
        case h_2 => cases links <;> cases h
        case h_3 =>
          rw [if_pos rfl, Option.some.injEq] at h
          exact .inl h.symm
    | cons piece ps ihps =>
      rw [List.cons_append, openAt_cons] at h
      split at h
      case isTrue => cases h
      case isFalse hfolder =>
        rw [not_not] at hfolder
        split at h
        case isTrue hstays =>
          obtain ⟨l, rest, hl, hfound⟩ := ihps h
          exact ⟨l, rest, .stay hfolder hstays hl, hfound⟩
        case isFalse hstays =>
          split at h
          case isTrue hup =>
            obtain ⟨l, rest, hl, hfound⟩ := ihps h
            exact ⟨l, rest, hup ▸ .up hfolder hl, hfound⟩
          case isFalse hup =>
            split at h
            case h_1 target hnode =>
              cases links with
              | zero => cases h
              | succ links =>
                rw [← List.append_assoc] at h
                obtain ⟨l, rest, hl, hfound⟩ := ih links (Nat.lt_succ_self links) h
                exact ⟨l, rest, .follow hfolder hstays hup hnode hl, hfound⟩
            case h_2 hnode =>
              obtain ⟨l, rest, hl, hfound⟩ := ihps h
              exact ⟨l, rest, .enter hfolder hstays hup hnode (by simp) hl, hfound⟩
            case h_3 =>
              rw [if_neg (by simp)] at h
              cases h

/-! ## Growing -/

/-- Everything is still there, and only files have other bytes. -/
def Grows (fs fs' : FileSystem) : Prop :=
  ∀ loc n, fs.node loc = some n → fs'.node loc = some n ∨
    ∃ data data', n = .file data ∧ fs'.node loc = some (.file data')

namespace Grows

variable {fs' fs'' : FileSystem}

theorem refl : Grows fs fs := fun _ _ => .inl

theorem trans (h : Grows fs fs') (h' : Grows fs' fs'') : Grows fs fs'' := by
  intro loc n hn
  rcases h loc n hn with hsame | ⟨data, data', rfl, hfile⟩
  · exact h' loc n hsame
  · rcases h' loc _ hfile with hsame | ⟨_, data'', _, hfile'⟩
    · exact .inr ⟨data, data', rfl, hsame⟩
    · exact .inr ⟨data, data'', rfl, hfile'⟩

theorem add (v : Vacancy fs) (n : Node) : Grows fs (fs.add v n) := fun _ _ hn =>
  .inl (node_add_of_some hn)

theorem folder (h : Grows fs fs') (hloc : fs.node loc = some .folder) :
    fs'.node loc = some .folder := by
  rcases h loc _ hloc with hsame | ⟨_, _, hfile, _⟩
  · exact hsame
  · cases hfile

theorem link {target : String} (h : Grows fs fs') (hloc : fs.node loc = some (.link target)) :
    fs'.node loc = some (.link target) := by
  rcases h loc _ hloc with hsame | ⟨_, _, hfile, _⟩
  · exact hsame
  · cases hfile

end Grows

variable {fs' : FileSystem}

/-- **What leads somewhere leads there.** -/
theorem Walks.grow (hgrows : Grows fs fs') (h : Walks fs links loc ps rest found) :
    Walks fs' links loc ps rest found := by
  induction h with
  | nil => exact .nil
  | stay hfolder hstays _ ih => exact .stay (hgrows.folder hfolder) hstays ih
  | up hfolder _ ih => exact .up (hgrows.folder hfolder) ih
  | follow hfolder hstays hup hnode _ ih =>
    exact .follow (hgrows.folder hfolder) hstays hup (hgrows.link hnode) ih
  | enter hfolder hstays hup hnode hn _ ih =>
    rcases hgrows _ _ hnode with hsame | ⟨data, data', rfl, hfile⟩
    · exact .enter (hgrows.folder hfolder) hstays hup hsame hn ih
    · exact .enter (hgrows.folder hfolder) hstays hup hfile (fun _ => Node.noConfusion) ih

theorem walk_grow (hgrows : Grows fs fs') (h : fs.walk links loc ps = some found) :
    fs'.walk links loc ps = some found := by
  obtain ⟨rest, h⟩ := walk_eq_some_iff.mp h
  exact walk_eq_some_iff.mpr ⟨rest, h.grow hgrows⟩

/-- **What is opened** is a file or a place that is free; and once it is a file, the path leads to
it. -/
theorem openAt_spec (h : fs.openAt links loc ps = some found) :
    (fs.node found = none ∨ ∃ data, fs.node found = some (.file data)) ∧
      ∀ fs' data, Grows fs fs' → fs'.node found = some (.file data) →
        ∃ rest, Walks fs' links loc ps rest found := by
  induction links using Nat.strongRecOn generalizing loc ps with
  | ind links ih =>
    induction ps generalizing loc with
    | nil =>
      rw [openAt_nil] at h
      cases h
    | cons piece ps ihps =>
      rw [openAt_cons] at h
      split at h
      case isTrue => cases h
      case isFalse hfolder =>
        rw [not_not] at hfolder
        split at h
        case isTrue hstays =>
          obtain ⟨hnode, hleads⟩ := ihps h
          refine ⟨hnode, fun fs' data hgrows hfile => ?_⟩
          obtain ⟨rest, hrest⟩ := hleads fs' data hgrows hfile
          exact ⟨rest, .stay (hgrows.folder hfolder) hstays hrest⟩
        case isFalse hstays =>
          split at h
          case isTrue hup =>
            obtain ⟨hnode, hleads⟩ := ihps h
            refine ⟨hnode, fun fs' data hgrows hfile => ?_⟩
            obtain ⟨rest, hrest⟩ := hleads fs' data hgrows hfile
            exact ⟨rest, hup ▸ .up (hgrows.folder hfolder) hrest⟩
          case isFalse hup =>
            split at h
            case h_1 target hlink =>
              cases links with
              | zero => cases h
              | succ links =>
                obtain ⟨hnode, hleads⟩ := ih links (Nat.lt_succ_self links) h
                refine ⟨hnode, fun fs' data hgrows hfile => ?_⟩
                obtain ⟨rest, hrest⟩ := hleads fs' data hgrows hfile
                exact ⟨rest, .follow (hgrows.folder hfolder) hstays hup (hgrows.link hlink) hrest⟩
            case h_2 hchild =>
              obtain ⟨hnode, hleads⟩ := ihps h
              refine ⟨hnode, fun fs' data hgrows hfile => ?_⟩
              obtain ⟨rest, hrest⟩ := hleads fs' data hgrows hfile
              exact ⟨rest, .enter (hgrows.folder hfolder) hstays hup (hgrows.folder hchild) (by simp)
                hrest⟩
            case h_3 hlink hchild =>
              split at h
              case isFalse => cases h
              case isTrue hps =>
                obtain rfl := Option.some.inj h
                refine ⟨?_, fun fs' data hgrows hfile => ?_⟩
                · cases hnode : fs.node (loc ++ [piece]) with
                  | none => exact .inl rfl
                  | some n =>
                    cases n with
                    | file data => exact .inr ⟨data, rfl⟩
                    | folder => exact absurd hnode hchild
                    | link target => exact absurd hnode (hlink target)
                · rw [hps]
                  exact ⟨links, .enter (hgrows.folder hfolder) hstays hup hfile (by simp) .nil⟩

/-- A walk along the names of a path that does not end with a piece that stays. -/
theorem Walks.of_names (hlast : ps.getLast?.any stays = false)
    (h : Walks fs links loc (Foundations.names ps) rest found) :
    Walks fs links loc ps rest found := by
  induction ps generalizing links loc with
  | nil => exact h
  | cons piece ps ih =>
    by_cases hps : ps = []
    · subst hps
      rw [List.getLast?_singleton, Option.any_some] at hlast
      rwa [names_cons_of_not_stays (Bool.eq_false_iff.mp hlast)] at h
    · rw [List.getLast?_cons_of_ne_nil hps] at hlast
      by_cases hstays : stays piece = true
      · rw [names_cons_of_stays hstays] at h
        have hrest := ih hlast h
        exact .stay (folder_of_walk (walk_eq_some_iff.mpr ⟨_, hrest⟩) hps) hstays hrest
      · rw [names_cons_of_not_stays hstays, ← List.singleton_append] at h
        obtain ⟨mid, left, hpiece, hrest⟩ := walks_append_iff.mp h
        exact walks_append_iff.mpr ⟨mid, left, hpiece, ih hlast hrest⟩

/-! ## Writing and removing -/

/-- With these bytes in the file, if there is one. -/
def rewrite (fs : FileSystem) (loc : Location) (data : Bytes) : FileSystem where
  entries := fs.entries.map fun e =>
    if e.1 = loc ∧ e.2 ≠ .folder then (e.1, .file data) else e
  nodup := by
    have hlocs : (fs.entries.map fun e =>
        if e.1 = loc ∧ e.2 ≠ .folder then (e.1, .file data) else e).map Prod.fst =
          fs.entries.map Prod.fst := by
      rw [List.map_map]
      refine List.map_congr_left fun e _ => ?_
      rw [Function.comp_apply]
      split <;> rfl
    exact hlocs.symm ▸ fs.nodup
  placed e he := by
    obtain ⟨e', he', rfl⟩ := List.mem_map.mp he
    have hloc : (if e'.1 = loc ∧ e'.2 ≠ .folder then (e'.1, Node.file data) else e').1 = e'.1 := by
      split <;> rfl
    rw [hloc]
    exact (fs.placed e' he').mono fun l hl => List.mem_map.mpr ⟨(l, .folder), hl, by simp⟩

/-- **Only the file that is written to is another one.** -/
theorem node_rewrite_of_ne {l : Location} {data : Bytes} (h : l ≠ loc) :
    (fs.rewrite loc data).node l = fs.node l := by
  by_cases hnil : l = []
  · rw [node, node, if_pos hnil, if_pos hnil]
  refine Option.ext fun n => ?_
  rw [node_eq_some_iff hnil, node_eq_some_iff hnil]
  change (l, n) ∈ fs.entries.map _ ↔ _
  rw [List.mem_map]
  constructor
  · rintro ⟨e, he, heq⟩
    split at heq
    · rename_i hloc
      exact absurd ((congrArg Prod.fst heq).symm.trans hloc.1) h
    · exact heq ▸ he
  · intro hmem
    exact ⟨(l, n), hmem, if_neg fun hloc => h hloc.1⟩

theorem node_rewrite_self {data data' : Bytes} (h : fs.node loc = some (.file data')) :
    (fs.rewrite loc data).node loc = some (.file data) := by
  have hnil : loc ≠ [] := by
    rintro rfl
    cases h
  rw [node_eq_some_iff hnil] at h ⊢
  refine List.mem_map.mpr ⟨_, h, ?_⟩
  rw [if_pos ⟨rfl, by simp⟩]

theorem Grows.rewrite {data data' : Bytes} (h : fs.node loc = some (.file data')) :
    Grows fs (fs.rewrite loc data) := by
  intro l n hn
  by_cases hl : l = loc
  · subst hl
    exact .inr ⟨data', data, Option.some.inj (hn.symm.trans h), node_rewrite_self h⟩
  · exact .inl ((node_rewrite_of_ne hl).trans hn)

/-- Without a node and all below it. -/
def remove (fs : FileSystem) (loc : Location) : FileSystem where
  entries := fs.entries.filter fun e => !loc.isPrefixOf e.1
  nodup := fs.nodup.sublist (List.filter_sublist.map _)
  placed e he := by
    obtain ⟨he, hkept⟩ := List.mem_filter.mp he
    obtain ⟨name, hname, hok, hparent⟩ := fs.placed e he
    refine ⟨name, hname, hok, hparent.imp_right fun hmem => List.mem_filter.mpr ⟨hmem, ?_⟩⟩
    simp only [Bool.not_eq_true', Bool.eq_false_iff, ne_eq, List.isPrefixOf_iff_prefix] at hkept ⊢
    exact fun h => hkept (h.trans (List.dropLast_prefix e.1))

theorem node_remove (h : loc ≠ []) (l : Location) :
    (fs.remove loc).node l = if loc <+: l then none else fs.node l := by
  by_cases hl : l = []
  · subst hl
    rw [if_neg fun hpre => h (List.prefix_nil.mp hpre)]
    rfl
  refine Option.ext fun n => ?_
  rw [node_eq_some_iff hl]
  change (l, n) ∈ fs.entries.filter _ ↔ _
  rw [List.mem_filter, Bool.not_eq_true', ← Bool.not_eq_true, List.isPrefixOf_iff_prefix]
  by_cases hpre : loc <+: l
  · rw [if_pos hpre]
    exact ⟨fun hmem => absurd hpre hmem.2, nofun⟩
  · rw [if_neg hpre, node_eq_some_iff hl]
    exact and_iff_left hpre

/-- The locations of a node and all below it. -/
def below (fs : FileSystem) (loc : Location) : List Location :=
  (fs.entries.map Prod.fst).filter loc.isPrefixOf

theorem mem_below {l : Location} (h : loc ≠ []) :
    l ∈ fs.below loc ↔ loc <+: l ∧ fs.node l ≠ none := by
  rw [below, List.mem_filter, List.isPrefixOf_iff_prefix, and_comm, ← Option.isSome_iff_ne_none,
    Option.isSome_iff_exists]
  refine and_congr_right fun hl => ?_
  have hnil : l ≠ [] := by
    rintro rfl
    exact h (List.prefix_nil.mp hl)
  simp only [node_eq_some_iff hnil, List.mem_map, Prod.exists, exists_eq_right, exists_and_right]

end FileSystem

end Foundations
