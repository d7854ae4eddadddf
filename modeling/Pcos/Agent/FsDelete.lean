import Pcos.Agent.FsHandler
import Pcos.Foundations.FileCalls

/-!
# Agent/FsDelete — what `delete` takes away (`agent/src/fs_handler.rs`)

`safe_resolve` follows the links of a path that leads somewhere, the last name's too, and `delete`
removes what is there.  So where the last name is that of a link, the link stays and what it leads to
is removed.  Whatever else a path names is what is removed, with all that is below it.
-/

namespace Pcos.FsHandler

open Foundations

/-! ## Deleting -/

section Delete

variable (fs : FileSystem) (root relPath : String) (recursive : Bool)

/-- What the checks of `delete` leave to be removed, if there is something. -/
def deleteTarget : Except FsError (Option Location) :=
  match safeResolve fs root relPath with
  | .error e => .error e
  | .ok fullPath =>
    match (PathBuf.mk [] (pieces root)).canonicalize fs with
    | none => .error .io
    | some canonicalRoot =>
      if fullPath.base ++ names fullPath.rest = canonicalRoot then
        .error (.permissionDenied "Cannot delete storage root directory")
      else .ok (fullPath.canonicalize fs)

/-- `remove_dir_all`, which may fail when some of what is below has gone. -/
def removeDirAll (failed : Option (List Location)) (loc : Location) :
    Except FsError Bool × FileSystem :=
  match failed with
  | none => (.ok true, fs.remove loc)
  | some gone => (.error .io, (gone.filter fun g => loc.isPrefixOf g && g ≠ loc).foldl .remove fs)

/-- `remove_dir` removes an empty folder. -/
def removeDir (failed : Option (List Location)) (loc : Location) :
    Except FsError Bool × FileSystem :=
  if failed = none ∧ fs.children loc = [] then (.ok true, fs.remove loc) else (.error .io, fs)

def removeFile (failed : Option (List Location)) (loc : Location) :
    Except FsError Bool × FileSystem :=
  if failed = none then (.ok true, fs.remove loc) else (.error .io, fs)

/-- Delete a file or directory within root; `failed` is an error of the call that removes, with what
has gone by then. -/
def delete (failed : Option (List Location)) : Except FsError Bool × FileSystem :=
  match deleteTarget fs root relPath with
  | .error e => (.error e, fs)
  | .ok none => (.ok false, fs)
  | .ok (some loc) =>
    if fs.node loc = some .folder then
      if recursive then removeDirAll fs failed loc else removeDir fs failed loc
    else removeFile fs failed loc

/-! ## What it should do -/

/-- The directory entry that the path names: the last name, in the folder that the names before it
lead to. -/
def namedEntry : Option Location :=
  ((PathBuf.mk [] (pieces root)).canonicalize fs).bind fun r =>
    (names (pieces (clean relPath))).getLast?.bind fun name =>
      (fs.walk maxLinks r (names (pieces (clean relPath))).dropLast).map fun l => l ++ [name]

/-- After a success the named entry, with what is below it, has gone, and nothing else has; after an
error, unless a folder is named, everything is there. -/
structure DeletesExactly (result : Except FsError Bool) (fs' : FileSystem) : Prop where
  removed : result = .ok true → ∃ e, namedEntry fs root relPath = some e ∧
    ∀ l, fs'.node l = if e <+: l then none else fs.node l
  kept : ∀ err, result = .error err →
    (∀ e, namedEntry fs root relPath = some e → fs.node e ≠ some .folder) →
      ∀ l, fs'.node l = fs.node l

/-- The path names a link. -/
def NamesLink : Prop :=
  ∃ e target, namedEntry fs root relPath = some e ∧ fs.node e = some (.link target)

/-- The call that removes takes something away: it succeeds, or it fails with something gone. -/
def Takes (failed : Option (List Location)) (loc : Location) : Prop :=
  if fs.node loc = some .folder then
    if recursive then
      ∀ gone, failed = some gone → ∃ g ∈ gone, loc <+: g ∧ g ≠ loc ∧ (fs.node g).isSome
    else failed = none ∧ fs.children loc = []
  else failed = none

end Delete

/-! ## What is resolved -/

section Resolve

variable {fs : FileSystem} {root relPath : String} {loc r : Location}

theorem canonicalize_mk (base : Location) (ps : List String) :
    (PathBuf.mk base ps).canonicalize fs = fs.walk maxLinks base ps := by
  rw [PathBuf.canonicalize]

/-- **What is resolved**: where the path leads, if that is below the root, or the path itself. -/
theorem safeResolve_ok {p : PathBuf} (h : safeResolve fs root relPath = .ok p) :
    ∃ r, (PathBuf.mk [] (pieces root)).canonicalize fs = some r ∧ ".." ∉ pieces (clean relPath) ∧
      ((∃ loc, fs.walk maxLinks r (pieces (clean relPath)) = some loc ∧ r <+: loc ∧ p = ⟨loc, []⟩) ∨
        fs.walk maxLinks r (pieces (clean relPath)) = none ∧ p = ⟨r, pieces (clean relPath)⟩) := by
  unfold safeResolve at h
  cases hroot : (PathBuf.mk [] (pieces root)).canonicalize fs with
  | none =>
    rw [hroot] at h
    cases h
  | some r =>
    rw [hroot] at h
    dsimp only at h
    split at h
    case isTrue => cases h
    case isFalse =>
      split at h
      case isTrue => cases h
      case isFalse hup =>
        refine ⟨r, rfl, hup, ?_⟩
        rw [canonicalize_mk] at h
        split at h
        case h_1 loc hwalk =>
          split at h
          case isTrue hpre =>
            exact .inl ⟨loc, hwalk, List.isPrefixOf_iff_prefix.mp hpre, (Except.ok.inj h).symm⟩
          case isFalse => cases h
        case h_2 hwalk =>
          refine .inr ⟨hwalk, ?_⟩
          split at h
          case h_1 =>
            split at h
            case isTrue => exact (Except.ok.inj h).symm
            case isFalse => cases h
          case h_2 => exact (Except.ok.inj h).symm

/-- **What is to be removed is where the path leads**, below the root. -/
theorem walk_of_deleteTarget (h : deleteTarget fs root relPath = .ok (some loc)) :
    ∃ r, (PathBuf.mk [] (pieces root)).canonicalize fs = some r ∧ ".." ∉ pieces (clean relPath) ∧
      fs.walk maxLinks r (pieces (clean relPath)) = some loc ∧ r <+: loc ∧ loc ≠ r := by
  unfold deleteTarget at h
  cases hres : safeResolve fs root relPath with
  | error e =>
    rw [hres] at h
    cases h
  | ok p =>
    obtain ⟨r, hroot, hup, hp⟩ := safeResolve_ok hres
    rw [hres] at h
    dsimp only at h
    rw [hroot] at h
    dsimp only at h
    split at h
    case isTrue => cases h
    case isFalse hne =>
      refine ⟨r, hroot, hup, ?_⟩
      rcases hp with ⟨loc', hwalk, hpre, rfl⟩ | ⟨hwalk, rfl⟩
      · rw [canonicalize_mk, FileSystem.walk_nil, Except.ok.injEq, Option.some.injEq] at h
        obtain rfl := h
        refine ⟨hwalk, hpre, fun heq => hne ?_⟩
        exact (List.append_nil _).trans heq
      · rw [canonicalize_mk, hwalk] at h
        cases h

/-- The root is a place and no link. -/
theorem solid_of_canonicalize {path : String}
    (h : (PathBuf.mk [] (pieces path)).canonicalize fs = some r) : FileSystem.Solid fs r := by
  rw [canonicalize_mk] at h
  obtain ⟨rest, hwalks⟩ := FileSystem.walk_eq_some_iff.mp h
  exact hwalks.solid (FileSystem.solid_of_folder rfl)

/-- **The entry that is named is there**, and unless it is a link, it is what the path leads to. -/
theorem namedEntry_of_deleteTarget (h : deleteTarget fs root relPath = .ok (some loc)) :
    ∃ e, namedEntry fs root relPath = some e ∧ FileSystem.Solid fs loc ∧ loc ≠ [] ∧
       ((∃ target, fs.node e = some (.link target)) ∨ e = loc) := by
  obtain ⟨r, hroot, hup, hwalk, hpre, hne⟩ := walk_of_deleteTarget h
  obtain ⟨rest, hwalks⟩ := FileSystem.walk_eq_some_iff.mp hwalk
  have hsolid := hwalks.solid (solid_of_canonicalize hroot)
  have hnil : loc ≠ [] := by
    rintro rfl
    exact hne (List.prefix_nil.mp hpre).symm
  have hnames := hwalks.names
  rcases List.eq_nil_or_concat (names (pieces (clean relPath))) with hempty | ⟨ns, name, hconcat⟩
  · rw [hempty] at hnames
    cases hnames
    exact absurd rfl hne
  · rw [List.concat_eq_append] at hconcat
    rw [hconcat] at hnames
    obtain ⟨mid, left, hmid, hlast⟩ := FileSystem.walks_append_iff.mp hnames
    have hmem : name ∈ names (pieces (clean relPath)) := by rw [hconcat]; simp
    have hentry : namedEntry fs root relPath = some (mid ++ [name]) := by
      rw [namedEntry, hroot, Option.bind_some, hconcat, List.getLast?_concat, Option.bind_some,
        List.dropLast_concat, FileSystem.walk_eq_some_iff.mpr ⟨left, hmid⟩, Option.map_some]
    refine ⟨mid ++ [name], hentry, ?_⟩
    cases hlast with
    | stay _ hstays => exact absurd hstays (by simpa using (List.mem_filter.mp hmem).2)
    | up => exact absurd (List.mem_filter.mp hmem).1 hup
    | @follow _ _ _ _ _ target _ _ _ _ hnode _ =>
      exact ⟨hsolid, hnil, .inl ⟨target, hnode⟩⟩
    | enter _ _ _ hnode _ hend =>
      cases hend
      exact ⟨hsolid, hnil, .inr rfl⟩

/-! ## What is removed -/

theorem node_foldl_remove (gone : List Location) (hgone : [] ∉ gone) (l : Location) :
    (gone.foldl FileSystem.remove fs).node l =
      if ∃ g ∈ gone, g <+: l then none else fs.node l := by
  induction gone generalizing fs with
  | nil => simp
  | cons g gone ih =>
    have hg : g ≠ [] := fun h => hgone (h ▸ List.mem_cons_self)
    rw [List.foldl_cons, ih fun h => hgone (List.mem_cons_of_mem _ h), FileSystem.node_remove hg]
    by_cases hrest : ∃ g' ∈ gone, g' <+: l
    · rw [if_pos hrest, if_pos (hrest.imp fun _ h => ⟨List.mem_cons_of_mem _ h.1, h.2⟩)]
    · rw [if_neg hrest]
      by_cases hl : g <+: l
      · rw [if_pos hl, if_pos ⟨g, List.mem_cons_self, hl⟩]
      · rw [if_neg hl, if_neg]
        rintro ⟨g', hmem, hpre⟩
        rcases List.mem_cons.mp hmem with rfl | hmem
        · exact hl hpre
        · exact hrest ⟨g', hmem, hpre⟩

/-- What is above something that is there is there. -/
theorem isSome_of_prefix {g l : Location} (h : g <+: l) (hl : (fs.node l).isSome) :
    (fs.node g).isSome := by
  obtain ⟨m, rfl⟩ := h
  rcases List.eq_nil_or_concat m with rfl | ⟨m, name, rfl⟩
  · rwa [List.append_nil] at hl
  · rw [List.concat_eq_append, ← List.append_assoc] at hl
    rw [FileSystem.folder_of_descendant hl]
    rfl

/-- A removal that is cut short takes something exactly when something below has gone. -/
theorem takes_iff_of_gone (gone : List Location) (hnil : loc ≠ []) :
    (∀ gone', some gone = some gone' → ∃ g ∈ gone', loc <+: g ∧ g ≠ loc ∧ (fs.node g).isSome) ↔
      ∃ l, (removeDirAll fs (some gone) loc).2.node l ≠ fs.node l := by
  have hmem : ∀ g, g ∈ gone.filter (fun g => loc.isPrefixOf g && g ≠ loc) ↔
      g ∈ gone ∧ loc <+: g ∧ g ≠ loc := fun g => by
    simp only [List.mem_filter, Bool.and_eq_true, List.isPrefixOf_iff_prefix, decide_eq_true_eq]
  have htop : [] ∉ gone.filter fun g => loc.isPrefixOf g && g ≠ loc := fun h =>
    hnil (List.prefix_nil.mp ((hmem []).mp h).2.1)
  have hnode : ∀ l, (removeDirAll fs (some gone) loc).2.node l = _ := node_foldl_remove _ htop
  constructor
  · intro h
    obtain ⟨g, hg, hpre, hne, hsome⟩ := h gone rfl
    refine ⟨g, fun heq => ?_⟩
    rw [hnode, if_pos ⟨g, (hmem g).mpr ⟨hg, hpre, hne⟩, List.prefix_rfl⟩] at heq
    rw [← heq] at hsome
    cases hsome
  · rintro ⟨l, hl⟩ gone' heq
    obtain rfl := Option.some.inj heq
    rw [hnode] at hl
    split at hl
    case isTrue h =>
      obtain ⟨g, hg, hpre⟩ := h
      obtain ⟨hg, hbelow, hne⟩ := (hmem g).mp hg
      exact ⟨g, hg, hbelow, hne, isSome_of_prefix hpre (Option.isSome_iff_ne_none.mpr hl.symm)⟩
    case isFalse => exact absurd rfl hl

/-- **The call succeeds, and `loc` has gone, with what is below; or it fails, and some of what is
below has.**  Nothing has gone exactly when it takes nothing. -/
theorem delete_spec (recursive : Bool) (failed : Option (List Location))
    (htarget : deleteTarget fs root relPath = .ok (some loc)) (hnil : loc ≠ []) :
    ((delete fs root relPath recursive failed).1 = .ok true ∧
      Takes fs recursive failed loc ∧
      ∀ l, (delete fs root relPath recursive failed).2.node l =
        if loc <+: l then none else fs.node l) ∨
    ((delete fs root relPath recursive failed).1 = .error .io ∧
      (fs.node loc ≠ some .folder → ∀ l, (delete fs root relPath recursive failed).2.node l =
        fs.node l) ∧
      (Takes fs recursive failed loc ↔ ∃ l, (delete fs root relPath recursive failed).2.node l ≠
        fs.node l)) := by
  have hsame : ¬ ∃ l, fs.node l ≠ fs.node l := fun ⟨_, h⟩ => h rfl
  rw [delete, htarget]
  dsimp only
  unfold Takes
  by_cases hfolder : fs.node loc = some .folder
  · rw [if_pos hfolder, if_pos hfolder]
    cases recursive with
    | true =>
      rw [if_pos rfl, if_pos rfl]
      cases failed with
      | none => exact .inl ⟨rfl, nofun, FileSystem.node_remove hnil⟩
      | some gone =>
        exact .inr ⟨rfl, fun h => absurd hfolder h, takes_iff_of_gone gone hnil⟩
    | false =>
      rw [if_neg Bool.false_ne_true, if_neg Bool.false_ne_true]
      unfold removeDir
      split
      case isTrue h => exact .inl ⟨rfl, h, FileSystem.node_remove hnil⟩
      case isFalse h =>
        exact .inr ⟨rfl, fun _ _ => rfl, fun h' => absurd h' h, fun h' => absurd h' hsame⟩
  · rw [if_neg hfolder, if_neg hfolder]
    unfold removeFile
    split
    case isTrue h => exact .inl ⟨rfl, h, FileSystem.node_remove hnil⟩
    case isFalse h =>
      exact .inr ⟨rfl, fun _ _ => rfl, fun h' => absurd h' h, fun h' => absurd h' hsame⟩

end Resolve

section Law

variable {fs : FileSystem} {root relPath : String} {recursive : Bool}
  {failed : Option (List Location)} {loc e : Location}

/-- What is named is what is removed. -/
theorem deletesExactly_of_eq (htarget : deleteTarget fs root relPath = .ok (some loc))
    (hnil : loc ≠ []) (hentry : namedEntry fs root relPath = some loc) :
    DeletesExactly fs root relPath (delete fs root relPath recursive failed).1
      (delete fs root relPath recursive failed).2 := by
  rcases delete_spec recursive failed htarget hnil with
    ⟨hok, -, hnode⟩ | ⟨herror, hkept, -⟩
  · refine ⟨fun _ => ⟨loc, hentry, hnode⟩, fun err h => ?_⟩
    rw [hok] at h
    cases h
  · refine ⟨fun h => ?_, fun _ _ hnot => hkept (hnot loc hentry)⟩
    rw [herror] at h
    cases h

/-- **A link is named, and something else is removed.** -/
theorem deletesExactly_iff_of_link (htarget : deleteTarget fs root relPath = .ok (some loc))
    (hnil : loc ≠ []) (hsolid : FileSystem.Solid fs loc)
    (hentry : namedEntry fs root relPath = some e) {target : String}
    (hlink : fs.node e = some (.link target)) :
    DeletesExactly fs root relPath (delete fs root relPath recursive failed).1
      (delete fs root relPath recursive failed).2 ↔ ¬ Takes fs recursive failed loc := by
  obtain ⟨n, hn, hnolink⟩ := hsolid
  have hapart : ¬ e <+: loc := by
    rintro ⟨m, rfl⟩
    rcases List.eq_nil_or_concat m with rfl | ⟨m, name, rfl⟩
    · rw [List.append_nil, hlink, Option.some.injEq] at hn
      exact hnolink target hn.symm
    · rw [List.concat_eq_append, ← List.append_assoc] at hn
      rw [FileSystem.folder_of_descendant (by rw [hn]; rfl)] at hlink
      cases hlink
  have hnofolder : ∀ e', namedEntry fs root relPath = some e' → fs.node e' ≠ some .folder := by
    intro e' he'
    rw [hentry, Option.some.injEq] at he'
    rw [← he', hlink]
    exact nofun
  rcases delete_spec recursive failed htarget hnil with
    ⟨hok, htakes, hnode⟩ | ⟨herror, -, htakes⟩
  · refine ⟨fun h => ?_, fun h => absurd htakes h⟩
    obtain ⟨e', he', hremoved⟩ := h.removed hok
    rw [hentry, Option.some.injEq] at he'
    subst he'
    have hgone := hnode loc
    rw [if_pos List.prefix_rfl, hremoved, if_neg hapart, hn] at hgone
    cases hgone
  · rw [htakes, not_exists]
    constructor
    · exact fun h l => not_not.mpr (h.kept _ herror hnofolder l)
    · refine fun h => ⟨fun hok => ?_, fun _ _ _ l => not_not.mp (h l)⟩
      rw [herror] at hok
      cases hok

end Law

/-- **`delete` does what it should exactly when the last name of the path is not that of a link**,
or nothing is taken away. -/
theorem deletesExactly_iff (fs : FileSystem) (root relPath : String) (recursive : Bool)
    (failed : Option (List Location)) :
    DeletesExactly fs root relPath (delete fs root relPath recursive failed).1
        (delete fs root relPath recursive failed).2 ↔
      (NamesLink fs root relPath → ∀ loc, deleteTarget fs root relPath = .ok (some loc) →
        ¬ Takes fs recursive failed loc) := by
  rcases htarget : deleteTarget fs root relPath with err | (_ | loc)
  · refine ⟨fun _ _ _ => nofun, fun _ => ?_⟩
    rw [delete, htarget]
    exact ⟨nofun, fun _ _ _ _ => rfl⟩
  · refine ⟨fun _ _ _ => nofun, fun _ => ?_⟩
    rw [delete, htarget]
    exact ⟨nofun, fun _ _ _ _ => rfl⟩
  · obtain ⟨e, hentry, hsolid, hnil, hlink⟩ := namedEntry_of_deleteTarget htarget
    rcases hlink with ⟨target, hlink⟩ | rfl
    · rw [deletesExactly_iff_of_link htarget hnil hsolid hentry hlink]
      refine ⟨fun h _ loc' heq => ?_, fun h => h ⟨e, target, hentry, hlink⟩ loc rfl⟩
      rw [Except.ok.injEq, Option.some.injEq] at heq
      exact heq ▸ h
    · refine ⟨fun _ hnames => ?_, fun _ => deletesExactly_of_eq htarget hnil hentry⟩
      obtain ⟨e', target, he', hlink⟩ := hnames
      obtain ⟨n, hn, hnolink⟩ := hsolid
      rw [hentry, Option.some.injEq] at he'
      rw [← he', hn, Option.some.injEq] at hlink
      exact absurd hlink (hnolink target)

namespace Sample

/-- A root with a folder, a file in it, and a link to the folder. -/
def linked : FileSystem where
  entries := [(["s"], .folder), (["s", "d"], .folder), (["s", "d", "x"], .file [0x61]),
    (["s", "l"], .link "d")]
  nodup := by decide
  placed := by decide

end Sample

open Sample

/-- **The link stays, and the folder that it leads to has gone.** -/
theorem not_deletesExactly : (delete linked "/s" "l" true none).1 = .ok true ∧
    (delete linked "/s" "l" true none).2.node ["s", "l"] = some (.link "d") ∧
    (delete linked "/s" "l" true none).2.node ["s", "d", "x"] = none ∧
    ¬ DeletesExactly linked "/s" "l" (delete linked "/s" "l" true none).1
      (delete linked "/s" "l" true none).2 := by
  have hresult : (delete linked "/s" "l" true none).1 = .ok true := by decide
  refine ⟨hresult, by decide, by decide, fun h => ?_⟩
  obtain ⟨e, he, hnode⟩ := h.removed hresult
  have hentry : namedEntry linked "/s" "l" = some ["s", "l"] := by decide
  rw [hentry, Option.some.injEq] at he
  subst he
  exact absurd (hnode ["s", "d"]) (by decide)

end Pcos.FsHandler
