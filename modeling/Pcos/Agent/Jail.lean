import Pcos.Agent.ChunkWrites
import Pcos.Agent.FsDelete
import Pcos.Edge.NodeReads

/-!
# Agent/Jail — what the operations on a storage root touch (`agent/src/fs_handler.rs`)

`safe_resolve` looks where a path leads, if it leads anywhere, and else where its parent does, if
that does.

    list_dir │ stat │ read_chunk │ delete ──▸ what is there
    mkdir │ write_chunk ──▸ create_dir_all, and open with create

What is there is in the root.  But `create_dir_all` starts from the last folder on the way that
there is, and a file is opened where a link to nowhere leads: **an operation stays in the root
exactly if these two places are in it** (`jailed_iff`).
-/

namespace Pcos.FsHandler

open Foundations

/-! ## The system -/

/-- What is done to an object, at its real location. -/
inductive Access
  | read (loc : Location)
  | create (loc : Location)
  | modify (loc : Location)
  | delete (loc : Location)
  deriving DecidableEq

def Access.loc : Access → Location
  | .read loc | .create loc | .modify loc | .delete loc => loc

/-- The host, what it turns down for want of rights or room, and what was done to its objects. -/
structure System where
  host : Host
  denied : Access → Bool
  accesses : List Access

namespace System

variable (s : System)

abbrev fs : FileSystem := s.host.fs

def touch (a : Access) : System := { s with accesses := s.accesses ++ [a] }

/-- With a node at a free place. -/
def make (v : FileSystem.Vacancy s.fs) (n : Node) : System :=
  { s.touch (.create v.loc) with host := { s.host with fs := s.fs.add v n } }

/-- With a file to write to at the place, if that is free. -/
def opened (loc : Location) : System :=
  match s.fs.vacancy loc with
  | some v => s.make v (.file [])
  | none => s

def write (loc : Location) (data : Bytes) : System :=
  { s.touch (.modify loc) with host := { s.host with fs := s.fs.rewrite loc data } }

/-- Without a location and what has gone with it; the folders below it have been read. -/
def remove (loc : Location) (fs' : FileSystem) : System :=
  { s with
    host := { s.host with fs := fs' }
    accesses := s.accesses
      ++ ((s.fs.below loc).filter fun l => s.fs.node l = some .folder).map .read
      ++ ((s.fs.below loc).filter fun l => fs'.node l = none).map .delete }

/-- The bytes of the file, if there is one. -/
def file (loc : Location) : Option Bytes :=
  match s.fs.node loc with
  | some (.file data) => some data
  | _ => none

end System

abbrev Handler := EStateM FsError System

/-- Touch an object, unless the system turns it down. -/
def access (a : Access) : Handler Unit := do
  let s ← get
  ensure (!s.denied a) .io
  set (s.touch a)

/-! ## Making directories -/

section Calls

variable (fs : FileSystem) (p : PathBuf)

/-- Only a path without zero bytes can be passed to the system. -/
def NulFree (ps : List String) : Prop := ∀ piece ∈ ps, '\x00' ∉ piece.toList

instance (ps : List String) : Decidable (NulFree ps) := inferInstanceAs (Decidable (∀ _ ∈ _, _))

/-- `is_dir` -/
def isDir (base : Location) (ns : List String) : Bool :=
  (fs.walk maxLinks base ns).bind fs.node = some .folder

/-- The names that directories are made for: one that is followed by a dot is none of them. -/
def PathBuf.dirNames : List String :=
  if (p.rest.rdropWhile (· = "")).getLast? = some "." then (names p.rest).dropLast else names p.rest

/-- `mkdir` -/
def makeDir (base : Location) (ns : List String) : Handler Unit := do
  let s ← get
  let v ← okOr (s.fs.dirAt maxLinks base ns) .io
  ensure (!s.denied (.create v.loc)) .io
  set (s.make v .folder)

/-- The directories that are missing after those of the path `done`, in turn. -/
def makeDirs (base : Location) (done : List String) : List String → Handler Unit
  | [] => pure ()
  | name :: rest => do
    let s ← get
    if isDir s.fs base (done ++ [name]) then makeDirs base (done ++ [name]) rest
    else do
      makeDir base (done ++ [name])
      makeDirs base (done ++ [name]) rest

/-- `create_dir_all`, which leaves the directories that are there, and makes what is above one before
it. -/
def createDirAll : Handler Unit := do
  ensure (decide (NulFree p.rest)) .io
  let s ← get
  if isDir s.fs p.base (names p.rest) then pure ()
  else do
    makeDirs p.base [] p.dirNames
    let s ← get
    ensure (isDir s.fs p.base (names p.rest)) .io

/-! ## Opening -/

/-- The names of a path that a file can be opened at. -/
def PathBuf.fileNames : List String :=
  if p.rest.getLast?.any stays then [] else names p.rest

/-- Where a file is opened, or made; pieces that stay make no difference before a name. -/
def PathBuf.openAt : Option Location :=
  if p.rest = [] then
    match fs.node p.base with
    | some (.file _) => some p.base
    | _ => none
  else (fs.openAt maxLinks p.base p.fileNames).filter fun loc =>
    (fs.node loc).isSome || (fs.vacancy loc).isSome

/-- Open for writing, and create. -/
def openFile (fate : Agent.Fate) : Handler Location := do
  let s ← get
  let loc ← okOr (p.openAt s.fs) .io
  ensure (fate ≠ .unopened) .io
  set (s.opened loc)
  pure loc

end Calls

/-! ## The operations -/

namespace Handler

variable (root relPath : String)

/-- `safe_resolve` -/
def resolve : Handler PathBuf := do
  let s ← get
  MonadExcept.ofExcept (safeResolve s.fs root relPath)

/-- The entries of the names whose metadata can be read. -/
def readEntries (folder : Location) : List String → Handler (List FsEntry)
  | [] => pure []
  | name :: names => do
    let s ← get
    if s.denied (.read (folder ++ [name])) then readEntries folder names
    else do
      set (s.touch (.read (folder ++ [name])))
      let entries ← readEntries folder names
      pure (entryOf s.host relPath folder name :: entries)

/-- List contents of a directory confined within root. -/
def listDir : Handler ListDirResult := do
  let fullPath ← resolve root relPath
  let s ← get
  let folder ← okOr (fullPath.canonicalize s.fs) (.notFound relPath)
  ensure (s.fs.node folder = some .folder) (.invalidRoot ("'" ++ relPath ++ "' is not a directory"))
  access (.read folder)
  let entries ← readEntries relPath folder (s.fs.children folder)
  pure ⟨clean relPath, entries.mergeSort (entryLe s.host), entries.length⟩

structure StatResult where
  present : Bool
  entry : Option FsEntry
  deriving DecidableEq, Repr

/-- The entry of a file or folder. -/
def statEntry (h : Host) (loc : Location) : FsEntry :=
  let isDir : Bool := h.fs.node loc = some .folder
  let name := loc.getLast?.getD "root"
  { name
    relativePath := clean relPath
    entryType := if isDir then "folder" else "file"
    sizeBytes := match h.fs.node loc with
      | some (.file data) => data.length
      | _ => 0
    modifiedAt := h.modifiedAt loc
    mimeType := if isDir then none else some (guessMimeType h name)
    isReadonly := h.isReadonly loc }

/-- Stat a specific file or folder. -/
def stat : Handler StatResult := do
  let s ← get
  match safeResolve s.fs root relPath with
  -- which `safe_resolve` does not say
  | .error (.notFound _) => pure ⟨false, none⟩
  | .error e => throw e
  | .ok fullPath =>
    match fullPath.canonicalize s.fs with
    | none => pure ⟨false, none⟩
    | some loc => do
      access (.read loc)
      pure ⟨true, some (statEntry relPath s.host loc)⟩

/-- Read a chunk from a file within root; one read hands out at most `bytesRead` bytes. -/
def readChunk (bytesRead offset maxLength : ℕ) : Handler Edge.Files.ReadChunkResult := do
  let fullPath ← resolve root relPath
  let s ← get
  let loc ← okOr (fullPath.canonicalize s.fs) (.notFound relPath)
  let file ← okOr (s.file loc) (.notFound relPath)
  access (.read loc)
  pure (Edge.Files.readChunk relPath file bytesRead offset maxLength)

structure WriteChunkResult where
  relativePath : String
  offset : ℕ
  bytesWritten : ℕ
  totalSize : ℕ
  deriving DecidableEq, Repr

/-- What `write_chunk` does when the parent directory is ensured. -/
def writeOpened (fullPath : PathBuf) (offset : ℕ) (data : Bytes) (fate : Agent.Fate) :
    Handler WriteChunkResult := do
  let loc ← openFile fullPath fate
  let s ← get
  let file := (Agent.writeChunk (s.file loc) offset data fate).getD []
  set (s.write loc file)
  ensure (fate = .done) .io
  pure ⟨relPath, offset, data.length, file.length⟩

/-- Write a chunk to a file within root. -/
def writeChunk (offset : ℕ) (data : Bytes) (fate : Agent.Fate) : Handler WriteChunkResult := do
  let fullPath ← resolve root relPath
  fullPath.parent.forM createDirAll
  writeOpened relPath fullPath offset data fate

/-- Delete a file or directory within root; `failed` is an error of the call that removes, with what
has gone by then. -/
def delete (recursive : Bool) (failed : Option (List Location)) : Handler Bool := do
  let s ← get
  let target ← MonadExcept.ofExcept (deleteTarget s.fs root relPath)
  match target with
  | none => pure false
  | some loc => do
    let removed := FsHandler.delete s.fs root relPath recursive failed
    set (s.remove loc removed.2)
    MonadExcept.ofExcept removed.1

/-- Create a directory within root. -/
def mkdir : Handler Bool := do
  let fullPath ← resolve root relPath
  let s ← get
  if (fullPath.canonicalize s.fs).isSome then pure false
  else do
    createDirAll fullPath
    pure true

end Handler

inductive Operation
  | listDir
  | stat
  | readChunk (bytesRead offset maxLength : ℕ)
  | writeChunk (offset : ℕ) (data : Bytes) (fate : Agent.Fate)
  | delete (recursive : Bool) (failed : Option (List Location))
  | mkdir

def Operation.perform (root relPath : String) : Operation → Handler Unit
  | .listDir => discard (Handler.listDir root relPath)
  | .stat => discard (Handler.stat root relPath)
  | .readChunk bytesRead offset maxLength =>
    discard (Handler.readChunk root relPath bytesRead offset maxLength)
  | .writeChunk offset data fate => discard (Handler.writeChunk root relPath offset data fate)
  | .delete recursive failed => discard (Handler.delete root relPath recursive failed)
  | .mkdir => discard (Handler.mkdir root relPath)

section Claim

variable (h : Host) (denied : Access → Bool) (root relPath : String) (op : Operation)

/-- What an operation does to the objects of the host. -/
def touched : List Access := (leaves (op.perform root relPath) ⟨h, denied, []⟩).accesses

/-- Every object that is touched is in the root. -/
def Jailed : Prop :=
  ∀ r, (PathBuf.mk [] (Foundations.pieces root)).canonicalize h.fs = some r →
    ∀ a ∈ touched h denied root relPath op, r <+: a.loc

/-- Where the first directory on the way is made. -/
def FirstMade (p : PathBuf) (loc : Location) : Prop :=
  NulFree p.rest ∧ denied (.create loc) = false ∧
    ∃ q v, q <+: p.dirNames ∧ h.fs.dirAt maxLinks p.base q = some v ∧ v.loc = loc

/-- Where an operation on a resolved path comes to first: the first directory that it makes, and the
file that it opens. -/
def Reaches (p : PathBuf) (loc : Location) : Operation → Prop
  | .mkdir => p.canonicalize h.fs = none ∧ FirstMade h denied p loc
  | .writeChunk _ _ fate => ∃ parent, p.parent = some parent ∧
      (FirstMade h denied parent loc ∨
        NulFree parent.rest ∧ fate ≠ .unopened ∧ p.openAt h.fs = some loc)
  | _ => False

end Claim

/-! ## Where a directory can be made -/

section Directories

variable {fs : FileSystem} {base l : Location} {ps qs : List String} {name : String}
  {v : FileSystem.Vacancy fs}

open FileSystem

theorem vacancy_eq_some {loc : Location} (h : fs.vacancy loc = some v) : v.loc = loc := by
  unfold vacancy at h
  split at h
  · rw [← Option.some.inj h]
  · cases h

theorem isName_of_vacancy (h : v.loc = l ++ [name]) : IsName name := by
  obtain ⟨last, hlast, hname, -⟩ := v.placed
  rw [h, List.getLast?_concat, Option.mem_some_iff] at hlast
  exact hlast ▸ hname

/-- A free place is in a folder. -/
theorem folder_of_vacancy (h : v.loc = l ++ [name]) : fs.node l = some .folder := by
  obtain ⟨last, -, -, hparent⟩ := v.placed
  rw [h, List.dropLast_concat] at hparent
  rcases hparent with rfl | hmem
  · rfl
  · exact (node_eq_some_iff (ne_nil_of_mem hmem)).mpr hmem

/-- **Where a directory is made**: at a free name in the folder that the names before it lead to. -/
theorem dirAt_eq_some (h : fs.dirAt maxLinks base ps = some v) : ∃ q name l,
    ps = q ++ [name] ∧ fs.walk maxLinks base q = some l ∧ fs.node l = some .folder ∧
      v.loc = l ++ [name] := by
  obtain ⟨name, hname, h⟩ := Option.bind_eq_some_iff.mp h
  obtain ⟨l, hwalk, hv⟩ := Option.bind_eq_some_iff.mp h
  have hloc := vacancy_eq_some hv
  exact ⟨ps.dropLast, name, l, (List.dropLast_append_getLast? name hname).symm, hwalk,
    folder_of_vacancy hloc, hloc⟩

theorem isDir_iff : isDir fs base ps = true ↔
    ∃ l, fs.walk maxLinks base ps = some l ∧ fs.node l = some .folder := by
  rw [isDir, decide_eq_true_iff, Option.bind_eq_some_iff]

/-- **Before a directory that can be made there are directories.** -/
theorem isDir_of_dirAt (h : fs.dirAt maxLinks base (ps ++ qs) = some v) (hqs : qs ≠ []) :
    isDir fs base ps = true := by
  obtain ⟨q, name, l, heq, hwalk, hfolder, -⟩ := dirAt_eq_some h
  rcases List.eq_nil_or_concat qs with rfl | ⟨qs, last, rfl⟩
  · exact absurd rfl hqs
  · rw [List.concat_eq_append, ← List.append_assoc] at heq
    obtain ⟨rfl, -⟩ := List.append_inj' heq rfl
    obtain ⟨rest, hwalks⟩ := walk_eq_some_iff.mp hwalk
    obtain ⟨mid, left, hps, hqs⟩ := walks_append_iff.mp hwalks
    refine isDir_iff.mpr ⟨mid, walk_eq_some_iff.mpr ⟨left, hps⟩, ?_⟩
    cases hqs with
    | nil => exact hfolder
    | stay hmid => exact hmid
    | up hmid => exact hmid
    | follow hmid => exact hmid
    | enter hmid => exact hmid

/-- **Where a path leads on, no directory is made.** -/
theorem dirAt_eq_none (h : fs.walk maxLinks base (ps ++ qs) = some l) :
    fs.dirAt maxLinks base ps = none := by
  rw [Option.eq_none_iff_forall_ne_some]
  intro v hv
  obtain ⟨q, name, l', rfl, hwalk, -, hloc⟩ := dirAt_eq_some hv
  obtain ⟨rest, hwalks⟩ := walk_eq_some_iff.mp h
  obtain ⟨mid, left, hps, -⟩ := walks_append_iff.mp hwalks
  obtain ⟨l'', hl'', -, hsome⟩ :=
    exists_of_walk_append_singleton (isName_of_vacancy hloc) (walk_eq_some_iff.mpr ⟨left, hps⟩)
  rw [hwalk, Option.some.injEq] at hl''
  rw [← hl'', ← hloc, v.free] at hsome
  cases hsome

/-! ## A new directory -/

/-- The path leads to a folder with nothing in it. -/
structure Fresh (fs : FileSystem) (base : Location) (ps : List String) (l : Location) : Prop where
  walk : fs.walk maxLinks base ps = some l
  folder : fs.node l = some .folder
  empty : ∀ name, fs.node (l ++ [name]) = none

theorem fresh_add (h : fs.dirAt maxLinks base ps = some v) :
    Fresh (fs.add v .folder) base ps v.loc := by
  obtain ⟨q, name, l, rfl, hwalk, -, hloc⟩ := dirAt_eq_some h
  have hfolder : (fs.add v .folder).node v.loc = some .folder := by rw [node_add, if_pos rfl]
  refine ⟨?_, hfolder, node_add_child v⟩
  rw [hloc] at hfolder ⊢
  exact walk_append_singleton_of_node (walk_add hwalk) (isName_of_vacancy hloc) hfolder (by simp)

namespace Fresh

variable (h : Fresh fs base ps l)
include h

/-- In it a directory of any name can be made. -/
theorem dirAt (hname : IsName name) :
    ∃ v, fs.dirAt maxLinks base (ps ++ [name]) = some v ∧ v.loc = l ++ [name] := by
  have hplaced : Placed fs.entries (l ++ [name]) := by
    refine ⟨name, List.getLast?_concat, hname, ?_⟩
    rw [List.dropLast_concat]
    by_cases hl : l = []
    · exact .inl hl
    · exact .inr ((node_eq_some_iff hl).mp h.folder)
  refine ⟨⟨l ++ [name], hplaced, h.empty name⟩, ?_, rfl⟩
  rw [FileSystem.dirAt, List.getLast?_concat, Option.bind_some, List.dropLast_concat, h.walk,
    Option.bind_some, vacancy, dif_pos ⟨hplaced, h.empty name⟩]

theorem isDir_concat (hname : IsName name) : isDir fs base (ps ++ [name]) = false := by
  rw [Bool.eq_false_iff]
  intro hdir
  obtain ⟨l', hl', -⟩ := isDir_iff.mp hdir
  obtain ⟨v, hv, -⟩ := h.dirAt hname
  rw [← List.append_nil (ps ++ [name])] at hl'
  rw [dirAt_eq_none hl'] at hv
  cases hv

/-- …and a file of any name is opened in it. -/
theorem openAt {found : Location} (hstays : ¬ stays name = true) (hup : name ≠ "..")
    (hopen : fs.openAt maxLinks base (ps ++ [name]) = some found) : found = l ++ [name] := by
  obtain ⟨l', hl', hfound⟩ := exists_of_openAt hstays hup hopen
  rw [h.walk, Option.some.injEq] at hl'
  subst hl'
  rcases hfound with hfound | ⟨target, hlink⟩
  · exact hfound
  · rw [h.empty name] at hlink
    cases hlink

end Fresh

end Directories

/-! ## What is made -/

/-- A later state, with more accesses at a location and below it. -/
def Extends (s s' : System) (l : Location) : Prop :=
  ∃ more, s'.accesses = s.accesses ++ more ∧ ∀ a ∈ more, l <+: a.loc

namespace Extends

variable {s s' s'' : System} {l l' : Location}

theorem refl : Extends s s l := ⟨[], (List.append_nil _).symm, List.forall_mem_nil _⟩

theorem trans (h : Extends s s' l) (h' : Extends s' s'' l') (hl : l <+: l') : Extends s s'' l := by
  obtain ⟨more, haccesses, hmore⟩ := h
  obtain ⟨more', haccesses', hmore'⟩ := h'
  refine ⟨more ++ more', ?_, fun a ha => ?_⟩
  · rw [haccesses', haccesses, List.append_assoc]
  · rcases List.mem_append.mp ha with ha | ha
    · exact hmore a ha
    · exact hl.trans (hmore' a ha)

theorem touch (a : Access) (hl : l <+: a.loc) : Extends s (s.touch a) l :=
  ⟨[a], rfl, fun b hb => by rwa [List.mem_singleton.mp hb]⟩

theorem make (v : FileSystem.Vacancy s.fs) (n : Node) (hl : l <+: v.loc) :
    Extends s (s.make v n) l :=
  ⟨[.create v.loc], rfl, fun b hb => by rwa [List.mem_singleton.mp hb]⟩

end Extends

section Runs

variable {s : System} {base l : Location} {done rest : List String} {p : PathBuf}
  {Q : Unit → System → Prop} {E : FsError → System → Prop}

theorem wp_makeDir {ns : List String} : wp (makeDir base ns) Q E s ↔
    (∀ v, s.fs.dirAt maxLinks base ns = some v →
      if s.denied (.create v.loc) then E .io s else Q () (s.make v .folder)) ∧
    (s.fs.dirAt maxLinks base ns = none → E .io s) := by
  simp only [makeDir, wp_bind, wp_get, wp_okOr, wp_ensure, wp_set]
  refine and_congr_left fun _ => forall₂_congr fun v _ => ?_
  cases s.denied (.create v.loc) <;> simp

/-- **Below a new directory there is nothing but what is made.** -/
theorem wp_makeDirs_fresh (h : Fresh s.fs base done l) (hnames : ∀ n ∈ rest, IsName n) :
    wp (makeDirs base done rest)
      (fun _ s' => Extends s s' l ∧ ∃ l', Fresh s'.fs base (done ++ rest) l' ∧ l <+: l')
      (fun _ s' => Extends s s' l) s := by
  induction rest generalizing done l s with
  | nil => exact ⟨.refl, l, by rwa [List.append_nil], List.prefix_rfl⟩
  | cons name rest ih =>
    obtain ⟨hname, hrest⟩ := List.forall_mem_cons.mp hnames
    obtain ⟨v, hv, hloc⟩ := h.dirAt hname
    have hl : l <+: v.loc := hloc ▸ List.prefix_append _ _
    simp only [makeDirs, wp_bind, wp_get, h.isDir_concat hname, Bool.false_eq_true, if_false,
      wp_makeDir, hv, Option.some.injEq, forall_eq', reduceCtorEq, false_implies, and_true]
    split
    · exact .refl
    · refine wp_mono (ih (fresh_add hv) hrest) ?_ ?_
      · rintro _ s' ⟨hext, l', hfresh, hl'⟩
        rw [List.append_assoc] at hfresh
        exact ⟨(Extends.make v _ hl).trans hext hl, l', hfresh, hl.trans hl'⟩
      · exact fun _ s' hext => (Extends.make v _ hl).trans hext hl

/-- Where a directory can be made for one of the names that come next. -/
def MadeNext (s : System) (base : Location) (done rest : List String) (loc : Location) : Prop :=
  s.denied (.create loc) = false ∧ ∃ q v, q ≠ [] ∧ q <+: rest ∧
    s.fs.dirAt maxLinks base (done ++ q) = some v ∧ v.loc = loc

theorem madeNext_of_isDir {name : String} {loc : Location}
    (hdir : isDir s.fs base (done ++ [name]) = true) :
    MadeNext s base done (name :: rest) loc ↔ MadeNext s base (done ++ [name]) rest loc := by
  refine and_congr_right fun _ => ⟨?_, ?_⟩
  · rintro ⟨q, v, hq, hpre, hv, hloc⟩
    obtain ⟨first, q, rfl⟩ := List.exists_cons_of_ne_nil hq
    obtain ⟨rfl, hpre'⟩ := List.cons_prefix_cons.mp hpre
    refine ⟨q, v, ?_, hpre', by rwa [List.append_assoc], hloc⟩
    rintro rfl
    obtain ⟨l, hwalk, -⟩ := isDir_iff.mp hdir
    rw [← List.append_nil (done ++ [first])] at hwalk
    rw [dirAt_eq_none hwalk] at hv
    cases hv
  · rintro ⟨q, v, -, hpre, hv, hloc⟩
    rw [List.append_assoc] at hv
    exact ⟨name :: q, v, List.cons_ne_nil _ _, List.cons_prefix_cons.mpr ⟨rfl, hpre⟩, hv, hloc⟩

theorem madeNext_of_not_isDir {name : String} {loc : Location}
    (hdir : isDir s.fs base (done ++ [name]) = false) :
    MadeNext s base done (name :: rest) loc ↔ s.denied (.create loc) = false ∧
      ∃ v, s.fs.dirAt maxLinks base (done ++ [name]) = some v ∧ v.loc = loc := by
  refine and_congr_right fun _ => ⟨?_, ?_⟩
  · rintro ⟨q, v, hq, hpre, hv, hloc⟩
    obtain ⟨first, q, rfl⟩ := List.exists_cons_of_ne_nil hq
    obtain ⟨rfl, -⟩ := List.cons_prefix_cons.mp hpre
    by_cases hq : q = []
    · exact ⟨v, hq ▸ hv, hloc⟩
    · rw [← List.singleton_append, ← List.append_assoc] at hv
      rw [isDir_of_dirAt hv hq] at hdir
      cases hdir
  · rintro ⟨v, hv, hloc⟩
    exact ⟨[name], v, List.cons_ne_nil _ _, List.cons_prefix_cons.mpr ⟨rfl, List.nil_prefix⟩, hv,
      hloc⟩

/-- A later state in which a directory was made first. -/
structure First (s s' : System) (loc : Location) : Prop where
  mem : Access.create loc ∈ s'.accesses
  later : Extends s s' loc

theorem First.of_make {v : FileSystem.Vacancy s.fs} {n : Node} {s' : System}
    (h : Extends (s.make v n) s' v.loc) : First s s' v.loc := by
  obtain ⟨more, haccesses, -⟩ := id h
  refine ⟨?_, (Extends.make v n List.prefix_rfl).trans h List.prefix_rfl⟩
  rw [haccesses]
  exact List.mem_append_left _ (List.mem_append_right _ (List.mem_singleton_self _))

theorem First.trans {s' s'' : System} {loc loc' : Location} (h : First s s' loc)
    (h' : Extends s' s'' loc') (hloc : loc <+: loc') : First s s'' loc := by
  obtain ⟨more, haccesses, -⟩ := id h'
  refine ⟨?_, h.later.trans h' hloc⟩
  rw [haccesses]
  exact List.mem_append_left _ h.mem

/-- **Directories are made from the first that can be, or not at all.** -/
theorem wp_makeDirs (hnames : ∀ n ∈ rest, IsName n) :
    wp (makeDirs base done rest)
      (fun _ s' => (s' = s ∧ ∀ loc, ¬ MadeNext s base done rest loc) ∨
        ∃ loc, MadeNext s base done rest loc ∧ First s s' loc ∧
          ∃ l, Fresh s'.fs base (done ++ rest) l ∧ loc <+: l)
      (fun _ s' => (s' = s ∧ ∀ loc, ¬ MadeNext s base done rest loc) ∨
        ∃ loc, MadeNext s base done rest loc ∧ First s s' loc) s := by
  induction rest generalizing done with
  | nil =>
    refine .inl ⟨rfl, ?_⟩
    rintro loc ⟨-, q, v, hq, hpre, -⟩
    exact hq (List.prefix_nil.mp hpre)
  | cons name rest ih =>
    obtain ⟨hname, hrest⟩ := List.forall_mem_cons.mp hnames
    rw [makeDirs, wp_bind, wp_get]
    by_cases hdir : isDir s.fs base (done ++ [name]) = true
    · rw [if_pos hdir]
      simp only [madeNext_of_isDir hdir]
      have happend : done ++ name :: rest = done ++ [name] ++ rest := by simp
      rw [happend]
      exact ih hrest
    · rw [Bool.not_eq_true] at hdir
      simp only [hdir, Bool.false_eq_true, if_false, madeNext_of_not_isDir hdir, wp_bind,
        wp_makeDir]
      refine ⟨fun v hv => ?_, fun hnone => .inl ⟨trivial, ?_⟩⟩
      · split
        case isTrue hdenied =>
          refine .inl ⟨trivial, ?_⟩
          rintro loc ⟨hallowed, v', hv', rfl⟩
          rw [hv, Option.some.injEq] at hv'
          rw [← hv', hdenied] at hallowed
          cases hallowed
        case isFalse hallowed =>
          rw [Bool.not_eq_true] at hallowed
          refine wp_mono (wp_makeDirs_fresh (fresh_add hv) hrest) ?_ ?_
          · rintro _ s' ⟨hext, l, hfresh, hl⟩
            rw [List.append_assoc] at hfresh
            exact .inr ⟨v.loc, ⟨hallowed, v, hv, rfl⟩, .of_make hext, l, hfresh, hl⟩
          · exact fun _ s' hext => .inr ⟨v.loc, ⟨hallowed, v, hv, rfl⟩, .of_make hext⟩
      · rintro loc ⟨-, v, hv, -⟩
        rw [hnone] at hv
        cases hv

theorem dirNames_prefix_names : p.dirNames <+: names p.rest := by
  unfold PathBuf.dirNames
  split
  · exact List.dropLast_prefix _
  · exact List.prefix_rfl

theorem firstMade_iff {loc : Location} : FirstMade s.host s.denied p loc ↔
    NulFree p.rest ∧ MadeNext s p.base [] p.dirNames loc := by
  refine and_congr_right fun _ => and_congr_right fun _ => exists₂_congr fun q v => ?_
  rw [List.nil_append]
  refine ⟨fun h => ⟨?_, h⟩, And.right⟩
  rintro rfl
  cases h.2.1

/-- **Where there is a directory, none is made.** -/
theorem not_firstMade_of_isDir (h : isDir s.fs p.base (names p.rest) = true) (loc : Location) :
    ¬ FirstMade s.host s.denied p loc := by
  rintro ⟨-, -, q, v, hpre, hv, -⟩
  obtain ⟨l, hwalk, -⟩ := isDir_iff.mp h
  obtain ⟨more, hmore⟩ := hpre.trans dirNames_prefix_names
  rw [← hmore] at hwalk
  rw [dirAt_eq_none hwalk] at hv
  cases hv

theorem createDirAll_of_isDir (hnul : NulFree p.rest)
    (h : isDir s.fs p.base (names p.rest) = true) : createDirAll p s = .ok () s := by
  refine ok_of_wp ?_
  simp only [createDirAll, wp_bind, wp_ensure, decide_eq_true hnul, wp_get, h, if_true, wp_pure,
    and_self, forall_const, reduceCtorEq, false_implies]

/-- **`create_dir_all` makes the first directory that it can, and then only what is below it.** -/
theorem wp_createDirAll (hnames : NulFree p.rest → ∀ n ∈ names p.rest, IsName n) :
    wp (createDirAll p)
      (fun _ s' => NulFree p.rest ∧ ((s' = s ∧ ∀ loc, ¬ FirstMade s.host s.denied p loc) ∨
        ∃ loc, FirstMade s.host s.denied p loc ∧ First s s' loc ∧
          ∃ l, Fresh s'.fs p.base p.dirNames l ∧ loc <+: l))
      (fun _ s' => ¬ (NulFree p.rest ∧ isDir s.fs p.base (names p.rest) = true) ∧
        ((s' = s ∧ ∀ loc, ¬ FirstMade s.host s.denied p loc) ∨
          ∃ loc, FirstMade s.host s.denied p loc ∧ First s s' loc)) s := by
  by_cases hnul : NulFree p.rest
  · by_cases hdir : isDir s.fs p.base (names p.rest) = true
    · rw [wp_iff_of_ok (createDirAll_of_isDir hnul hdir)]
      exact ⟨hnul, .inl ⟨rfl, not_firstMade_of_isDir hdir⟩⟩
    · have hmade : ∀ loc, FirstMade s.host s.denied p loc ↔ MadeNext s p.base [] p.dirNames loc :=
        fun loc => firstMade_iff.trans (and_iff_right hnul)
      simp only [createDirAll, wp_bind, wp_ensure, decide_eq_true hnul, wp_get, hdir, hmade,
        Bool.false_eq_true, if_false, forall_const, reduceCtorEq, false_implies, and_true]
      refine wp_mono (wp_makeDirs fun n hn => hnames hnul n (dirNames_prefix_names.subset hn)) ?_ ?_
      · intro _ s' h
        refine ⟨fun _ => ⟨hnul, h⟩, fun _ => ⟨And.right, h.imp_right ?_⟩⟩
        exact Exists.imp fun loc hmade => ⟨hmade.1, hmade.2.1⟩
      · exact fun _ s' h => ⟨And.right, h⟩
  · simp only [createDirAll, wp_bind, wp_ensure, decide_eq_false hnul]
    refine ⟨fun h => absurd h Bool.false_ne_true, fun _ => ⟨fun h => hnul h.1, .inl ⟨trivial, ?_⟩⟩⟩
    exact fun loc h => hnul h.1

/-- There is one place at most. -/
theorem firstMade_unique {h : Host} {denied : Access → Bool} {loc loc' : Location}
    (hloc : FirstMade h denied p loc) (hloc' : FirstMade h denied p loc') : loc = loc' := by
  obtain ⟨-, -, q, v, hpre, hv, rfl⟩ := hloc
  obtain ⟨-, -, q', v', hpre', hv', rfl⟩ := hloc'
  have hlonger : ∀ {q q' : List String} {v v' : FileSystem.Vacancy h.fs}, q <+: q' →
      h.fs.dirAt maxLinks p.base q = some v → h.fs.dirAt maxLinks p.base q' = some v' →
        v.loc = v'.loc := by
    rintro q _ v v' ⟨more, rfl⟩ hv hv'
    by_cases hmore : more = []
    · subst hmore
      rw [List.append_nil, hv, Option.some.injEq] at hv'
      rw [hv']
    · obtain ⟨l, hwalk, -⟩ := isDir_iff.mp (isDir_of_dirAt hv' hmore)
      rw [← List.append_nil q] at hwalk
      rw [dirAt_eq_none hwalk] at hv
      cases hv
  rcases List.prefix_or_prefix_of_prefix hpre hpre' with hle | hle
  · exact hlonger hle hv hv'
  · exact (hlonger hle hv' hv).symm

end Runs

/-! ## What is resolved -/

section Resolved

variable {fs : FileSystem} {root relPath : String} {p parent : PathBuf} {r loc : Location}

/-- **What is there is in the root.** -/
theorem prefix_of_resolved
    (hroot : (PathBuf.mk [] (Foundations.pieces root)).canonicalize fs = some r)
    (hres : safeResolve fs root relPath = .ok p) (hloc : p.canonicalize fs = some loc) :
    r <+: loc := by
  obtain ⟨r', hroot', -, ⟨loc', -, hpre, rfl⟩ | ⟨hwalk, rfl⟩⟩ := safeResolve_ok hres
  · rw [canonicalize_mk, FileSystem.walk_nil, Option.some.injEq] at hloc
    rw [hroot, Option.some.injEq] at hroot'
    rwa [hroot', ← hloc]
  · rw [canonicalize_mk, hwalk] at hloc
    cases hloc

/-- The names of a resolved path lead down. -/
theorem names_of_resolved (hres : safeResolve fs root relPath = .ok p) :
    ∀ n ∈ names p.rest, n ≠ ".." ∧ '/' ∉ n.toList := by
  obtain ⟨r, -, hup, ⟨loc, -, -, rfl⟩ | ⟨-, rfl⟩⟩ := safeResolve_ok hres
  · exact List.forall_mem_nil _
  · intro n hn
    dsimp only at hn
    have hmem := (List.mem_filter.mp hn).1
    refine ⟨ne_of_mem_of_not_mem hmem hup, fun hslash => ?_⟩
    obtain ⟨piece, hpiece, rfl⟩ := List.mem_map.mp hmem
    rw [String.toList_ofList] at hslash
    exact of_decide_eq_false (not_of_mem_splitOnP hpiece hslash) rfl

/-! ## The parent -/

theorem not_stays_of_mem_names {ps : List String} {n : String} (hn : n ∈ names ps) :
    ¬ stays n = true := by
  simpa using (List.mem_filter.mp hn).2

/-- The parent of a path, if that has names, is their path up to the last. -/
theorem parent_cases (h : p.parent = some parent) :
    (names p.rest = [] ∧ ∃ name, p.base = parent.base ++ [name] ∧ parent.rest = []) ∨
      ∃ name, parent.base = p.base ∧ names p.rest = parent.rest ++ [name] := by
  unfold PathBuf.parent at h
  split at h
  case isTrue hnames =>
    obtain rfl := Option.some.inj h
    exact .inr ⟨_, rfl, (List.dropLast_append_getLast hnames).symm⟩
  case isFalse hnames =>
    rw [not_not] at hnames
    split at h
    case isTrue hbase =>
      obtain rfl := Option.some.inj h
      exact .inl ⟨hnames, _, (List.dropLast_append_getLast hbase).symm, rfl⟩
    case isFalse => cases h

theorem not_stays_of_parent (h : p.parent = some parent) : ∀ n ∈ parent.rest, ¬ stays n = true := by
  intro n hn
  rcases parent_cases h with ⟨-, name, -, hrest⟩ | ⟨name, -, hnames⟩
  · rw [hrest] at hn
    cases hn
  · exact not_stays_of_mem_names (hnames ▸ List.mem_append_left _ hn)

theorem names_parent (h : p.parent = some parent) : names parent.rest = parent.rest :=
  List.filter_eq_self.mpr fun n hn => by simpa using not_stays_of_parent h n hn

theorem dirNames_parent (h : p.parent = some parent) : parent.dirNames = parent.rest := by
  rw [PathBuf.dirNames, names_parent h, if_neg]
  intro hdot
  have hmem := (List.rdropWhile_prefix _ _).subset (List.mem_of_getLast? hdot)
  exact not_stays_of_parent h "." hmem rfl

theorem mem_names_of_mem_parent (h : p.parent = some parent) {n : String} (hn : n ∈ parent.rest) :
    n ∈ names p.rest := by
  rcases parent_cases h with ⟨-, name, -, hrest⟩ | ⟨name, -, hnames⟩
  · rw [hrest] at hn
    cases hn
  · rw [hnames]
    exact List.mem_append_left _ hn

theorem isName_of_mem_names {n : String} (hn : n ∈ names p.rest)
    (hnames : ∀ n ∈ names p.rest, n ≠ ".." ∧ '/' ∉ n.toList) (hnul : '\x00' ∉ n.toList) :
    IsName n := by
  have hstays := not_stays_of_mem_names hn
  rw [stays, Bool.or_eq_true, decide_eq_true_eq, decide_eq_true_eq, not_or] at hstays
  exact ⟨hstays.1, hstays.2, (hnames n hn).1, (hnames n hn).2, hnul⟩

theorem isName_of_parent (h : p.parent = some parent)
    (hnames : ∀ n ∈ names p.rest, n ≠ ".." ∧ '/' ∉ n.toList) (hnul : NulFree parent.rest) :
    ∀ n ∈ names parent.rest, IsName n := by
  rw [names_parent h]
  exact fun n hn => isName_of_mem_names (mem_names_of_mem_parent h hn) hnames (hnul n hn)

theorem eq_nil_of_parent (h : p.parent = none) : p.base = [] ∧ names p.rest = [] := by
  unfold PathBuf.parent at h
  split at h
  case isTrue => cases h
  case isFalse hnames =>
    split at h
    case isTrue => cases h
    case isFalse hbase => exact ⟨not_not.mp hbase, not_not.mp hnames⟩

/-! ## The file that is opened -/

theorem openAt_of_names_eq_nil (h : p.openAt fs = some loc) (hnames : names p.rest = []) :
    loc = p.base ∧ ∃ data, fs.node p.base = some (.file data) := by
  unfold PathBuf.openAt at h
  split at h
  · split at h
    · rename_i data hfile
      exact ⟨(Option.some.inj h).symm, data, hfile⟩
    · cases h
  · have hfile : p.fileNames = [] := by
      rw [PathBuf.fileNames, hnames, ite_self]
    rw [hfile, FileSystem.openAt_nil] at h
    cases h

theorem openAt_of_names {q : List String} {name : String} (h : p.openAt fs = some loc)
    (hnames : names p.rest = q ++ [name]) :
    fs.openAt maxLinks p.base (q ++ [name]) = some loc ∧
      ((fs.node loc).isSome = true ∨ (fs.vacancy loc).isSome = true) := by
  unfold PathBuf.openAt at h
  split at h
  · rename_i hrest
    rw [hrest] at hnames
    exact absurd hnames.symm (List.append_ne_nil_of_right_ne_nil _ (List.cons_ne_nil _ _))
  · obtain ⟨hopen, hthere⟩ := Option.filter_eq_some_iff.mp h
    rw [Bool.or_eq_true] at hthere
    unfold PathBuf.fileNames at hopen
    split at hopen
    · rw [FileSystem.openAt_nil] at hopen
      cases hopen
    · exact ⟨hnames ▸ hopen, hthere⟩

/-- **A file is opened in a directory that is there.** -/
theorem isDir_of_openAt (hparent : p.parent = some parent) (h : p.openAt fs = some loc)
    (hnames : ∀ n ∈ names p.rest, n ≠ ".." ∧ '/' ∉ n.toList) :
    isDir fs parent.base parent.rest = true := by
  rw [isDir_iff]
  rcases parent_cases hparent with ⟨hempty, name, hbase, hrest⟩ | ⟨name, hbase, hsplit⟩
  · obtain ⟨-, data, hfile⟩ := openAt_of_names_eq_nil h hempty
    rw [hbase] at hfile
    rw [hrest]
    exact ⟨parent.base, FileSystem.walk_nil, FileSystem.folder_of_child (by rw [hfile]; rfl)⟩
  · obtain ⟨hopen, hthere⟩ := openAt_of_names h hsplit
    have hname : name ∈ names p.rest := by
      rw [hsplit]
      exact List.mem_append_right _ (List.mem_singleton_self _)
    obtain ⟨l, hwalk, hfound⟩ :=
      FileSystem.exists_of_openAt (not_stays_of_mem_names hname) (hnames name hname).1 hopen
    refine ⟨l, hbase ▸ hwalk, ?_⟩
    rcases hfound with rfl | ⟨target, hlink⟩
    · rcases hthere with hthere | hvacant
      · exact FileSystem.folder_of_child hthere
      · obtain ⟨v, hv⟩ := Option.isSome_iff_exists.mp hvacant
        exact folder_of_vacancy (vacancy_eq_some hv)
    · exact FileSystem.folder_of_child (by rw [hlink]; rfl)

/-- …and in a new directory where it is named. -/
theorem prefix_of_openAt {l : Location} (hparent : p.parent = some parent)
    (hfresh : Fresh fs parent.base parent.rest l) (h : p.openAt fs = some loc)
    (hnames : ∀ n ∈ names p.rest, n ≠ ".." ∧ '/' ∉ n.toList) : l <+: loc := by
  rcases parent_cases hparent with ⟨hempty, name, hbase, hrest⟩ | ⟨name, hbase, hsplit⟩
  · obtain ⟨rfl, -⟩ := openAt_of_names_eq_nil h hempty
    have hwalk := hfresh.walk
    rw [hrest, FileSystem.walk_nil, Option.some.injEq] at hwalk
    rw [← hwalk, hbase]
    exact List.prefix_append _ _
  · have hname : name ∈ names p.rest := by
      rw [hsplit]
      exact List.mem_append_right _ (List.mem_singleton_self _)
    rw [hbase] at hfresh
    rw [hfresh.openAt (not_stays_of_mem_names hname) (hnames name hname).1 (openAt_of_names h hsplit).1]
    exact List.prefix_append _ _

end Resolved

/-! ## What is touched -/

/-- Something is done at each of the places, and all that is done is done at them and below. -/
structure Spans (P : Location → Prop) (accesses : List Access) : Prop where
  reached : ∀ loc, P loc → ∃ a ∈ accesses, a.loc = loc
  below : ∀ a ∈ accesses, ∃ loc, P loc ∧ loc <+: a.loc

namespace Spans

variable {P : Location → Prop} {accesses : List Access} {r loc : Location}

theorem prefix_iff (h : Spans P accesses) :
    (∀ a ∈ accesses, r <+: a.loc) ↔ ∀ loc, P loc → r <+: loc := by
  constructor
  · intro hall loc hloc
    obtain ⟨a, ha, rfl⟩ := h.reached loc hloc
    exact hall a ha
  · intro hall a ha
    obtain ⟨loc, hloc, hpre⟩ := h.below a ha
    exact (hall loc hloc).trans hpre

theorem nil (h : ∀ loc, ¬ P loc) : Spans P [] :=
  ⟨fun loc hloc => absurd hloc (h loc), List.forall_mem_nil _⟩

theorem single (hP : P loc) (hone : ∀ loc', P loc' → loc' = loc)
    (hreached : ∃ a ∈ accesses, a.loc = loc) (hbelow : ∀ a ∈ accesses, loc <+: a.loc) :
    Spans P accesses :=
  ⟨fun loc' hloc' => hone loc' hloc' ▸ hreached, fun a ha => ⟨loc, hP, hbelow a ha⟩⟩

end Spans

section Operations

variable {s s' : System} {root relPath : String} {p parent : PathBuf} {loc l : Location}
  {fate : Agent.Fate} {Q : Location → System → Prop} {E : FsError → System → Prop}

theorem Extends.below (h : Extends s s' loc) (hs : s.accesses = []) :
    ∀ a ∈ s'.accesses, loc <+: a.loc := by
  obtain ⟨more, haccesses, hmore⟩ := h
  rwa [haccesses, hs]

theorem Extends.opened (s : System) (loc : Location) : Extends s (s.opened loc) loc := by
  unfold System.opened
  split
  · rename_i v hv
    exact .make v _ (vacancy_eq_some hv ▸ List.prefix_rfl)
  · exact .refl

theorem Extends.write (s : System) (loc : Location) (data : Bytes) :
    Extends s (s.write loc data) loc :=
  ⟨[.modify loc], rfl, fun a ha => by rw [List.mem_singleton.mp ha]; exact List.prefix_rfl⟩

theorem wp_openFile : wp (openFile p fate) Q E s ↔
    (∀ loc, p.openAt s.fs = some loc → if fate = .unopened then E .io s else Q loc (s.opened loc)) ∧
      (p.openAt s.fs = none → E .io s) := by
  simp only [openFile, wp_bind, wp_get, wp_okOr, wp_ensure, wp_set, wp_pure]
  refine and_congr_left fun _ => forall₂_congr fun loc _ => ?_
  by_cases hfate : fate = .unopened <;> simp [hfate]

/-- **`mkdir` touches what it makes.** -/
theorem spans_mkdir (hs : s.accesses = []) (hres : safeResolve s.fs root relPath = .ok p) :
    wp (Handler.mkdir root relPath)
      (fun _ s' => Spans (Reaches s.host s.denied p · .mkdir) s'.accesses)
      (fun _ s' => Spans (Reaches s.host s.denied p · .mkdir) s'.accesses) s := by
  have hnames : NulFree p.rest → ∀ n ∈ names p.rest, IsName n := fun hnul n hn =>
    isName_of_mem_names hn (names_of_resolved hres) (hnul n (List.mem_filter.mp hn).1)
  simp only [Handler.mkdir, Handler.resolve, wp_bind, wp_get, wp_ofExcept, hres, Except.ok.injEq,
    forall_eq', reduceCtorEq, false_implies, implies_true, and_true]
  cases hthere : p.canonicalize s.fs with
  | some loc =>
    rw [Option.isSome_some, if_pos rfl, wp_pure, hs]
    exact .nil fun _ h => by simp [Reaches, hthere] at h
  | none =>
    rw [Option.isSome_none, if_neg Bool.false_ne_true, wp_bind]
    have hspans : ∀ s', (s' = s ∧ ∀ loc, ¬ FirstMade s.host s.denied p loc) ∨
        (∃ loc, FirstMade s.host s.denied p loc ∧ First s s' loc) →
          Spans (Reaches s.host s.denied p · .mkdir) s'.accesses := by
      rintro s' (⟨rfl, hnone⟩ | ⟨loc, hmade, hfirst⟩)
      · rw [hs]
        exact .nil fun loc h => hnone loc h.2
      · exact .single ⟨hthere, hmade⟩ (fun loc' h => firstMade_unique h.2 hmade)
          ⟨_, hfirst.mem, rfl⟩ (hfirst.later.below hs)
    refine wp_mono (wp_createDirAll hnames) (fun _ s' h => ?_) fun _ s' h => hspans s' h.2
    exact hspans s' (h.2.imp_right (Exists.imp fun loc hmade => ⟨hmade.1, hmade.2.1⟩))

variable {offset : ℕ} {data : Bytes}

/-- What is opened is written to, and nothing else is touched. -/
theorem wp_writeOpened {P : System → Prop}
    (hopened : ∀ loc, p.openAt s.fs = some loc → fate ≠ .unopened →
      ∀ s', Access.modify loc ∈ s'.accesses → Extends s s' loc → P s')
    (helse : (∀ loc, p.openAt s.fs = some loc → fate = .unopened) → P s) :
    wp (Handler.writeOpened relPath p offset data fate) (fun _ => P) (fun _ => P) s := by
  simp only [Handler.writeOpened, wp_bind, wp_openFile, wp_get, wp_set, wp_ensure, wp_pure]
  refine ⟨fun loc hloc => ?_, fun hnone => helse fun loc hloc => ?_⟩
  · split
    case isTrue hfate => exact helse fun _ _ => hfate
    case isFalse hfate =>
      have hwritten : ∀ file, P ((s.opened loc).write loc file) := fun file =>
        hopened loc hloc hfate _ (List.mem_append_right _ (List.mem_singleton_self _))
          ((Extends.opened s loc).trans (.write _ _ file) List.prefix_rfl)
      exact ⟨fun _ => hwritten _, fun _ => hwritten _⟩
  · rw [hnone] at hloc
    cases hloc

/-- Where the parent is there, nothing is made, and a file is opened at most. -/
theorem spans_of_isDir (hs : s.accesses = []) (hparent : p.parent = some parent)
    (hnul : NulFree parent.rest) (hdir : isDir s.fs parent.base parent.rest = true) :
    wp (createDirAll parent)
      (fun _ => wp (Handler.writeOpened relPath p offset data fate)
        (fun _ s' => Spans (Reaches s.host s.denied p · (.writeChunk offset data fate)) s'.accesses)
        (fun _ s' => Spans (Reaches s.host s.denied p · (.writeChunk offset data fate)) s'.accesses))
      (fun _ s' => Spans (Reaches s.host s.denied p · (.writeChunk offset data fate)) s'.accesses)
      s := by
  have hdir' : isDir s.fs parent.base (names parent.rest) = true := by rwa [names_parent hparent]
  rw [wp_iff_of_ok (createDirAll_of_isDir hnul hdir')]
  have hreaches : ∀ loc, Reaches s.host s.denied p loc (.writeChunk offset data fate) →
      fate ≠ .unopened ∧ p.openAt s.fs = some loc := by
    rintro loc ⟨parent', hsome, hmade | ⟨-, hfate, hopen⟩⟩
    · obtain rfl := Option.some.inj (hparent.symm.trans hsome)
      exact absurd hmade (not_firstMade_of_isDir hdir' loc)
    · exact ⟨hfate, hopen⟩
  refine wp_writeOpened (fun loc hopen hfate s' hmem hlater => ?_) fun helse => ?_
  · exact .single ⟨parent, hparent, .inr ⟨hnul, hfate, hopen⟩⟩
      (fun loc' h => Option.some.inj ((hreaches loc' h).2.symm.trans hopen)) ⟨_, hmem, rfl⟩
      (hlater.below hs)
  · rw [hs]
    exact .nil fun loc h => (hreaches loc h).1 (helse loc (hreaches loc h).2)

/-- **`write_chunk` touches what it makes, or what it opens.** -/
theorem spans_writeChunk (hs : s.accesses = []) (hres : safeResolve s.fs root relPath = .ok p) :
    wp (Handler.writeChunk root relPath offset data fate)
      (fun _ s' => Spans (Reaches s.host s.denied p · (.writeChunk offset data fate)) s'.accesses)
      (fun _ s' => Spans (Reaches s.host s.denied p · (.writeChunk offset data fate)) s'.accesses)
      s := by
  have hnames := names_of_resolved hres
  simp only [Handler.writeChunk, Handler.resolve, wp_bind, wp_get, wp_ofExcept, hres,
    Except.ok.injEq, forall_eq', reduceCtorEq, false_implies, implies_true, and_true]
  cases hparent : p.parent with
  | none =>
    change wp (Handler.writeOpened relPath p offset data fate) _ _ s
    refine wp_writeOpened (fun loc hloc _ _ _ _ => ?_) fun _ => ?_
    · obtain ⟨hbase, hempty⟩ := eq_nil_of_parent hparent
      obtain ⟨-, data, hfile⟩ := openAt_of_names_eq_nil hloc hempty
      rw [hbase] at hfile
      cases hfile
    · rw [hs]
      refine .nil ?_
      rintro loc ⟨parent, hsome, -⟩
      rw [hparent] at hsome
      cases hsome
  | some parent =>
    change wp (createDirAll parent)
      (fun _ => wp (Handler.writeOpened relPath p offset data fate) _ _) _ s
    by_cases hdir : NulFree parent.rest ∧ isDir s.fs parent.base parent.rest = true
    · exact spans_of_isDir hs hparent hdir.1 hdir.2
    · have hreaches : ∀ loc, Reaches s.host s.denied p loc (.writeChunk offset data fate) ↔
          FirstMade s.host s.denied parent loc := by
        refine fun loc => ⟨?_, fun h => ⟨parent, hparent, .inl h⟩⟩
        rintro ⟨parent', hsome, hmade | ⟨hnul, -, hopen⟩⟩
        all_goals obtain rfl := Option.some.inj (hparent.symm.trans hsome)
        · exact hmade
        · exact absurd ⟨hnul, isDir_of_openAt hparent hopen hnames⟩ hdir
      simp only [hreaches]
      have hone : ∀ {loc s'}, FirstMade s.host s.denied parent loc → First s s' loc →
          Spans (FirstMade s.host s.denied parent) s'.accesses := fun hmade hfirst =>
        .single hmade (fun _ h => firstMade_unique h hmade) ⟨_, hfirst.mem, rfl⟩
          (hfirst.later.below hs)
      have hnone : (∀ loc, ¬ FirstMade s.host s.denied parent loc) →
          Spans (FirstMade s.host s.denied parent) s.accesses := fun h => hs ▸ .nil h
      refine wp_mono (wp_createDirAll (isName_of_parent hparent hnames)) ?_ ?_
      · rintro _ s' ⟨hnul, ⟨rfl, hno⟩ | ⟨loc, hmade, hfirst, l, hfresh, hl⟩⟩
        · refine wp_writeOpened (fun loc hopen _ _ _ _ => ?_) fun _ => hnone hno
          exact absurd ⟨hnul, isDir_of_openAt hparent hopen hnames⟩ hdir
        · rw [dirNames_parent hparent] at hfresh
          refine wp_writeOpened (fun file hopen _ s'' _ hlater => ?_) fun _ => hone hmade hfirst
          have hpre : loc <+: file := hl.trans (prefix_of_openAt hparent hfresh hopen hnames)
          exact hone hmade (hfirst.trans hlater hpre)
      · rintro _ s' ⟨-, ⟨rfl, hno⟩ | ⟨loc, hmade, hfirst⟩⟩
        · exact hnone hno
        · exact hone hmade hfirst

/-! ## What is only read or deleted -/

variable {r : Location}

theorem wp_access {a : Access} {Q : Unit → System → Prop} : wp (access a) Q E s ↔
    (s.denied a = false → Q () (s.touch a)) ∧ (s.denied a = true → E .io s) := by
  simp only [access, wp_bind, wp_get, wp_ensure, wp_set]
  cases s.denied a <;> simp

theorem wp_readEntries {folder : Location} (hr : r <+: folder) (ns : List String) :
    wp (Handler.readEntries relPath folder ns) (fun _ s' => Extends s s' r)
      (fun _ s' => Extends s s' r) s := by
  induction ns generalizing s with
  | nil => exact .refl
  | cons name ns ih =>
    rw [Handler.readEntries, wp_bind, wp_get]
    split
    · exact ih
    · simp only [wp_bind, wp_set, wp_pure]
      have htouch : Extends s (s.touch (.read (folder ++ [name]))) r :=
        .touch _ (hr.trans (List.prefix_append _ _))
      exact wp_mono ih (fun _ _ h => htouch.trans h List.prefix_rfl)
        fun _ _ h => htouch.trans h List.prefix_rfl

section Inside

variable (hroot : (PathBuf.mk [] (Foundations.pieces root)).canonicalize s.fs = some r)
include hroot

theorem wp_listDir : wp (Handler.listDir root relPath) (fun _ s' => Extends s s' r)
    (fun _ s' => Extends s s' r) s := by
  simp only [Handler.listDir, Handler.resolve, wp_bind, wp_get, wp_ofExcept, wp_okOr, wp_ensure,
    wp_access, wp_pure]
  refine ⟨fun p hres => ⟨fun folder hfolder => ?_, fun _ => .refl⟩, fun _ _ => .refl⟩
  have hpre := prefix_of_resolved hroot hres hfolder
  refine ⟨fun _ => ⟨fun _ => ?_, fun _ => .refl⟩, fun _ => .refl⟩
  have htouch : Extends s (s.touch (.read folder)) r := .touch _ hpre
  exact wp_mono (wp_readEntries hpre _) (fun _ _ h => htouch.trans h List.prefix_rfl)
    fun _ _ h => htouch.trans h List.prefix_rfl

theorem wp_stat : wp (Handler.stat root relPath) (fun _ s' => Extends s s' r)
    (fun _ s' => Extends s s' r) s := by
  rw [Handler.stat, wp_bind, wp_get]
  split
  case h_1 => exact .refl
  case h_2 => exact .refl
  case h_3 p hres =>
    split
    case h_1 => exact .refl
    case h_2 loc hloc =>
      rw [wp_bind, wp_access]
      exact ⟨fun _ => .touch _ (prefix_of_resolved hroot hres hloc), fun _ => .refl⟩

theorem wp_readChunk {bytesRead maxLength : ℕ} :
    wp (Handler.readChunk root relPath bytesRead offset maxLength) (fun _ s' => Extends s s' r)
      (fun _ s' => Extends s s' r) s := by
  simp only [Handler.readChunk, Handler.resolve, wp_bind, wp_get, wp_ofExcept, wp_okOr, wp_access,
    wp_pure]
  refine ⟨fun p hres => ⟨fun loc hloc => ?_, fun _ => .refl⟩, fun _ _ => .refl⟩
  refine ⟨fun _ _ => ⟨fun _ => ?_, fun _ => .refl⟩, fun _ => .refl⟩
  exact .touch _ (prefix_of_resolved hroot hres hloc)

theorem wp_delete {recursive : Bool} {failed : Option (List Location)} :
    wp (Handler.delete root relPath recursive failed) (fun _ s' => Extends s s' r)
      (fun _ s' => Extends s s' r) s := by
  simp only [Handler.delete, wp_bind, wp_get, wp_ofExcept]
  refine ⟨fun target htarget => ?_, fun _ _ => .refl⟩
  cases target with
  | none => exact .refl
  | some loc =>
    obtain ⟨r', hroot', -, -, hpre, -⟩ := walk_of_deleteTarget htarget
    obtain rfl := Option.some.inj (hroot.symm.trans hroot')
    have hbelow : ∀ l ∈ s.fs.below loc, r <+: l := fun l hl =>
      hpre.trans (List.isPrefixOf_iff_prefix.mp (List.mem_filter.mp hl).2)
    have hremove : ∀ fs', Extends s (s.remove loc fs') r := by
      refine fun fs' => ⟨_, List.append_assoc _ _ _, fun a ha => ?_⟩
      rcases List.mem_append.mp ha with ha | ha
      all_goals
        obtain ⟨l, hl, rfl⟩ := List.mem_map.mp ha
        exact hbelow l (List.mem_filter.mp hl).1
    simp only [wp_bind, wp_set, wp_ofExcept]
    exact ⟨fun _ _ => hremove _, fun _ _ => hremove _⟩

end Inside

end Operations

section Result

variable {h : Host} {denied : Access → Bool} {root relPath : String} {op : Operation}

/-- What holds of the accesses of every end. -/
theorem touched_of_wp {P : List Access → Prop}
    (hwp : wp (op.perform root relPath) (fun _ s' => P s'.accesses) (fun _ s' => P s'.accesses)
      ⟨h, denied, []⟩) : P (touched h denied root relPath op) :=
  wp.leaves (P := fun s' : System => P s'.accesses) hwp

/-- Where everything that is done is in the root. -/
theorem jailed_of_extends
    (hall : ∀ r, (PathBuf.mk [] (Foundations.pieces root)).canonicalize h.fs = some r →
      wp (op.perform root relPath) (fun _ s' => Extends ⟨h, denied, []⟩ s' r)
        (fun _ s' => Extends ⟨h, denied, []⟩ s' r) ⟨h, denied, []⟩) :
    Jailed h denied root relPath op := fun r hroot =>
  touched_of_wp (P := fun accesses => ∀ a ∈ accesses, r <+: a.loc)
    (wp_mono (hall r hroot) (fun _ _ hext => hext.below rfl) fun _ _ hext => hext.below rfl)

/-- **What spans the places that it reaches stays in the root exactly if these places do.** -/
theorem jailed_iff_of_spans
    (hspans : ∀ p, safeResolve h.fs root relPath = .ok p →
      wp (op.perform root relPath) (fun _ s' => Spans (Reaches h denied p · op) s'.accesses)
        (fun _ s' => Spans (Reaches h denied p · op) s'.accesses) ⟨h, denied, []⟩)
    (herror : ∀ e, safeResolve h.fs root relPath = .error e →
      wp (op.perform root relPath) (fun _ s' => s'.accesses = []) (fun _ s' => s'.accesses = [])
        ⟨h, denied, []⟩) :
    Jailed h denied root relPath op ↔
      ∀ r p, (PathBuf.mk [] (Foundations.pieces root)).canonicalize h.fs = some r →
        safeResolve h.fs root relPath = .ok p → ∀ loc, Reaches h denied p loc op → r <+: loc := by
  cases hres : safeResolve h.fs root relPath with
  | error e =>
    have htouched : touched h denied root relPath op = [] :=
      touched_of_wp (P := (· = [])) (herror e hres)
    refine ⟨fun _ _ _ _ => nofun, fun _ r _ => ?_⟩
    rw [htouched]
    exact List.forall_mem_nil _
  | ok p =>
    have hiff := fun r => (touched_of_wp (hspans p hres)).prefix_iff (r := r)
    constructor
    · intro hjailed r p' hroot hp
      obtain rfl := Except.ok.inj hp
      exact (hiff r).mp (hjailed r hroot)
    · exact fun hstays r hroot => (hiff r).mpr (hstays r p hroot rfl)

theorem jailed_mkdir_iff : Jailed h denied root relPath .mkdir ↔
    ∀ r p, (PathBuf.mk [] (Foundations.pieces root)).canonicalize h.fs = some r →
      safeResolve h.fs root relPath = .ok p → ∀ loc, Reaches h denied p loc .mkdir → r <+: loc := by
  refine jailed_iff_of_spans (fun p hres => (wp_discard _).mpr (spans_mkdir rfl hres))
    fun e hres => (wp_discard _).mpr ?_
  simp [Handler.mkdir, Handler.resolve, hres]

end Result

/-- **An operation stays in the root exactly if the first directory that it makes and the file that it
opens are there.** -/
theorem jailed_iff (h : Host) (denied : Access → Bool) (root relPath : String) (op : Operation) :
    Jailed h denied root relPath op ↔
      ∀ r p, (PathBuf.mk [] (Foundations.pieces root)).canonicalize h.fs = some r →
        safeResolve h.fs root relPath = .ok p → ∀ loc, Reaches h denied p loc op → r <+: loc := by
  cases op with
  | listDir =>
    exact iff_of_true (jailed_of_extends fun r hroot => wp_discard _ |>.mpr (wp_listDir hroot))
      fun _ _ _ _ _ => nofun
  | stat =>
    exact iff_of_true (jailed_of_extends fun r hroot => wp_discard _ |>.mpr (wp_stat hroot))
      fun _ _ _ _ _ => nofun
  | readChunk bytesRead offset maxLength =>
    exact iff_of_true (jailed_of_extends fun r hroot => wp_discard _ |>.mpr (wp_readChunk hroot))
      fun _ _ _ _ _ => nofun
  | delete recursive failed =>
    exact iff_of_true (jailed_of_extends fun r hroot => wp_discard _ |>.mpr (wp_delete hroot))
      fun _ _ _ _ _ => nofun
  | writeChunk offset data fate =>
    refine jailed_iff_of_spans (fun p hres => (wp_discard _).mpr (spans_writeChunk rfl hres))
      fun e hres => (wp_discard _).mpr ?_
    simp [Handler.writeChunk, Handler.resolve, hres]
  | mkdir => exact jailed_mkdir_iff

namespace Sample

/-- A root with a link that leads out of it. -/
def escape : FileSystem where
  entries := [(["s"], .folder), (["o"], .folder), (["s", "l"], .link "/o")]
  nodup := by decide
  placed := by decide

def escapeHost : Host := ⟨escape, fun _ => none, fun _ => false, id⟩

end Sample

/-- **A directory is made out of the root.** -/
theorem not_jailed :
    safeResolve Sample.escape "/s" "l/x/y" = .ok ⟨["s"], ["l", "x", "y"]⟩ ∧
      ¬ Jailed Sample.escapeHost (fun _ => false) "/s" "l/x/y" .mkdir := by
  have hres : safeResolve Sample.escape "/s" "l/x/y" = .ok ⟨["s"], ["l", "x", "y"]⟩ := by decide
  have hroot : (PathBuf.mk [] (Foundations.pieces "/s")).canonicalize Sample.escape
      = some ["s"] := by decide
  have hplace : (Sample.escape.dirAt maxLinks ["s"] ["l", "x"]).map (·.loc) = some ["o", "x"] := by
    decide
  obtain ⟨v, hv, hloc⟩ := Option.map_eq_some_iff.mp hplace
  have hreaches : Reaches Sample.escapeHost (fun _ => false) ⟨["s"], ["l", "x", "y"]⟩ ["o", "x"]
      .mkdir := ⟨by decide, by decide, rfl, ["l", "x"], v, by decide, hv, hloc⟩
  refine ⟨hres, fun h => ?_⟩
  exact absurd (jailed_mkdir_iff.mp h _ _ hroot hres _ hreaches) (by decide)

end Pcos.FsHandler
