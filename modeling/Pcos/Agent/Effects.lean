import Mathlib.Logic.Relation
import Pcos.Agent.Jail

/-!
# Agent/Effects — what the operations on a storage root read and change (`agent/src/fs_handler.rs`)

`Reads` is a later state in which nothing has changed; `Logged` one in which whatever has changed was
touched.  With what `Agent/Jail` says of the places that are touched, **all that an operation does is
done below the root, or below what it comes to first** (`wp_perform`, `DoneBelow.node_eq`).
-/

namespace Pcos.FsHandler

open Foundations

/-! ## Roots -/

section Roots

variable {fs : FileSystem} {start root : Location} {path : String}

/-- What a path leads to is no link. -/
theorem solid_of_walk (h : fs.walk maxLinks start (Foundations.pieces path) = some root) :
    FileSystem.Solid fs root := by
  have hpieces : Foundations.pieces path ≠ [] := by
    rw [Foundations.pieces, ne_eq, List.map_eq_nil_iff]
    exact List.splitOnP_ne_nil _ _
  obtain ⟨rest, hwalks⟩ := FileSystem.walk_eq_some_iff.mp h
  exact hwalks.solid (FileSystem.solid_of_folder (FileSystem.folder_of_walk h hpieces))

/-- A root is found by its text. -/
theorem canonicalize_pathText (h : FileSystem.Solid fs root) :
    (PathBuf.mk [] (Foundations.pieces (pathText root))).canonicalize fs = some root := by
  rw [canonicalize_mk]
  exact FileSystem.walk_pathText h

end Roots

/-! ## Reading -/

/-- A later state, after which objects at a location and below have been read and nothing else has
been done. -/
structure Reads (s s' : System) (l : Location) : Prop where
  host : s'.host = s.host
  denied : s'.denied = s.denied
  accesses : ∃ more, s'.accesses = s.accesses ++ more ∧
    ∀ a ∈ more, ∃ loc, a = .read loc ∧ l <+: loc

namespace Reads

variable {s s' s'' : System} {l loc : Location}

theorem refl : Reads s s l := ⟨rfl, rfl, [], (List.append_nil _).symm, List.forall_mem_nil _⟩

theorem trans (h : Reads s s' l) (h' : Reads s' s'' l) : Reads s s'' l := by
  obtain ⟨more, haccesses, hmore⟩ := h.accesses
  obtain ⟨more', haccesses', hmore'⟩ := h'.accesses
  refine ⟨h'.host.trans h.host, h'.denied.trans h.denied, more ++ more', ?_, ?_⟩
  · rw [haccesses', haccesses, List.append_assoc]
  · exact List.forall_mem_append.mpr ⟨hmore, hmore'⟩

theorem touch (h : l <+: loc) : Reads s (s.touch (.read loc)) l :=
  ⟨rfl, rfl, [.read loc], rfl, List.forall_mem_singleton.mpr ⟨loc, rfl, h⟩⟩

end Reads

section Operations

variable {s : System} {root relPath : String} {r loc : Location} {E : FsError → System → Prop}

theorem wp_access_reads (h : r <+: loc) : wp (access (.read loc)) (fun _ s' => Reads s s' r)
    (fun _ s' => Reads s s' r) s :=
  wp_access.mpr ⟨fun _ => .touch h, fun _ => .refl⟩

theorem wp_readEntries_reads {folder : Location} (hr : r <+: folder) (ns : List String) :
    wp (Handler.readEntries relPath folder ns) (fun _ s' => Reads s s' r)
      (fun _ s' => Reads s s' r) s := by
  induction ns generalizing s with
  | nil => exact .refl
  | cons name ns ih =>
    rw [Handler.readEntries, wp_bind, wp_get]
    split
    · exact ih
    · simp only [wp_bind, wp_set, wp_pure]
      have htouch : Reads s (s.touch (.read (folder ++ [name]))) r :=
        .touch (hr.trans (List.prefix_append _ _))
      exact wp_mono ih (fun _ _ h => htouch.trans h) fun _ _ h => htouch.trans h

section Inside

variable (hroot : (PathBuf.mk [] (Foundations.pieces root)).canonicalize s.fs = some r)
include hroot

theorem wp_listDir_reads : wp (Handler.listDir root relPath) (fun _ s' => Reads s s' r)
    (fun _ s' => Reads s s' r) s := by
  simp only [Handler.listDir, Handler.resolve, wp_bind, wp_get, wp_ofExcept, wp_okOr, wp_ensure,
    wp_pure]
  refine ⟨fun p hres => ⟨fun folder hfolder => ?_, fun _ => .refl⟩, fun _ _ => .refl⟩
  have hpre := prefix_of_resolved hroot hres hfolder
  refine ⟨fun _ => wp_mono (wp_access_reads hpre) (fun _ s' hread => ?_) fun _ _ h => h,
    fun _ => .refl⟩
  exact wp_mono (wp_readEntries_reads hpre _) (fun _ _ h => hread.trans h) fun _ _ h => hread.trans h

theorem wp_stat_reads : wp (Handler.stat root relPath) (fun _ s' => Reads s s' r)
    (fun _ s' => Reads s s' r) s := by
  rw [Handler.stat, wp_bind, wp_get]
  split
  case h_1 => exact .refl
  case h_2 => exact .refl
  case h_3 p hres =>
    split
    case h_1 => exact .refl
    case h_2 loc hloc =>
      rw [wp_bind]
      exact wp_access_reads (prefix_of_resolved hroot hres hloc)

theorem wp_readChunk_reads {bytesRead offset maxLength : ℕ} :
    wp (Handler.readChunk root relPath bytesRead offset maxLength) (fun _ s' => Reads s s' r)
      (fun _ s' => Reads s s' r) s := by
  simp only [Handler.readChunk, Handler.resolve, wp_bind, wp_get, wp_ofExcept, wp_okOr, wp_pure]
  refine ⟨fun p hres => ⟨fun loc hloc => ?_, fun _ => .refl⟩, fun _ _ => .refl⟩
  exact ⟨fun _ _ => wp_access_reads (prefix_of_resolved hroot hres hloc), fun _ => .refl⟩

end Inside

theorem safeResolve_of_none {fs : FileSystem}
    (hroot : (PathBuf.mk [] (Foundations.pieces root)).canonicalize fs = none) :
    safeResolve fs root relPath = .error (.invalidRoot root) := by
  rw [safeResolve, hroot]

/-- Nothing has been done, or objects in the root have been read. -/
def ReadsIn (root : String) (s s' : System) : Prop :=
  s' = s ∨ ∃ r, (PathBuf.mk [] (Foundations.pieces root)).canonicalize s.fs = some r ∧ Reads s s' r

/-- Without a root, nothing is done. -/
theorem wp_readsIn {α : Type} {x : Handler α}
    (hnone : (PathBuf.mk [] (Foundations.pieces root)).canonicalize s.fs = none →
      wp x (fun _ s' => s' = s) (fun _ s' => s' = s) s)
    (hsome : ∀ r, (PathBuf.mk [] (Foundations.pieces root)).canonicalize s.fs = some r →
      wp x (fun _ s' => Reads s s' r) (fun _ s' => Reads s s' r) s) :
    wp x (fun _ s' => ReadsIn root s s') (fun _ s' => ReadsIn root s s') s := by
  cases hroot : (PathBuf.mk [] (Foundations.pieces root)).canonicalize s.fs with
  | none => exact wp_mono (hnone hroot) (fun _ _ => .inl) fun _ _ => .inl
  | some r =>
    exact wp_mono (hsome r hroot) (fun _ _ h => .inr ⟨r, hroot, h⟩) fun _ _ h => .inr ⟨r, hroot, h⟩

theorem wp_listDir_readsIn : wp (Handler.listDir root relPath) (fun _ s' => ReadsIn root s s')
    (fun _ s' => ReadsIn root s s') s :=
  wp_readsIn (fun hroot => by simp [Handler.listDir, Handler.resolve, safeResolve_of_none hroot])
    fun _ hroot => wp_listDir_reads hroot

theorem wp_stat_readsIn : wp (Handler.stat root relPath) (fun _ s' => ReadsIn root s s')
    (fun _ s' => ReadsIn root s s') s :=
  wp_readsIn (fun hroot => by simp [Handler.stat, safeResolve_of_none hroot])
    fun _ hroot => wp_stat_reads hroot

theorem wp_readChunk_readsIn {bytesRead offset maxLength : ℕ} :
    wp (Handler.readChunk root relPath bytesRead offset maxLength)
      (fun _ s' => ReadsIn root s s') (fun _ s' => ReadsIn root s s') s :=
  wp_readsIn (fun hroot => by simp [Handler.readChunk, Handler.resolve, safeResolve_of_none hroot])
    fun _ hroot => wp_readChunk_reads hroot

end Operations

/-! ## Changing -/

/-- A later state, after which folders have been made. -/
def Made : System → System → Prop := Relation.ReflTransGen fun s s' => ∃ v, s' = s.make v .folder

/-- A later state: an object that is another one there has been touched. -/
def Logged (s s' : System) : Prop :=
  ∃ more, s'.accesses = s.accesses ++ more ∧
    ∀ loc, s'.fs.node loc = s.fs.node loc ∨ ∃ a ∈ more, a.loc = loc

namespace Logged

variable {s s' s'' : System} {l : Location}

theorem refl : Logged s s := ⟨[], (List.append_nil _).symm, fun _ => .inl rfl⟩

theorem trans (h : Logged s s') (h' : Logged s' s'') : Logged s s'' := by
  obtain ⟨more, haccesses, hmore⟩ := h
  obtain ⟨more', haccesses', hmore'⟩ := h'
  refine ⟨more ++ more', by rw [haccesses', haccesses, List.append_assoc], fun loc => ?_⟩
  rcases hmore' loc with hsame' | ⟨a, ha, hloc⟩
  · rcases hmore loc with hsame | ⟨a, ha, hloc⟩
    · exact .inl (hsame'.trans hsame)
    · exact .inr ⟨a, List.mem_append_left _ ha, hloc⟩
  · exact .inr ⟨a, List.mem_append_right _ ha, hloc⟩

theorem make (v : FileSystem.Vacancy s.fs) (n : Node) : Logged s (s.make v n) := by
  refine ⟨[.create v.loc], rfl, fun loc => ?_⟩
  by_cases hloc : loc = v.loc
  · exact .inr ⟨_, List.mem_singleton_self _, hloc.symm⟩
  · refine .inl ((FileSystem.node_add v n).trans ?_)
    rw [if_neg hloc]

theorem opened (s : System) (loc : Location) : Logged s (s.opened loc) := by
  unfold System.opened
  split
  · exact .make _ _
  · exact .refl

theorem write (s : System) (loc : Location) (data : Bytes) : Logged s (s.write loc data) := by
  refine ⟨[.modify loc], rfl, fun l => ?_⟩
  by_cases hl : l = loc
  · exact .inr ⟨_, List.mem_singleton_self _, hl.symm⟩
  · exact .inl (FileSystem.node_rewrite_of_ne hl)

theorem of_made (h : Made s s') : Logged s s' := by
  induction h with
  | refl => exact .refl
  | tail _ hstep ih =>
    obtain ⟨v, rfl⟩ := hstep
    exact ih.trans (.make v _)

theorem of_reads (h : Reads s s' l) : Logged s s' := by
  obtain ⟨more, haccesses, -⟩ := h.accesses
  refine ⟨more, haccesses, fun loc => .inl ?_⟩
  rw [System.fs, h.host]

end Logged

section Changes

variable {s : System} {base : Location} {done rest : List String} {p : PathBuf}
  {root relPath : String} {offset : ℕ} {data : Bytes} {fate : Agent.Fate}

theorem wp_makeDirs_made : wp (makeDirs base done rest) (fun _ s' => Made s s')
    (fun _ s' => Made s s') s := by
  induction rest generalizing done s with
  | nil => exact .refl
  | cons name rest ih =>
    rw [makeDirs, wp_bind, wp_get]
    split
    · exact ih
    · simp only [wp_bind, wp_makeDir]
      refine ⟨fun v _ => ?_, fun _ => .refl⟩
      split
      · exact .refl
      · exact wp_mono ih (fun _ _ h => .head ⟨v, rfl⟩ h) fun _ _ h => .head ⟨v, rfl⟩ h

theorem wp_createDirAll_made : wp (createDirAll p) (fun _ s' => Made s s')
    (fun _ s' => Made s s') s := by
  simp only [createDirAll, wp_bind, wp_ensure, wp_get]
  refine ⟨fun _ => ?_, fun _ => .refl⟩
  split
  · exact .refl
  · simp only [wp_bind, wp_get, wp_ensure]
    exact wp_mono wp_makeDirs_made (fun _ _ h => ⟨fun _ => h, fun _ => h⟩) fun _ _ h => h

theorem wp_writeOpened_logged : wp (Handler.writeOpened relPath p offset data fate)
    (fun _ s' => Logged s s') (fun _ s' => Logged s s') s := by
  simp only [Handler.writeOpened, wp_bind, wp_openFile, wp_get, wp_set, wp_ensure, wp_pure]
  refine ⟨fun loc _ => ?_, fun _ => .refl⟩
  split
  · exact .refl
  · have hwritten := fun file => (Logged.opened s loc).trans (.write _ loc file)
    exact ⟨fun _ => hwritten _, fun _ => hwritten _⟩

theorem wp_writeChunk_logged : wp (Handler.writeChunk root relPath offset data fate)
    (fun _ s' => Logged s s') (fun _ s' => Logged s s') s := by
  simp only [Handler.writeChunk, Handler.resolve, wp_bind, wp_get, wp_ofExcept]
  refine ⟨fun p _ => ?_, fun _ _ => .refl⟩
  cases p.parent with
  | none => exact wp_writeOpened_logged
  | some parent =>
    refine wp_mono wp_createDirAll_made (fun _ s' h => ?_) fun _ _ h => .of_made h
    have hmade := Logged.of_made h
    exact wp_mono wp_writeOpened_logged (fun _ _ h' => hmade.trans h') fun _ _ h' => hmade.trans h'

theorem wp_mkdir_logged : wp (Handler.mkdir root relPath) (fun _ s' => Logged s s')
    (fun _ s' => Logged s s') s := by
  simp only [Handler.mkdir, Handler.resolve, wp_bind, wp_get, wp_ofExcept]
  refine ⟨fun p _ => ?_, fun _ _ => .refl⟩
  split
  · exact .refl
  · rw [wp_bind]
    exact wp_mono wp_createDirAll_made (fun _ _ h => .of_made h) fun _ _ h => .of_made h

/-- What is not below the target is as it was, and what is below is or has gone. -/
theorem node_delete {fs : FileSystem} {loc : Location} (recursive : Bool)
    (failed : Option (List Location)) (htarget : deleteTarget fs root relPath = .ok (some loc))
    (l : Location) : (delete fs root relPath recursive failed).2.node l = fs.node l ∨
      loc <+: l ∧ (delete fs root relPath recursive failed).2.node l = none := by
  obtain ⟨e, -, -, hnil, -⟩ := namedEntry_of_deleteTarget htarget
  have hremove : (fs.remove loc).node l = fs.node l ∨ loc <+: l ∧ (fs.remove loc).node l = none := by
    rw [FileSystem.node_remove hnil]
    split
    · rename_i hl
      exact .inr ⟨hl, rfl⟩
    · exact .inl rfl
  rw [delete, htarget]
  dsimp only
  split_ifs
  · unfold removeDirAll
    cases failed with
    | none => exact hremove
    | some gone =>
      dsimp only
      rw [node_foldl_remove _ fun h => hnil ?_]
      · split
        · rename_i hgone
          obtain ⟨g, hg, hl⟩ := hgone
          have hbelow := (List.mem_filter.mp hg).2
          rw [Bool.and_eq_true, List.isPrefixOf_iff_prefix] at hbelow
          exact .inr ⟨hbelow.1.trans hl, rfl⟩
        · exact .inl rfl
      · have hbelow := (List.mem_filter.mp h).2
        rw [Bool.and_eq_true, List.isPrefixOf_iff_prefix] at hbelow
        exact List.prefix_nil.mp hbelow.1
  · unfold removeDir
    split
    · exact hremove
    · exact .inl rfl
  · unfold removeFile
    split
    · exact hremove
    · exact .inl rfl

theorem wp_delete_logged {recursive : Bool} {failed : Option (List Location)} :
    wp (Handler.delete root relPath recursive failed) (fun _ s' => Logged s s')
      (fun _ s' => Logged s s') s := by
  simp only [Handler.delete, wp_bind, wp_get, wp_ofExcept]
  refine ⟨fun target htarget => ?_, fun _ _ => .refl⟩
  cases target with
  | none => exact .refl
  | some loc =>
    obtain ⟨e, -, -, hnil, -⟩ := namedEntry_of_deleteTarget htarget
    have hremove : Logged s (s.remove loc (delete s.fs root relPath recursive failed).2) := by
      refine ⟨_, List.append_assoc _ _ _, fun l => ?_⟩
      rcases node_delete recursive failed htarget l with hsame | ⟨hl, hgone⟩
      · exact .inl hsame
      · by_cases hl' : s.fs.node l = none
        · exact .inl (hgone.trans hl'.symm)
        · refine .inr ⟨.delete l, List.mem_append_right _ (List.mem_map.mpr ⟨l, ?_, rfl⟩), rfl⟩
          rw [List.mem_filter, decide_eq_true_eq]
          exact ⟨(FileSystem.mem_below hnil).mpr ⟨hl, hl'⟩, hgone⟩
    simp only [wp_bind, wp_set, wp_ofExcept]
    exact ⟨fun _ _ => hremove, fun _ _ => hremove⟩

end Changes

/-! ## What an operation comes to -/

/-- The places that an operation starts from: what it makes or opens first, or the root. -/
def Operation.Comes (h : Host) (denied : Access → Bool) (root relPath : String) :
    Operation → Location → Prop
  | .mkdir, top => ∃ p, safeResolve h.fs root relPath = .ok p ∧ Reaches h denied p top .mkdir
  | .writeChunk offset data fate, top => ∃ p, safeResolve h.fs root relPath = .ok p ∧
      Reaches h denied p top (.writeChunk offset data fate)
  | _, top => (PathBuf.mk [] (Foundations.pieces root)).canonicalize h.fs = some top

/-- All that has been done was done below one of the places, and what is another object was touched. -/
def DoneBelow (s : System) (tops : Location → Prop) (s' : System) : Prop :=
  (∀ a ∈ s'.accesses, ∃ top, tops top ∧ top <+: a.loc) ∧ Logged s s'

section Below

variable {h : Host} {denied : Access → Bool} {root relPath : String} {tops : Location → Prop}

theorem DoneBelow.refl {s : System} (hs : s.accesses = []) : DoneBelow s tops s := by
  refine ⟨?_, .refl⟩
  rw [hs]
  exact List.forall_mem_nil _

theorem DoneBelow.mono {tops' : Location → Prop} {s s' : System} (h : DoneBelow s tops s')
    (htops : ∀ top, tops top → tops' top) : DoneBelow s tops' s' := by
  refine ⟨fun a ha => ?_, h.2⟩
  obtain ⟨top, htop, hpre⟩ := h.1 a ha
  exact ⟨top, htops top htop, hpre⟩

theorem DoneBelow.of_readsIn {s s' : System} (hs : s.accesses = []) (hreads : ReadsIn root s s') :
    DoneBelow s (fun top => (PathBuf.mk [] (Foundations.pieces root)).canonicalize s.fs = some top)
      s' := by
  rcases hreads with rfl | ⟨r, hroot, hreads⟩
  · exact .refl hs
  · obtain ⟨more, haccesses, hmore⟩ := hreads.accesses
    refine ⟨fun a ha => ?_, .of_reads hreads⟩
    rw [haccesses, hs, List.nil_append] at ha
    obtain ⟨loc, rfl, hpre⟩ := hmore a ha
    exact ⟨r, hroot, hpre⟩

/-- What is removed is in the root. -/
theorem wp_delete_below {recursive : Bool} {failed : Option (List Location)} :
    wp (Handler.delete root relPath recursive failed)
      (fun _ s' => DoneBelow ⟨h, denied, []⟩
        (fun top => (PathBuf.mk [] (Foundations.pieces root)).canonicalize h.fs = some top) s')
      (fun _ s' => DoneBelow ⟨h, denied, []⟩
        (fun top => (PathBuf.mk [] (Foundations.pieces root)).canonicalize h.fs = some top) s')
      ⟨h, denied, []⟩ := by
  cases hroot : (PathBuf.mk [] (Foundations.pieces root)).canonicalize h.fs with
  | none =>
    have herror : deleteTarget h.fs root relPath = .error (.invalidRoot root) := by
      rw [deleteTarget, safeResolve_of_none hroot]
    simp only [Handler.delete, wp_bind, wp_get, wp_ofExcept, herror]
    refine ⟨?_, fun _ _ => .refl rfl⟩
    rintro _ ⟨⟩
  | some r =>
    have hbelow : ∀ s', Extends ⟨h, denied, []⟩ s' r ∧ Logged ⟨h, denied, []⟩ s' →
        DoneBelow ⟨h, denied, []⟩ (fun top => some r = some top) s' := fun s' hs' =>
      ⟨fun a ha => ⟨r, rfl, hs'.1.below rfl a ha⟩, hs'.2⟩
    exact wp_mono (wp_and (wp_delete (s := ⟨h, denied, []⟩) hroot) wp_delete_logged)
      (fun _ s' => hbelow s') fun _ s' => hbelow s'

/-- What is resolved first, and then spans the places that it reaches. -/
theorem wp_below_reached {α : Type} {x : Handler α} {op : Operation}
    (hspans : ∀ p, safeResolve h.fs root relPath = .ok p →
      wp x (fun _ s' => Spans (Reaches h denied p · op) s'.accesses)
        (fun _ s' => Spans (Reaches h denied p · op) s'.accesses) ⟨h, denied, []⟩)
    (herror : ∀ e, safeResolve h.fs root relPath = .error e →
      wp x (fun _ s' => s'.accesses = []) (fun _ s' => s'.accesses = []) ⟨h, denied, []⟩)
    (hlogged : wp x (fun _ s' => Logged ⟨h, denied, []⟩ s') (fun _ s' => Logged ⟨h, denied, []⟩ s')
      ⟨h, denied, []⟩) :
    wp x
      (fun _ s' => DoneBelow ⟨h, denied, []⟩
        (fun top => ∃ p, safeResolve h.fs root relPath = .ok p ∧ Reaches h denied p top op) s')
      (fun _ s' => DoneBelow ⟨h, denied, []⟩
        (fun top => ∃ p, safeResolve h.fs root relPath = .ok p ∧ Reaches h denied p top op) s')
      ⟨h, denied, []⟩ := by
  cases hres : safeResolve h.fs root relPath with
  | error e =>
    have hbelow : ∀ s' : System, s'.accesses = [] ∧ Logged ⟨h, denied, []⟩ s' →
        DoneBelow ⟨h, denied, []⟩
          (fun top => ∃ p, (.error e : Except FsError PathBuf) = .ok p ∧ Reaches h denied p top op)
          s' := by
      rintro s' ⟨hs', hlog⟩
      refine ⟨?_, hlog⟩
      rw [hs']
      exact List.forall_mem_nil _
    exact wp_mono (wp_and (herror e hres) hlogged) (fun _ s' => hbelow s') fun _ s' => hbelow s'
  | ok p =>
    have hbelow : ∀ s' : System, Spans (Reaches h denied p · op) s'.accesses ∧
        Logged ⟨h, denied, []⟩ s' → DoneBelow ⟨h, denied, []⟩
          (fun top => ∃ p', (Except.ok p : Except FsError PathBuf) = .ok p' ∧
            Reaches h denied p' top op) s' := by
      rintro s' ⟨hs', hlog⟩
      refine ⟨fun a ha => ?_, hlog⟩
      obtain ⟨top, htop, hpre⟩ := hs'.below a ha
      exact ⟨top, ⟨p, rfl, htop⟩, hpre⟩
    exact wp_mono (wp_and (hspans p hres) hlogged) (fun _ s' => hbelow s') fun _ s' => hbelow s'

variable (h denied root relPath) in
/-- **All that an operation does is done below what it comes to.** -/
theorem wp_perform (op : Operation) : wp (op.perform root relPath)
    (fun _ s' => DoneBelow ⟨h, denied, []⟩ (op.Comes h denied root relPath) s')
    (fun _ s' => DoneBelow ⟨h, denied, []⟩ (op.Comes h denied root relPath) s')
    ⟨h, denied, []⟩ := by
  cases op with
  | listDir =>
    exact (wp_discard _).mpr (wp_mono wp_listDir_readsIn (fun _ _ => .of_readsIn rfl)
      fun _ _ => .of_readsIn rfl)
  | stat =>
    exact (wp_discard _).mpr (wp_mono wp_stat_readsIn (fun _ _ => .of_readsIn rfl)
      fun _ _ => .of_readsIn rfl)
  | readChunk bytesRead offset maxLength =>
    exact (wp_discard _).mpr (wp_mono wp_readChunk_readsIn (fun _ _ => .of_readsIn rfl)
      fun _ _ => .of_readsIn rfl)
  | delete recursive failed => exact (wp_discard _).mpr wp_delete_below
  | writeChunk offset data fate =>
    refine (wp_discard _).mpr (wp_below_reached (fun p hres => spans_writeChunk rfl hres)
      (fun e hres => ?_) wp_writeChunk_logged)
    simp [Handler.writeChunk, Handler.resolve, hres]
  | mkdir =>
    refine (wp_discard _).mpr (wp_below_reached (fun p hres => spans_mkdir rfl hres)
      (fun e hres => ?_) wp_mkdir_logged)
    simp [Handler.mkdir, Handler.resolve, hres]

/-- What is below none of the places is the object that it was. -/
theorem DoneBelow.node_eq {s s' : System} (hdone : DoneBelow s tops s') (hs : s.accesses = [])
    {loc : Location} (houtside : ∀ top, tops top → ¬ top <+: loc) : s'.fs.node loc = s.fs.node loc := by
  obtain ⟨hbelow, more, haccesses, hchanged⟩ := hdone
  rcases hchanged loc with hsame | ⟨a, ha, rfl⟩
  · exact hsame
  · rw [hs, List.nil_append] at haccesses
    obtain ⟨top, htop, hpre⟩ := hbelow a (haccesses ▸ ha)
    exact absurd hpre (houtside top htop)

end Below

end Pcos.FsHandler
