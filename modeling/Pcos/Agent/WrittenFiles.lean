import Pcos.Agent.FsCommands

/-!
# Agent/WrittenFiles — what is written through links is read back (`fs_handler.rs`)

    write_chunk ──safe_resolve──▸ missing folders are made ──▸ a file is opened ──▸ bytes
    read_chunk, fs_checksum ──safe_resolve──▸ where the path leads

A write makes what is missing of the path and may open a file through a link, so that the path that it
resolved need not be where the file is.  Afterwards **the path leads to the file that was opened**
(`leads_of_wrote`), and so every later write and read comes to that one, if it is in the root.
Pieces of a content that have all been acknowledged through the control tunnel are **hashed as the
content by `fs_checksum`**, in whatever order they came (`checksum_of_upload`).
-/

namespace Pcos.FsHandler

open Foundations FileSystem

/-! ## Folders that are made -/

section Made

variable {s s' : System} {loc : Location}

theorem Made.grows (h : Made s s') : Grows s.fs s'.fs := by
  induction h with
  | refl => exact .refl
  | tail _ hstep ih =>
    obtain ⟨v, rfl⟩ := hstep
    exact ih.trans (.add v _)

theorem file_eq_some_iff {data : Bytes} : s.file loc = some data ↔
    s.fs.node loc = some (.file data) := by
  unfold System.file
  split
  · rename_i data' hnode
    rw [hnode, Option.some.injEq, Option.some.injEq, Node.file.injEq]
  · rename_i hfile
    exact iff_of_false nofun (hfile data)

theorem file_make_folder (v : FileSystem.Vacancy s.fs) : (s.make v .folder).file loc = s.file loc := by
  refine Option.ext fun data => ?_
  rw [file_eq_some_iff, file_eq_some_iff]
  change (s.fs.add v .folder).node loc = _ ↔ _
  rw [node_add]
  split
  · rename_i hloc
    rw [hloc, v.free]
    simp
  · rfl

/-- No file is another one. -/
theorem Made.file (h : Made s s') : s'.file loc = s.file loc := by
  induction h with
  | refl => rfl
  | tail _ hstep ih =>
    obtain ⟨v, rfl⟩ := hstep
    exact (file_make_folder v).trans ih

end Made

/-! ## The file that is written -/

section Written

variable {s s' s₁ : System} {root relPath : String} {offset : ℕ} {data : Bytes} {loc r : Location}
  {p : PathBuf} {fate : Agent.Fate}

/-- What is opened is a file, with the bytes that it had. -/
theorem opened_file (h : p.openAt s.fs = some loc) :
    (s.opened loc).file loc = some ((s.file loc).getD []) := by
  have hnode : (s.fs.node loc = none ∧ (s.fs.vacancy loc).isSome = true) ∨
      ∃ data, s.fs.node loc = some (.file data) := by
    unfold PathBuf.openAt at h
    split at h
    · split at h
      · rename_i data hfile
        exact .inr ⟨data, Option.some.inj h ▸ hfile⟩
      · cases h
    · obtain ⟨hopen, hthere⟩ := Option.filter_eq_some_iff.mp h
      rcases (openAt_spec hopen).1 with hnone | hfile
      · rw [hnone] at hthere
        exact .inl ⟨hnone, hthere⟩
      · exact .inr hfile
  rcases hnode with ⟨hnone, hvacant⟩ | ⟨data, hfile⟩
  · obtain ⟨v, hv⟩ := Option.isSome_iff_exists.mp hvacant
    have hloc := vacancy_eq_some hv
    have hfree : s.file loc = none := by
      rw [System.file, hnone]
    rw [System.opened, hv, hfree, file_eq_some_iff]
    change (s.fs.add v _).node loc = _
    rw [node_add, if_pos hloc.symm]
    rfl
  · have hvacant : s.fs.vacancy loc = none := by
      rw [FileSystem.vacancy, dif_neg fun h => by rw [hfile] at h; cases h.2]
    have hsome := file_eq_some_iff.mpr hfile
    rw [System.opened, hvacant]
    exact hsome.trans (by rw [hsome, Option.getD_some])

theorem grows_opened (s : System) (loc : Location) : Grows s.fs (s.opened loc).fs := by
  unfold System.opened
  split
  · exact .add _ _
  · exact .refl

/-- A later state, in which a file has been opened and bytes are laid over those that it had. -/
structure Wrote (s : System) (root relPath : String) (offset : ℕ) (data : Bytes) (loc : Location)
    (s' : System) : Prop where
  opened : ∃ p fs₁, safeResolve s.fs root relPath = .ok p ∧ Grows s.fs fs₁ ∧
    p.openAt fs₁ = some loc ∧ Grows fs₁ s'.fs
  file : s'.file loc = some (writeAt 0 ((s.file loc).getD []) offset data)

theorem wp_writeOpened_wrote (hres : safeResolve s.fs root relPath = .ok p) (hmade : Made s s₁) :
    wp (Handler.writeOpened relPath p offset data fate)
      (fun _ s' => ∃ loc, Wrote s root relPath offset data loc s') (fun _ _ => True) s₁ := by
  simp only [Handler.writeOpened, wp_bind, wp_openFile, wp_get, wp_set, wp_ensure, wp_pure]
  refine ⟨fun loc hopen => ?_, fun _ => trivial⟩
  split
  · trivial
  · refine ⟨fun hdone => ?_, fun _ => trivial⟩
    obtain rfl := of_decide_eq_true hdone
    have hfile := opened_file hopen
    refine ⟨loc, ⟨p, s₁.fs, hres, hmade.grows, hopen, ?_⟩, file_eq_some_iff.mpr ?_⟩
    · exact (grows_opened s₁ loc).trans (.rewrite (file_eq_some_iff.mp hfile))
    · rw [hmade.file] at hfile
      rw [hfile]
      exact node_rewrite_self (file_eq_some_iff.mp hfile)

/-- **What a write does that succeeds**: it makes folders, opens a file, and lays the bytes over it. -/
theorem wp_writeChunk_wrote : wp (Handler.writeChunk root relPath offset data fate)
    (fun _ s' => ∃ loc, Wrote s root relPath offset data loc s') (fun _ _ => True) s := by
  simp only [Handler.writeChunk, Handler.resolve, wp_bind, wp_get, wp_ofExcept]
  refine ⟨fun p hres => ?_, fun _ _ => trivial⟩
  cases p.parent with
  | none => exact wp_writeOpened_wrote hres .refl
  | some parent =>
    exact wp_mono wp_createDirAll_made (fun _ _ hmade => wp_writeOpened_wrote hres hmade)
      fun _ _ _ => trivial

/-! ## Where the path leads -/

/-- The path is one that can be resolved in the root, and it leads to the location. -/
structure Leads (fs : FileSystem) (root relPath : String) (r loc : Location) : Prop where
  root : (PathBuf.mk [] (Foundations.pieces root)).canonicalize fs = some r
  drive : isDrive (clean relPath) = false
  up : ".." ∉ Foundations.pieces (clean relPath)
  walk : fs.walk maxLinks r (Foundations.pieces (clean relPath)) = some loc

theorem Leads.grow {fs fs' : FileSystem} (h : Leads fs root relPath r loc) (hgrows : Grows fs fs') :
    Leads fs' root relPath r loc := by
  refine ⟨?_, h.drive, h.up, walk_grow hgrows h.walk⟩
  have hroot : fs.walk maxLinks [] (Foundations.pieces root) = some r := canonicalize_mk _ _ ▸ h.root
  rw [canonicalize_mk]
  exact walk_grow hgrows hroot

/-- **What is there is resolved if it is in the root.** -/
theorem Leads.safeResolve {fs : FileSystem} (h : Leads fs root relPath r loc) :
    FsHandler.safeResolve fs root relPath =
      if r <+: loc then .ok ⟨loc, []⟩ else .error (.pathTraversal relPath) := by
  rw [FsHandler.safeResolve, h.root]
  dsimp only
  rw [if_neg (Bool.eq_false_iff.mp h.drive), if_neg h.up, canonicalize_mk, h.walk]
  simp only [List.isPrefixOf_iff_prefix]

theorem not_isDrive_of_safeResolve {fs : FileSystem} (h : safeResolve fs root relPath = .ok p) :
    isDrive (clean relPath) = false := by
  unfold FsHandler.safeResolve at h
  split at h
  · cases h
  · dsimp only at h
    split at h
    · cases h
    · rename_i hdrive
      exact Bool.eq_false_iff.mpr hdrive

theorem walk_of_fileAt {fs fs' : FileSystem} {ps : List String} (hgrows : Grows fs fs')
    (hopen : (PathBuf.mk r ps).openAt fs = some loc) (hfile : fs'.node loc = some (.file data)) :
    fs'.walk maxLinks r ps = some loc := by
  unfold PathBuf.openAt at hopen
  split at hopen
  · rename_i hrest
    obtain rfl : ps = [] := hrest
    split at hopen
    · obtain rfl := Option.some.inj hopen
      exact FileSystem.walk_nil
    · cases hopen
  · have hopen := (Option.filter_eq_some_iff.mp hopen).1
    unfold PathBuf.fileNames at hopen
    split at hopen
    · rw [openAt_nil] at hopen
      cases hopen
    · rename_i hlast
      obtain ⟨rest, hwalks⟩ := (openAt_spec hopen).2 fs' data hgrows hfile
      exact walk_eq_some_iff.mpr ⟨rest, hwalks.of_names (Bool.eq_false_iff.mpr hlast)⟩

/-- **After a write the path leads to the file that was opened.** -/
theorem leads_of_wrote (h : Wrote s root relPath offset data loc s') :
    ∃ r, Leads s'.fs root relPath r loc := by
  obtain ⟨p, fs₁, hres, hgrows, hopen, hgrows'⟩ := h.opened
  obtain ⟨r, hroot, hup, hp⟩ := safeResolve_ok hres
  have hdrive := not_isDrive_of_safeResolve hres
  have hgrow := hgrows.trans hgrows'
  have hroot' : (PathBuf.mk [] (Foundations.pieces root)).canonicalize s'.fs = some r := by
    rw [canonicalize_mk] at hroot ⊢
    exact walk_grow hgrow hroot
  refine ⟨r, hroot', hdrive, hup, ?_⟩
  rcases hp with ⟨loc', hwalk, -, rfl⟩ | ⟨-, rfl⟩
  · obtain ⟨rfl, -⟩ := openAt_of_names_eq_nil hopen rfl
    exact walk_grow hgrow hwalk
  · exact walk_of_fileAt hgrows' hopen (file_eq_some_iff.mp h.file)

theorem Leads.unique {fs : FileSystem} {r' loc' : Location} (h : Leads fs root relPath r loc)
    (h' : Leads fs root relPath r' loc') : r = r' ∧ loc = loc' := by
  obtain rfl := Option.some.inj (h.root.symm.trans h'.root)
  exact ⟨rfl, Option.some.inj (h.walk.symm.trans h'.walk)⟩

/-- A write to a path that leads somewhere writes there. -/
theorem Leads.wrote {r₀ loc₀ : Location} (hleads : Leads s.fs root relPath r₀ loc₀)
    (h : Wrote s root relPath offset data loc s') : loc = loc₀ ∧ Leads s'.fs root relPath r₀ loc₀ := by
  obtain ⟨r, hleads'⟩ := leads_of_wrote h
  obtain ⟨p, fs₁, -, hgrows, -, hgrows'⟩ := h.opened
  have hgrown := hleads.grow (hgrows.trans hgrows')
  exact ⟨(hleads'.unique hgrown).2, hgrown⟩

end Written

namespace Commands

/-! ## Uploads -/

section Uploads

variable {Probe : Type} (disks : Disks.Host) (policy : Disks.Policy) (defaultRoot : String)
  (storagePath relativePath : Option String)

/-- The answer to a command. -/
def answer (s : System) (req : FsRequest) (o : Outcome Probe) : Option (FsResponse Probe) :=
  match handleFsCommand disks policy defaultRoot req o { s with accesses := [] } with
  | .ok response _ => some response
  | .error _ _ => none

/-- A run in which pieces are written to one path, each with success, and nothing else is changed. -/
inductive Uploads : System → List (Event Probe) → List (ℕ × Bytes) → Prop
  | nil {s : System} : Uploads s [] []
  | write {s : System} {req : FsRequest} {o : Outcome Probe} {id : String} {result : FsResult Probe}
      {data : Bytes} {events : List (Event Probe)} {pieces : List (ℕ × Bytes)}
      (hop : req.fsOp = some .writeChunk) (hstorage : req.storagePath = storagePath)
      (hrelative : req.relativePath = relativePath)
      (hdata : Agent.base64Decode (req.dataBase64.getD "") = some data)
      (hanswer : answer disks policy defaultRoot s req o = some ⟨id, .ok result⟩)
      (h : Uploads (step disks policy defaultRoot s (.command req o)) events pieces) :
      Uploads s (.command req o :: events) ((req.offset.getD 0, data) :: pieces)
  | read {s : System} {req : FsRequest} {o : Outcome Probe} {events : List (Event Probe)}
      {pieces : List (ℕ × Bytes)} (hop : ∀ op, req.fsOp = some op → op.writes = false)
      (h : Uploads (step disks policy defaultRoot s (.command req o)) events pieces) :
      Uploads s (.command req o :: events) pieces

variable {disks policy defaultRoot storagePath relativePath} {s : System} {req : FsRequest}
  {o : Outcome Probe} {data : Bytes}

/-- An acknowledged write. -/
theorem wrote_of_answer {id : String} {result : FsResult Probe} (hop : req.fsOp = some .writeChunk)
    (hdata : Agent.base64Decode (req.dataBase64.getD "") = some data)
    (hanswer : answer disks policy defaultRoot s req o = some ⟨id, .ok result⟩) :
    disks.isForbidden policy defaultRoot (Disks.targetRoot defaultRoot req.storagePath) = false ∧
      ∃ loc, Wrote s (Disks.targetRoot defaultRoot req.storagePath) req.relPath (req.offset.getD 0)
        data loc (step disks policy defaultRoot s (.command req o)) := by
  have hwp : wp (handleFsCommand disks policy defaultRoot req o)
      (fun response s' => ∀ result, response.result = .ok result →
        disks.isForbidden policy defaultRoot (Disks.targetRoot defaultRoot req.storagePath) = false ∧
        ∃ loc, Wrote { s with accesses := [] } (Disks.targetRoot defaultRoot req.storagePath)
          req.relPath (req.offset.getD 0) data loc s') (fun _ _ => True) { s with accesses := [] } := by
    rw [handleFsCommand]
    split
    case isTrue =>
      rintro result ⟨⟩
    case isFalse hforbidden =>
      simp only [perform, hop, hdata, respond, wp_bind, wp_attempt, wp_pure]
      refine wp_mono wp_writeChunk_wrote (fun _ s' h _ _ => ⟨Bool.not_eq_true _ ▸ hforbidden, h⟩) ?_
      rintro e s' - result ⟨⟩
  unfold answer at hanswer
  split at hanswer
  case h_2 => cases hanswer
  case h_1 response s' heq =>
    obtain rfl := Option.some.inj hanswer
    obtain ⟨hforbidden, loc, hwrote⟩ := hwp.of_eq heq result rfl
    have hleaves : leaves (handleFsCommand disks policy defaultRoot req o) { s with accesses := [] }
        = s' := by
      rw [leaves, heq]
    refine ⟨hforbidden, loc, ?_⟩
    rw [step, hleaves]
    exact ⟨hwrote.opened, hwrote.file⟩

/-- A command that does not write leaves the files. -/
theorem host_of_read (hop : ∀ op, req.fsOp = some op → op.writes = false) :
    (step disks policy defaultRoot s (.command req o)).host = s.host := by
  rcases step_command disks policy defaultRoot s req o with hsame | ⟨op, s', hdone, -, hsome, hstep⟩
  · rw [hsame]
  · rw [hstep]
    exact hdone.reads (hop op hsome)

theorem file_of_read (hop : ∀ op, req.fsOp = some op → op.writes = false) (loc : Location) :
    (step disks policy defaultRoot s (.command req o)).file loc = s.file loc := by
  rw [System.file, System.file, System.fs, System.fs, host_of_read hop]

/-- The bytes of a file after pieces were laid over it. -/
def laid (file : Bytes) (pieces : List (ℕ × Bytes)) : Bytes :=
  pieces.foldl (fun file x => writeAt 0 file x.1 x.2) file

variable {events : List (Event Probe)} {pieces : List (ℕ × Bytes)} {r loc : Location}

/-- Once the path leads somewhere, everything is written there. -/
theorem Uploads.file_of_leads
    (h : Uploads disks policy defaultRoot storagePath relativePath s events pieces)
    (hleads : Leads s.fs (Disks.targetRoot defaultRoot storagePath) (relativePath.getD "") r loc)
    {file : Bytes} (hfile : s.file loc = some file) :
    Leads (run (step disks policy defaultRoot) s events).fs
        (Disks.targetRoot defaultRoot storagePath) (relativePath.getD "") r loc ∧
      (run (step disks policy defaultRoot) s events).file loc = some (laid file pieces) := by
  induction h generalizing file with
  | nil => exact ⟨hleads, hfile⟩
  | write hop hstorage hrelative hdata hanswer _ ih =>
    obtain ⟨-, loc', hwrote⟩ := wrote_of_answer hop hdata hanswer
    rw [hstorage, FsRequest.relPath, hrelative] at hwrote
    obtain ⟨rfl, hleads'⟩ := hleads.wrote hwrote
    have hwritten := hwrote.file
    rw [hfile, Option.getD_some] at hwritten
    exact ih hleads' hwritten
  | read hop _ ih =>
    refine ih ?_ ((file_of_read hop loc).trans hfile)
    rwa [System.fs, host_of_read hop]

/-- **Acknowledged pieces are laid over the file that the path leads to in the end.** -/
theorem Uploads.file_eq
    (h : Uploads disks policy defaultRoot storagePath relativePath s events pieces)
    (hne : pieces ≠ []) :
    disks.isForbidden policy defaultRoot (Disks.targetRoot defaultRoot storagePath) = false ∧
    ∃ r loc, Leads (run (step disks policy defaultRoot) s events).fs
        (Disks.targetRoot defaultRoot storagePath) (relativePath.getD "") r loc ∧
      (run (step disks policy defaultRoot) s events).file loc =
        some (laid ((s.file loc).getD []) pieces) := by
  induction h with
  | nil => exact absurd rfl hne
  | write hop hstorage hrelative hdata hanswer hrest ih =>
    obtain ⟨hforbidden, loc, hwrote⟩ := wrote_of_answer hop hdata hanswer
    rw [hstorage] at hforbidden hwrote
    rw [FsRequest.relPath, hrelative] at hwrote
    obtain ⟨r, hleads⟩ := leads_of_wrote hwrote
    exact ⟨hforbidden, r, loc, hrest.file_of_leads hleads hwrote.file⟩
  | read hop _ ih =>
    obtain ⟨hforbidden, r, loc, hleads, hfile⟩ := ih hne
    rw [file_of_read hop] at hfile
    exact ⟨hforbidden, r, loc, hleads, hfile⟩

/-- Pieces of a content are laid over a file that shows it. -/
theorem laid_spec {d file : Bytes} {sent : List (ℕ × Bytes)} (hpieces : ∀ x ∈ pieces, Piece d x)
    (hshows : Shows d sent file) (hlength : file.length ≤ d.length) :
    Shows d (pieces.reverse ++ sent) (laid file pieces) ∧ (laid file pieces).length ≤ d.length := by
  induction pieces generalizing file sent with
  | nil => exact ⟨hshows, hlength⟩
  | cons x pieces ih =>
    have hx := hpieces x List.mem_cons_self
    rw [List.reverse_cons, List.append_assoc]
    exact ih (fun y hy => hpieces y (List.mem_cons_of_mem _ hy)) (hshows.write hx)
      (hx.length_writeAt_le hlength)

/-- **Pieces of a content that cover it make a file that is no longer into it.** -/
theorem laid_eq {d file : Bytes} (hpieces : ∀ x ∈ pieces, Piece d x)
    (hcover : ∀ p < d.length, Written pieces p) (hlength : file.length ≤ d.length) :
    laid file pieces = d := by
  obtain ⟨hshows, hlaid⟩ := laid_spec hpieces shows_nil hlength
  refine hshows.eq_content hlaid fun p hp => ?_
  obtain ⟨x, hx, hwritten⟩ := hcover p hp
  exact ⟨x, List.mem_append_left _ (List.mem_reverse.mpr hx), hwritten⟩

/-- **What the checksum of a path is.** -/
theorem answer_checksum {file : Bytes} (hop : req.fsOp = some .checksum)
    (hforbidden : disks.isForbidden policy defaultRoot
      (Disks.targetRoot defaultRoot req.storagePath) = false)
    (hleads : Leads s.fs (Disks.targetRoot defaultRoot req.storagePath) req.relPath r loc)
    (hfile : s.file loc = some file) (hdenied : s.denied (.read loc) = false) :
    answer disks policy defaultRoot s req o = some ⟨req.requestId.getD "",
      if r <+: loc then .ok (.sha256 (o.sha256 file))
      else .error ((FsError.pathTraversal req.relPath).display o.osError)⟩ := by
  have hreal : Leads s.fs (pathText r) req.relPath r loc :=
    ⟨canonicalize_pathText (solid_of_canonicalize hleads.root), hleads.drive, hleads.up, hleads.walk⟩
  have hwp : wp (handleFsCommand disks policy defaultRoot req o)
      (fun response _ => response = ⟨req.requestId.getD "",
        if r <+: loc then .ok (.sha256 (o.sha256 file))
        else .error ((FsError.pathTraversal req.relPath).display o.osError)⟩)
      (fun _ _ => False) { s with accesses := [] } := by
    rw [handleFsCommand, if_neg (Bool.eq_false_iff.mp hforbidden), wp_bind, perform, hop]
    dsimp only
    rw [fromRealRoot, wp_bind, wp_get, hleads.root]
    simp only [Handler.resolve, wp_bind, wp_attempt, wp_get, wp_ofExcept, hreal.safeResolve]
    by_cases hpre : r <+: loc
    · rw [if_pos hpre, if_pos hpre]
      constructor
      case right =>
        rintro _ ⟨⟩
      intro p hp
      obtain rfl := Except.ok.inj hp
      have hwalk : (PathBuf.mk loc []).canonicalize s.fs = some loc := by
        rw [canonicalize_mk, FileSystem.walk_nil]
      rw [fileHash, wp_bind, wp_get, hwalk]
      dsimp only
      rw [show System.file { s with accesses := [] } loc = some file from hfile]
      simp only [wp_bind, wp_attempt, wp_access, wp_pure]
      exact ⟨fun _ => trivial, fun h => absurd (hdenied.symm.trans h) Bool.false_ne_true⟩
    · rw [if_neg hpre, if_neg hpre]
      constructor
      · rintro _ ⟨⟩
      · rintro e ⟨⟩
        rfl
  obtain ⟨response, s', heq, rfl⟩ := exists_ok_of_wp hwp
  rw [answer, heq]

/-- **Pieces that cover a content are hashed as the content**, once they have all been acknowledged, if
the file was no longer before. -/
theorem checksum_of_upload {d : Bytes}
    (h : Uploads disks policy defaultRoot storagePath relativePath s events pieces)
    (hne : pieces ≠ []) (hpieces : ∀ x ∈ pieces, Piece d x)
    (hcover : ∀ p < d.length, Written pieces p) :
    ∃ r loc, Leads (run (step disks policy defaultRoot) s events).fs
        (Disks.targetRoot defaultRoot storagePath) (relativePath.getD "") r loc ∧
      (((s.file loc).getD []).length ≤ d.length →
        ∀ (req : FsRequest) (o : Outcome Probe), req.fsOp = some .checksum →
          req.storagePath = storagePath → req.relativePath = relativePath →
          (run (step disks policy defaultRoot) s events).denied (.read loc) = false →
          answer disks policy defaultRoot (run (step disks policy defaultRoot) s events) req o =
            some ⟨req.requestId.getD "",
              if r <+: loc then .ok (.sha256 (o.sha256 d))
              else .error ((FsError.pathTraversal req.relPath).display o.osError)⟩) := by
  obtain ⟨hforbidden, r, loc, hleads, hfile⟩ := h.file_eq hne
  refine ⟨r, loc, hleads, fun hlength req o hop hstorage hrelative hdenied => ?_⟩
  rw [laid_eq hpieces hcover hlength] at hfile
  rw [← hstorage] at hforbidden
  rw [← hstorage, ← hrelative] at hleads
  exact answer_checksum hop hforbidden hleads hfile hdenied

end Uploads

theorem checksum_of_upload_sample : ∃ r loc,
    Leads (run (step Sample.disks ⟨["/s"], []⟩ "/d") Sample.state
        [.command Sample.upload Sample.outcome]).fs "/s" "n/f" r loc ∧
      (((Sample.state.file loc).getD []).length ≤ 3 →
        ∀ (req : FsRequest) (o : Outcome Unit), req.fsOp = some .checksum →
          req.storagePath = some "/s" → req.relativePath = some "n/f" →
          (run (step Sample.disks ⟨["/s"], []⟩ "/d") Sample.state
            [.command Sample.upload Sample.outcome]).denied (.read loc) = false →
          answer Sample.disks ⟨["/s"], []⟩ "/d" (run (step Sample.disks ⟨["/s"], []⟩ "/d")
              Sample.state [.command Sample.upload Sample.outcome]) req o =
            some ⟨req.requestId.getD "",
              if r <+: loc then .ok (.sha256 (o.sha256 [1, 2, 3]))
              else .error ((FsError.pathTraversal req.relPath).display o.osError)⟩) := by
  have hpiece : ∀ x ∈ [((0 : ℕ), ([1, 2, 3] : Bytes))], Piece [1, 2, 3] x := by
    intro x hx
    rw [List.mem_singleton.mp hx]
    intro i _
    rw [Nat.zero_add]
  have hcover : ∀ p < ([1, 2, 3] : Bytes).length, Written [((0 : ℕ), ([1, 2, 3] : Bytes))] p :=
    fun p hp => ⟨_, List.mem_singleton_self _, Nat.zero_le p, by simpa using hp⟩
  have hdata : Agent.base64Decode "AQID" = some [1, 2, 3] := by decide
  have hanswer : answer Sample.disks ⟨["/s"], []⟩ "/d" Sample.state Sample.upload Sample.outcome =
      some ⟨"1", .ok (.written ⟨"n/f", 0, 3, 3⟩)⟩ := rfl
  have huploads : Uploads Sample.disks ⟨["/s"], []⟩ "/d" (some "/s") (some "n/f") Sample.state
      [.command Sample.upload Sample.outcome] [(0, [1, 2, 3])] :=
    .write rfl rfl rfl hdata hanswer .nil
  exact checksum_of_upload huploads (List.cons_ne_nil _ _) hpiece hcover

end Commands

end Pcos.FsHandler
