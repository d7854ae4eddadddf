import Pcos.Agent.Base64Decoding
import Pcos.Agent.DiskPolicy
import Pcos.Agent.Effects

/-!
# Agent/FsCommands — operations that arrive through the control tunnel (`connection_manager.rs`)

    request ──storage_path──▸ root ──node disk policy──▸ list │ stat │ read │ probe │ checksum
                                                     ──▸ write │ delete │ mkdir

A command is carried out in the root that it names, if the policy lets it.  **What is touched over any
run of commands is touched by one that was let through, and lies below what that one comes to first**
(`accesses_explained`); **what has changed was changed by a write, a removal or a new directory**, or by
others (`changes_explained`).
-/

namespace Pcos.FsHandler.Commands

open Foundations

/-! ## Requests and answers -/

/-- The operations on files. -/
inductive FsOp
  | listDir
  | stat
  | readChunk
  | writeChunk
  | delete
  | mkdir
  | mediaProbe
  | checksum
  deriving DecidableEq

def FsOp.name : FsOp → String
  | .listDir => "fs_list_dir"
  | .stat => "fs_stat"
  | .readChunk => "fs_read_chunk"
  | .writeChunk => "fs_write_chunk"
  | .delete => "fs_delete"
  | .mkdir => "fs_mkdir"
  | .mediaProbe => "media_probe"
  | .checksum => "fs_checksum"

/-- The fields of a request that are read, where they have the type that they are read at. -/
structure FsRequest where
  requestId : Option String
  op : Option String
  relativePath : Option String
  storagePath : Option String
  offset : Option ℕ
  length : Option ℕ
  dataBase64 : Option String
  recursive : Option Bool

namespace FsRequest

variable (req : FsRequest)

def fsOp : Option FsOp :=
  [.listDir, .stat, .readChunk, .writeChunk, .delete, .mkdir, .mediaProbe, .checksum].find?
    fun op : FsOp => req.op.getD "" = op.name

def relPath : String := req.relativePath.getD ""

end FsRequest

/-- What the system makes of a command: the bytes that one read hands out, what becomes of a write, what
has gone when a removal fails, the text of an error, the SHA-256 and the answer of `ffprobe`. -/
structure Outcome (Probe : Type) where
  bytesRead : ℕ
  fate : Agent.Fate
  failed : Option (List Location)
  osError : String
  sha256 : Bytes → String
  probed : Except String Probe

inductive FsResult (Probe : Type)
  | listing (result : ListDirResult)
  | stat (result : Handler.StatResult)
  | chunk (result : Edge.Files.ReadChunkResult)
  | written (result : Handler.WriteChunkResult)
  | deleted (deleted : Bool)
  | created (created : Bool)
  | probed (result : Probe)
  | sha256 (hash : String)

/-- An `fs_response`: a success has a result, a failure a text. -/
structure FsResponse (Probe : Type) where
  requestId : String
  result : Except String (FsResult Probe)

/-- The first character that `base64_decode` does not take. -/
def invalidCharacter (encoded : String) : Option Char :=
  ((trim isWhiteSpace encoded).toList.takeWhile (· ≠ '=')).find? fun ch =>
    !isWhiteSpace ch && (Agent.sextet ch).isNone

/-- The text of a path that does not exist. -/
def display (p : PathBuf) : String :=
  (if p.base = [] then "" else pathText p.base) ++ String.join (p.rest.map ("/" ++ ·))

/-! ## Commands -/

section Commands

variable {Probe : Type} (disks : Disks.Host) (policy : Disks.Policy) (defaultRoot root : String)
  (req : FsRequest) (o : Outcome Probe)

/-- The result of a call, or the text of its error. -/
def respond {α : Type} (call : Handler α) (give : α → FsResult Probe) :
    Handler (Except String (FsResult Probe)) := do
  match ← attempt call with
  | .ok result => pure (.ok (give result))
  | .error e => pure (.error (e.display o.osError))

/-- Resolve a path from the real root. -/
def fromRealRoot (use : PathBuf → Handler (Except String (FsResult Probe))) :
    Handler (Except String (FsResult Probe)) := do
  let s ← get
  match (PathBuf.mk [] (Foundations.pieces root)).canonicalize s.fs with
  | none => pure (.error ("Invalid root: " ++ o.osError))
  | some canonicalRoot =>
    match ← attempt (Handler.resolve (pathText canonicalRoot) req.relPath) with
    | .error e => pure (.error (e.display o.osError))
    | .ok targetPath => use targetPath

/-- `Transcoder::probe` -/
def probe (targetPath : PathBuf) : Handler (Except String (FsResult Probe)) := do
  let s ← get
  match targetPath.canonicalize s.fs with
  | none => pure (.error ("File does not exist: " ++ display targetPath))
  | some loc => do
    -- `ffprobe` opens the file, whatever it makes of it
    set (s.touch (.read loc))
    pure (o.probed.map .probed)

/-- `file_hash` -/
def fileHash (targetPath : PathBuf) : Handler (Except String (FsResult Probe)) := do
  let s ← get
  match targetPath.canonicalize s.fs with
  | none => pure (.error o.osError)
  | some loc =>
    match s.file loc with
    | none => pure (.error o.osError)
    | some data =>
      match ← attempt (access (.read loc)) with
      | .error _ => pure (.error o.osError)
      | .ok () => pure (.ok (.sha256 (o.sha256 data)))

/-- Carry an operation out in a root. -/
def perform : Handler (Except String (FsResult Probe)) :=
  match req.fsOp with
  | some .listDir => respond o (Handler.listDir root req.relPath) .listing
  | some .stat => respond o (Handler.stat root req.relPath) .stat
  | some .readChunk => respond o (Handler.readChunk root req.relPath o.bytesRead (req.offset.getD 0)
      (req.length.getD (256 * 1024))) .chunk
  | some .writeChunk =>
    match Agent.base64Decode (req.dataBase64.getD "") with
    | some bytes => respond o
        (Handler.writeChunk root req.relPath (req.offset.getD 0) bytes o.fate) .written
    | none => pure (.error ("Base64 decode error: Invalid base64 character: " ++
        String.ofList (invalidCharacter (req.dataBase64.getD "")).toList))
  | some .delete => respond o
      (Handler.delete root req.relPath (req.recursive.getD false) o.failed) .deleted
  | some .mkdir => respond o (Handler.mkdir root req.relPath) .created
  | some .mediaProbe => fromRealRoot root req o (probe o)
  | some .checksum => fromRealRoot root req o (fileHash o)
  | none => pure (.error ("Unknown filesystem operation: '" ++ req.op.getD "" ++ "'"))

/-- Handle an operation that a client requests through the control plane. -/
def handleFsCommand : Handler (FsResponse Probe) := do
  let root := Disks.targetRoot defaultRoot req.storagePath
  if disks.isForbidden policy defaultRoot root then
    pure ⟨req.requestId.getD "", .error ("Access to storage path '" ++ root ++
      "' is restricted by node policy in agent.toml (fail-closed allowlist)")⟩
  else do
    let result ← perform root req o
    pure ⟨req.requestId.getD "", result⟩

end Commands

/-! ## What a command does -/

/-- The operations that change something. -/
def FsOp.writes : FsOp → Bool
  | .writeChunk | .delete | .mkdir => true
  | _ => false

section Effects

variable {Probe : Type} {root : String} {req : FsRequest} {o : Outcome Probe} {h : Host}
  {denied : Access → Bool} {s s' : System}

/-- The places that a command starts from: what it makes or opens first, or the root. -/
def Comes (h : Host) (denied : Access → Bool) (root : String) (req : FsRequest) (o : Outcome Probe) :
    FsOp → Location → Prop
  | .writeChunk, top => ∃ bytes, Agent.base64Decode (req.dataBase64.getD "") = some bytes ∧
      (Operation.writeChunk (req.offset.getD 0) bytes o.fate).Comes h denied root req.relPath top
  | .mkdir, top => Operation.mkdir.Comes h denied root req.relPath top
  | _, top => (PathBuf.mk [] (Foundations.pieces root)).canonicalize h.fs = some top

/-- What is done in carrying an operation out. -/
structure Done (s : System) (root : String) (req : FsRequest) (o : Outcome Probe) (op : FsOp)
    (s' : System) : Prop where
  below : DoneBelow s (Comes s.host s.denied root req o op) s'
  reads : op.writes = false → s'.host = s.host

theorem Done.of_readsIn {op : FsOp} (hs : s.accesses = [])
    (hcomes : ∀ top, (PathBuf.mk [] (Foundations.pieces root)).canonicalize s.fs = some top →
      Comes s.host s.denied root req o op top)
    (hreads : ReadsIn root s s') : Done s root req o op s' := by
  obtain ⟨hbelow, hlogged⟩ := DoneBelow.of_readsIn hs hreads
  refine ⟨⟨fun a ha => ?_, hlogged⟩, fun _ => ?_⟩
  · obtain ⟨top, htop, hpre⟩ := hbelow a ha
    exact ⟨top, hcomes top htop, hpre⟩
  · rcases hreads with rfl | ⟨r, -, hreads⟩
    · rfl
    · exact hreads.host

theorem wp_respond {α : Type} {call : Handler α} {give : α → FsResult Probe} {P : System → Prop}
    (hcall : wp call (fun _ => P) (fun _ => P) s) :
    wp (respond o call give) (fun _ => P) (fun _ _ => False) s := by
  rw [respond, wp_bind, wp_attempt]
  exact wp_mono hcall (fun _ _ h => h) fun _ _ h => h

theorem wp_fromRealRoot {use : PathBuf → Handler (Except String (FsResult Probe))}
    (huse : ∀ r p loc, (PathBuf.mk [] (Foundations.pieces root)).canonicalize s.fs = some r →
      p.canonicalize s.fs = some loc → r <+: loc →
      wp (use p) (fun _ s' => Reads s s' r) (fun _ _ => False) s)
    (hnone : ∀ p, p.canonicalize s.fs = none → wp (use p) (fun _ s' => s' = s) (fun _ _ => False) s) :
    wp (fromRealRoot root req o use) (fun _ s' => ReadsIn root s s') (fun _ _ => False) s := by
  rw [fromRealRoot, wp_bind, wp_get]
  split
  case h_1 => exact .inl rfl
  case h_2 r hroot =>
    simp only [wp_bind, wp_attempt, Handler.resolve, wp_get, wp_ofExcept]
    refine ⟨fun p hres => ?_, fun _ _ => .inl rfl⟩
    cases hloc : p.canonicalize s.fs with
    | none => exact wp_mono (hnone p hloc) (fun _ _ => .inl) fun _ _ h => h
    | some loc =>
      have hpre := prefix_of_resolved (canonicalize_pathText (solid_of_canonicalize hroot)) hres hloc
      exact wp_mono (huse r p loc hroot hloc hpre) (fun _ _ h => .inr ⟨r, hroot, h⟩) fun _ _ h => h

theorem wp_probe : wp (fromRealRoot root req o (probe o)) (fun _ s' => ReadsIn root s s')
    (fun _ _ => False) s := by
  refine wp_fromRealRoot (fun r p loc hroot hloc hpre => ?_) fun p hloc => ?_
  · rw [probe, wp_bind, wp_get, hloc]
    exact .touch hpre
  · rw [probe, wp_bind, wp_get, hloc]
    rfl

theorem wp_fileHash : wp (fromRealRoot root req o (fileHash o)) (fun _ s' => ReadsIn root s s')
    (fun _ _ => False) s := by
  refine wp_fromRealRoot (fun r p loc hroot hloc hpre => ?_) fun p hloc => ?_
  · rw [fileHash, wp_bind, wp_get, hloc]
    dsimp only
    split
    case h_1 => exact .refl
    case h_2 data _ =>
      rw [wp_bind, wp_attempt]
      exact wp_mono (wp_access_reads hpre) (fun _ _ h => h) fun _ _ h => h
  · rw [fileHash, wp_bind, wp_get, hloc]
    rfl

/-- **An operation is done below what it comes to.** -/
theorem wp_perform : wp (perform root req o)
    (fun _ s' => s' = ⟨h, denied, []⟩ ∨
      ∃ op, req.fsOp = some op ∧ Done ⟨h, denied, []⟩ root req o op s')
    (fun _ _ => False) ⟨h, denied, []⟩ := by
  have hread : ∀ {op : FsOp} {x : Handler (Except String (FsResult Probe))}, req.fsOp = some op →
      (∀ top, (PathBuf.mk [] (Foundations.pieces root)).canonicalize h.fs = some top →
        Comes h denied root req o op top) →
      wp x (fun _ s' => ReadsIn root ⟨h, denied, []⟩ s') (fun _ _ => False) ⟨h, denied, []⟩ →
      wp x (fun _ s' => s' = ⟨h, denied, []⟩ ∨
        ∃ op, req.fsOp = some op ∧ Done ⟨h, denied, []⟩ root req o op s') (fun _ _ => False)
        ⟨h, denied, []⟩ := fun hop hcomes hx =>
    wp_mono hx (fun _ _ h => .inr ⟨_, hop, .of_readsIn rfl hcomes h⟩) fun _ _ h => h
  have hwrite : ∀ {op : FsOp} {s' : System}, req.fsOp = some op → op.writes = true →
      DoneBelow ⟨h, denied, []⟩ (Comes h denied root req o op) s' →
      s' = ⟨h, denied, []⟩ ∨ ∃ op, req.fsOp = some op ∧ Done ⟨h, denied, []⟩ root req o op s' :=
    fun hop hwrites hbelow =>
      .inr ⟨_, hop, hbelow, fun hreads => absurd (hwrites.symm.trans hreads) (by decide)⟩
  unfold perform
  split
  case h_1 hop => exact hread hop (fun _ h => h) (wp_respond wp_listDir_readsIn)
  case h_2 hop => exact hread hop (fun _ h => h) (wp_respond wp_stat_readsIn)
  case h_3 hop => exact hread hop (fun _ h => h) (wp_respond wp_readChunk_readsIn)
  case h_4 hop =>
    split
    case h_1 bytes hbytes =>
      have hperform := (wp_discard _).mp (FsHandler.wp_perform h denied root req.relPath
        (.writeChunk (req.offset.getD 0) bytes o.fate))
      have hdone : ∀ s', DoneBelow ⟨h, denied, []⟩ ((Operation.writeChunk (req.offset.getD 0) bytes
          o.fate).Comes h denied root req.relPath) s' → s' = ⟨h, denied, []⟩ ∨
            ∃ op, req.fsOp = some op ∧ Done ⟨h, denied, []⟩ root req o op s' := fun s' hs' =>
        hwrite hop rfl (hs'.mono fun top htop => ⟨bytes, hbytes, htop⟩)
      exact wp_respond (wp_mono hperform (fun _ => hdone) fun _ => hdone)
    case h_2 => exact .inl rfl
  case h_5 hop =>
    exact wp_respond (wp_mono wp_delete_below (fun _ _ => hwrite hop rfl) fun _ _ => hwrite hop rfl)
  case h_6 hop =>
    have hperform := (wp_discard _).mp (FsHandler.wp_perform h denied root req.relPath .mkdir)
    exact wp_respond (wp_mono hperform (fun _ _ => hwrite hop rfl) fun _ _ => hwrite hop rfl)
  case h_7 hop => exact hread hop (fun _ h => h) wp_probe
  case h_8 hop => exact hread hop (fun _ h => h) wp_fileHash
  case h_9 => exact .inl rfl

end Effects

/-! ## Runs -/

/-- What happens to the node: a command, or a change that others make to the files. -/
inductive Event (Probe : Type)
  | command (req : FsRequest) (o : Outcome Probe)
  | change (fs : FileSystem) (modifiedAt : Location → Option String) (isReadonly : Location → Bool)
      (denied : Access → Bool)

section Runs

variable {Probe : Type} (disks : Disks.Host) (policy : Disks.Policy) (defaultRoot : String)

/-- The accesses of a command come after those before it. -/
def step (s : System) : Event Probe → System
  | .command req o =>
    let s' := leaves (handleFsCommand disks policy defaultRoot req o) { s with accesses := [] }
    { s' with accesses := s.accesses ++ s'.accesses }
  | .change fs modifiedAt isReadonly denied =>
    { s with
      host := { s.host with fs := fs, modifiedAt := modifiedAt, isReadonly := isReadonly }
      denied := denied }

/-- A command that the policy lets through, and that comes to a place at or above the location. -/
def Comprises (s : System) (req : FsRequest) (o : Outcome Probe) (op : FsOp) (loc : Location) : Prop :=
  let root := Disks.targetRoot defaultRoot req.storagePath
  disks.isForbidden policy defaultRoot root = false ∧ req.fsOp = some op ∧
    ∃ top, Comes s.host s.denied root req o op top ∧ top <+: loc

/-- An event that makes a location another object. -/
def Changes (s : System) (loc : Location) : Event Probe → Prop
  | .command req o => ∃ op, op.writes = true ∧ Comprises disks policy defaultRoot s req o op loc
  | .change fs .. => fs.node loc ≠ s.fs.node loc

variable {disks policy defaultRoot} {s : System} {req : FsRequest} {o : Outcome Probe}

/-- **What a command does**: nothing, or an operation that the policy lets through. -/
theorem wp_handleFsCommand {h : Host} {denied : Access → Bool} :
    wp (handleFsCommand disks policy defaultRoot req o)
      (fun _ s' => s' = ⟨h, denied, []⟩ ∨
        disks.isForbidden policy defaultRoot (Disks.targetRoot defaultRoot req.storagePath) = false ∧
        ∃ op, req.fsOp = some op ∧
          Done ⟨h, denied, []⟩ (Disks.targetRoot defaultRoot req.storagePath) req o op s')
      (fun _ _ => False) ⟨h, denied, []⟩ := by
  rw [handleFsCommand]
  split
  case isTrue => exact .inl rfl
  case isFalse hforbidden =>
    rw [wp_bind]
    refine wp_mono wp_perform (fun _ s' h => h.imp_right fun hdone => ?_) fun _ _ h => h
    exact ⟨Bool.not_eq_true _ ▸ hforbidden, hdone⟩

variable (disks policy defaultRoot s req o) in
theorem step_command : (step disks policy defaultRoot s (.command req o) = s) ∨
    ∃ op s', Done { s with accesses := [] } (Disks.targetRoot defaultRoot req.storagePath) req o op s' ∧
      disks.isForbidden policy defaultRoot (Disks.targetRoot defaultRoot req.storagePath) = false ∧
      req.fsOp = some op ∧
      step disks policy defaultRoot s (.command req o) =
        { s' with accesses := s.accesses ++ s'.accesses } := by
  have hleaves := wp.leaves (P := fun s' : System => s' = ⟨s.host, s.denied, []⟩ ∨
      disks.isForbidden policy defaultRoot (Disks.targetRoot defaultRoot req.storagePath) = false ∧
      ∃ op, req.fsOp = some op ∧ Done ⟨s.host, s.denied, []⟩
        (Disks.targetRoot defaultRoot req.storagePath) req o op s')
    (wp_mono wp_handleFsCommand (fun _ _ h => h) fun _ _ h => h.elim)
  rcases hleaves with hsame | ⟨hforbidden, op, hop, hdone⟩
  · left
    rw [step, hsame]
    simp
  · exact .inr ⟨op, _, hdone, hforbidden, hop, rfl⟩

/-- A step accounts for the accesses that it adds. -/
theorem exists_comprises_of_step {a : Access}
    (ha : a ∈ (step disks policy defaultRoot s (.command req o)).accesses) :
    a ∈ s.accesses ∨ ∃ op, Comprises disks policy defaultRoot s req o op a.loc := by
  rcases step_command disks policy defaultRoot s req o with hsame | ⟨op, s', hdone, hforbidden, hop, hstep⟩
  · exact .inl (hsame ▸ ha)
  · rw [hstep] at ha
    refine (List.mem_append.mp ha).imp_right fun ha => ⟨op, hforbidden, hop, ?_⟩
    exact hdone.below.1 a ha

/-- A step accounts for what it changes. -/
theorem changes_of_step {event : Event Probe} {loc : Location}
    (hne : (step disks policy defaultRoot s event).fs.node loc ≠ s.fs.node loc) :
    Changes disks policy defaultRoot s loc event := by
  cases event with
  | change fs modifiedAt isReadonly denied => exact hne
  | command req o =>
    rcases step_command disks policy defaultRoot s req o with hsame | ⟨op, s', hdone, hforbidden, hop, hstep⟩
    · rw [hsame] at hne
      exact absurd rfl hne
    · rw [hstep] at hne
      refine ⟨op, ?_, hforbidden, hop, ?_⟩
      · by_contra hreads
        exact hne (congrArg (·.fs.node loc) (hdone.reads (Bool.not_eq_true _ ▸ hreads)))
      · by_contra hnone
        push Not at hnone
        exact hne (hdone.below.node_eq rfl hnone)

/-- **Everything that is touched over a run lies below what a command came to that was let through.** -/
theorem accesses_explained (disks : Disks.Host) (policy : Disks.Policy) (defaultRoot : String)
    (h : Host) (denied : Access → Bool) (events : List (Event Probe)) :
    ∀ a ∈ (run (step disks policy defaultRoot) ⟨h, denied, []⟩ events).accesses,
      ∃ before req o after op, events = before ++ .command req o :: after ∧
        Comprises disks policy defaultRoot (run (step disks policy defaultRoot) ⟨h, denied, []⟩ before)
          req o op a.loc := by
  induction events using List.reverseRecOn with
  | nil => exact List.forall_mem_nil _
  | append_singleton events event ih =>
    have hbefore : ∀ a ∈ (run (step disks policy defaultRoot) ⟨h, denied, []⟩ events).accesses,
        ∃ before req o after op, events ++ [event] = before ++ .command req o :: after ∧
          Comprises disks policy defaultRoot
            (run (step disks policy defaultRoot) ⟨h, denied, []⟩ before) req o op a.loc := by
      intro a ha
      obtain ⟨before, req, o, after, op, rfl, hcomprises⟩ := ih a ha
      exact ⟨before, req, o, after ++ [event], op, by simp, hcomprises⟩
    rw [run_append]
    cases event with
    | change => exact hbefore
    | command req o =>
      intro a ha
      rcases exists_comprises_of_step ha with ha | ⟨op, hcomprises⟩
      · exact hbefore a ha
      · exact ⟨events, req, o, [], op, rfl, hcomprises⟩

/-- **What has become another object over a run was changed by a write, a removal or a new directory
that was let through**, below what it came to, or by others. -/
theorem changes_explained (disks : Disks.Host) (policy : Disks.Policy) (defaultRoot : String)
    (s : System) (events : List (Event Probe)) (loc : Location) :
    (run (step disks policy defaultRoot) s events).fs.node loc = s.fs.node loc ∨
      ∃ before event after, events = before ++ event :: after ∧
        Changes disks policy defaultRoot (run (step disks policy defaultRoot) s before) loc event := by
  induction events using List.reverseRecOn with
  | nil => exact .inl rfl
  | append_singleton events event ih =>
    rw [run_append]
    by_cases hne : (step disks policy defaultRoot (run (step disks policy defaultRoot) s events)
        event).fs.node loc = (run (step disks policy defaultRoot) s events).fs.node loc
    · rcases ih with hsame | ⟨before, other, after, rfl, hchanges⟩
      · exact .inl (hne.trans hsame)
      · exact .inr ⟨before, other, after ++ [event], by simp, hchanges⟩
    · exact .inr ⟨events, event, [], rfl, changes_of_step hne⟩

end Runs

namespace Sample

def state : System := ⟨FsHandler.Sample.escapeHost, fun _ => false, []⟩

def disks : Disks.Host := ⟨[], fun _ => false, fun _ => 0, fun _ => "", id⟩

def outcome : Outcome Unit := ⟨0, .done, none, "", fun _ => "h", .error ""⟩

/-- Three bytes for a file in a folder that is made for it. -/
def upload : FsRequest :=
  ⟨some "1", some "fs_write_chunk", some "n/f", some "/s", some 0, none, some "AQID", none⟩

end Sample

theorem accesses_explained_upload :
    (run (step Sample.disks ⟨["/s"], []⟩ "/d") Sample.state
        [.command Sample.upload Sample.outcome]).accesses ≠ [] ∧
      ∀ a ∈ (run (step Sample.disks ⟨["/s"], []⟩ "/d") Sample.state
          [.command Sample.upload Sample.outcome]).accesses, ∃ before req o after op,
        [.command Sample.upload Sample.outcome] = before ++ .command req o :: after ∧
        Comprises Sample.disks ⟨["/s"], []⟩ "/d"
          (run (step Sample.disks ⟨["/s"], []⟩ "/d") Sample.state before) req o op a.loc :=
  ⟨by decide, accesses_explained _ _ _ _ _ _⟩

end Pcos.FsHandler.Commands
