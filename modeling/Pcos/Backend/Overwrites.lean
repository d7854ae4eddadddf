import Pcos.Backend.Integrity
import Pcos.Backend.S3Objects
import Pcos.Foundations.Text

/-!
# Backend/Overwrites — a `PUT` over an existing file, call by call (`webdav.rs`, `s3_compat.rs`)

`webdavPut` and `putObject` write a file in one step.  Here each awaited call may fail.
`File::create` empties the file that is there, `write_all` hands the bytes to a background thread,
so that a first part of them is in the file until `flush` has waited for the rest, and the row comes
last.  `store_file` writes beside the file and renames.
-/

namespace Pcos

open Foundations

/-! ## The calls -/

/-- What the calls that write a file come to: the text of an error, or `none`. -/
structure DiskCalls where
  createDir : Option String
  create : Option String
  writeAll : Option String
  sync : Option String
  /-- How many of the bytes are in the file as long as nothing waits for them. -/
  reached : ℕ

/-- …and those of a `PUT`. -/
structure PutCalls extends DiskCalls where
  lookup : Option String
  body : Option String
  query : Option String

/-- No call fails. -/
def PutCalls.calm (data : Bytes) : PutCalls :=
  ⟨⟨none, none, none, none, data.length⟩, none, none, none⟩

/-- Go on after a call, or report its error. -/
def awaitCall (report : String → AppError) : Option String → Handler Unit
  | none => pure ()
  | some e => throw (.error (report e))

/-- Write a file where it is. -/
def writeFile (waits : Bool) (calls : DiskCalls) (path : String) (data : Bytes) : Handler Unit := do
  awaitCall .internal calls.createDir
  awaitCall .internal calls.create
  modify fun w => w.putBlob path []
  modify fun w => w.putBlob path (data.take calls.reached)
  awaitCall .internal calls.writeAll
  if waits then
    awaitCall .internal calls.sync
    modify fun w => w.putBlob path data

inductive Gateway
  | webDav
  | s3
  deriving DecidableEq

/-- Only WebDAV flushes. -/
def Gateway.flushes : Gateway → Bool
  | .webDav => true
  | .s3 => false

/-- Overwrite an existing file. -/
def overwriteStepwise (env : Env) (g : Gateway) (c : Call) (calls : PutCalls) (existing : FileEntry)
    (mime : Option String) (data : Bytes) : Handler Unit := do
  writeFile g.flushes calls.toDiskCalls existing.target data
  awaitCall .internal calls.query
  updateEntries .internalSql (fun r => r.id = existing.id && r.userId = c.user)
    (overwritten env c existing.target mime data)

/-- Create new file. -/
def createStepwise (env : Env) (g : Gateway) (c : Call) (calls : PutCalls) (parent : Option Uuid)
    (filename : String) (mime : Option String) (data : Bytes) : Handler Unit := do
  writeFile g.flushes calls.toDiskCalls (filePath c.user c.newId) data
  awaitCall .internal calls.query
  insertEntry .internalSql fileColumns (putRow env c parent filename mime data)

/-- `to_bytes`: the body, unless it cannot be read or is too long. -/
def readBody (calls : PutCalls) (data : Bytes) : Handler Unit := do
  awaitCall (fun e => .validation ("Upload body read failed: " ++ e)) calls.body
  ensure (data.length ≤ maxBody)
    (.error (.validation "Upload body read failed: length limit exceeded"))

/-- The query for the file, which WebDAV sends before it reads the body and S3 after. -/
def put (env : Env) (g : Gateway) (c : Call) (calls : PutCalls) (name : String)
    (contentType : Option String) (data : Bytes) : Handler DavResponse :=
  let mime := putMime env contentType (entryName name)
  match g with
  | .webDav => do
    awaitCall .internal calls.lookup
    let w ← get
    let (parent, existing) := resolvePath w c.user name
    readBody calls data
    match existing with
    | some r =>
      overwriteStepwise env .webDav c calls r mime data
      pure ⟨204, some (env.sha256 data)⟩
    | none =>
      createStepwise env .webDav c calls parent (entryName name) mime data
      pure ⟨201, some (env.sha256 data)⟩
  | .s3 => do
    readBody calls data
    awaitCall .internal calls.lookup
    let w ← get
    match limitOne c.scan (liveFiles w c.user (entryName name)) with
    | some r => overwriteStepwise env .s3 c calls r mime data
    | none => createStepwise env .s3 c calls none (entryName name) mime data
    pure ⟨200, some (env.sha256 data)⟩

/-- The file that a `PUT` overwrites. -/
def putFinds (g : Gateway) (w : World) (c : Call) (name : String) : Option FileEntry :=
  match g with
  | .webDav => (resolvePath w c.user name).2
  | .s3 => limitOne c.scan (liveFiles w c.user (entryName name))

/-- The file that a `GET` reads. -/
def getFinds (g : Gateway) (w : World) (c : Call) (name : String) : Option FileEntry :=
  match g with
  | .webDav => (resolvePath w c.user name).2
  | .s3 => limitOne c.scan (liveFiles w c.user (lastSegment name.toList))

def download (g : Gateway) (w : World) (c : Call) (name : String) : Option Bytes :=
  match g with
  | .webDav => webdavGet w c.user name
  | .s3 => getObject w c name

/-- Every `GET` that reads the file returns the old content, and size and hash are those of it. -/
structure KeepsOld (env : Env) (w w' : World) (r : FileEntry) (old : Bytes) : Prop where
  served : ∀ g c name, getFinds g w c name = some r → download g w' c name = some old
  described : ∃ r' ∈ w'.entries.rows, r'.id = r.id ∧ r'.sizeBytes = old.length ∧
    r'.sha256Hash = some (env.sha256 old)

/-! ## What a call that fails leaves -/

/-- The calls fail before `File::create` has emptied the file. -/
def DiskCalls.stopEarly (calls : DiskCalls) : Bool := calls.createDir.isSome || calls.create.isSome

def PutCalls.stopEarly (calls : PutCalls) (data : Bytes) : Bool :=
  calls.lookup.isSome || calls.body.isSome || maxBody < data.length || calls.toDiskCalls.stopEarly

/-- The calls fail with the file open. -/
def DiskCalls.stopLate (waits : Bool) (calls : DiskCalls) : Bool :=
  calls.writeAll.isSome || waits && calls.sync.isSome

/-- What is in the file once it has been opened: all the bytes, if they were waited for. -/
def DiskCalls.written (waits : Bool) (calls : DiskCalls) (data : Bytes) : Bytes :=
  if waits && !calls.stopLate waits then data else data.take calls.reached

section Outcome

variable {env : Env} {g : Gateway} {w w' : World} {c : Call} {calls : PutCalls} {name : String}
  {contentType : Option String} {data old : Bytes} {r : FileEntry}

theorem putBlob_putBlob (w : World) (path : String) (data data' : Bytes) :
    (w.putBlob path data).putBlob path data' = w.putBlob path data' := by
  unfold World.putBlob
  congr 1
  funext p
  by_cases h : p = path
  · rw [if_pos h, if_pos h]
  · rw [if_neg h, if_neg h]
    exact if_neg h

@[simp] theorem wp_awaitCall {report : String → AppError} {result : Option String}
    {Q : Unit → World → Prop} {E : World → Prop} :
    wp (awaitCall report result) Q (fun _ => E) w ↔
      (result = none → Q () w) ∧ (result.isSome → E w) := by
  cases result <;> simp [awaitCall]

/-- **A write that fails leaves the file as it was or with what has been written.** -/
theorem wp_writeFile {waits : Bool} {disk : DiskCalls} {path : String} {Q : Unit → World → Prop}
    {E : World → Prop} : wp (writeFile waits disk path data) Q (fun _ => E) w ↔
      (disk.stopEarly → E w) ∧ (disk.stopEarly = false →
        (disk.stopLate waits → E (w.putBlob path (disk.written waits data))) ∧
        (disk.stopLate waits = false → Q () (w.putBlob path (disk.written waits data)))) := by
  obtain ⟨createDir, create, writeAll, sync, reached⟩ := disk
  cases createDir <;> cases create <;> cases writeAll <;> cases sync <;> cases waits <;>
    simp [writeFile, DiskCalls.stopEarly, DiskCalls.stopLate, DiskCalls.written, putBlob_putBlob]

/-- What a failed overwrite leaves. -/
def afterFailure (g : Gateway) (calls : PutCalls) (w : World) (r : FileEntry) (data : Bytes) :
    World :=
  if calls.stopEarly data then w else w.putBlob r.target (calls.written g.flushes data)

theorem wp_readBody {Q : Unit → World → Prop} {E : World → Prop} :
    wp (readBody calls data) Q (fun _ => E) w ↔
      (calls.body = none → data.length ≤ maxBody → Q () w) ∧
        (calls.body.isSome ∨ maxBody < data.length → E w) := by
  simp only [readBody, wp_bind, wp_awaitCall, wp_ensure, decide_eq_true_eq, decide_eq_false_iff_not,
    Nat.not_le]
  cases calls.body <;> simp

theorem wp_overwriteStepwise {mime : Option String} (hlookup : calls.lookup = none)
    (hbody : calls.body = none) (hlen : data.length ≤ maxBody) :
    wp (overwriteStepwise env g c calls r mime data) (fun _ _ => True)
      (fun _ w' => w' = afterFailure g calls w r data) w := by
  have hearly : calls.stopEarly data = calls.toDiskCalls.stopEarly := by
    simp [PutCalls.stopEarly, hlookup, hbody, hlen]
  simp only [overwriteStepwise, wp_bind, wp_writeFile, wp_awaitCall, afterFailure, hearly]
  refine ⟨fun h => (if_pos h).symm, fun h => ⟨fun _ => ?_, fun _ => ⟨fun _ => ?_, fun _ => ?_⟩⟩⟩
  · rw [if_neg (by simp [h])]
  · rw [wp_updateEntries]
    exact ⟨fun _ _ => trivial, fun _ => by rw [if_neg (by simp [h])]⟩
  · rw [if_neg (by simp [h])]

/-- **A `PUT` over a file that fails leaves everything as it was, or the file with what has been
written.** -/
theorem wp_overwriting (hfound : putFinds g w c name = some r) :
    wp (put env g c calls name contentType data) (fun _ _ => True)
      (fun _ w' => w' = afterFailure g calls w r data) w := by
  have hsame : calls.lookup.isSome ∨ calls.body.isSome ∨ maxBody < data.length →
      w = afterFailure g calls w r data := fun h => by
    rw [afterFailure, if_pos]
    simp only [PutCalls.stopEarly, Bool.or_eq_true, decide_eq_true_eq]
    tauto
  cases g with
  | webDav =>
    simp only [put, wp_bind, wp_awaitCall, wp_get]
    refine ⟨fun hlookup => ?_, fun h => hsame (.inl h)⟩
    rcases hres : resolvePath w c.user name with ⟨parent, existing⟩
    obtain rfl : existing = some r := by rw [← hfound, putFinds, hres]
    simp only [wp_bind, wp_readBody, wp_pure]
    exact ⟨fun hbody hlen => wp_overwriteStepwise hlookup hbody hlen, fun h => hsame (.inr h)⟩
  | s3 =>
    simp only [put, wp_bind, wp_awaitCall, wp_get, wp_readBody]
    refine ⟨fun hbody hlen => ⟨fun hlookup => ?_, fun h => hsame (.inl h)⟩, fun h => hsame (.inr h)⟩
    rw [show limitOne c.scan (liveFiles w c.user (entryName name)) = some r from hfound]
    simp only [wp_bind, wp_pure]
    exact wp_overwriteStepwise hlookup hbody hlen

/-! ## Reading after a failure -/

theorem resolveSegments_congr (h : w'.entries = w.entries) (user : Uuid) (parent : Option Uuid)
    (names : List String) :
    resolveSegments w' user parent names = resolveSegments w user parent names := by
  induction parent, names using resolveSegments.induct w user with
  | case1 parent => rfl
  | case2 parent name => simp only [resolveSegments, liveChild, h]
  | case3 parent name rest hrest folder hfolder ih =>
    have hfolder' : liveFolder w' user parent name = some folder := by
      rw [liveFolder, h]
      exact hfolder
    rw [resolveSegments, resolveSegments, hfolder, hfolder']
    · exact ih
    · exact hrest
    · exact hrest
  | case4 parent name rest hrest hfolder =>
    have hfolder' : liveFolder w' user parent name = none := by
      rw [liveFolder, h]
      exact hfolder
    rw [resolveSegments, resolveSegments, hfolder, hfolder']
    · exact hrest
    · exact hrest

/-- **A `GET` returns the content of the file that it finds**, as long as the rows stay. -/
theorem download_congr (h : w'.entries = w.entries) :
    download g w' c name = (getFinds g w c name).bind (contentOf w') := by
  cases g with
  | webDav => rw [download, webdavGet, resolvePath, resolveSegments_congr h]; rfl
  | s3 => rw [download, getObject, liveFiles, h]; rfl

/-- No slash is left in the last segment. -/
theorem notMem_lastSegment (cs : List Char) : '/' ∉ (lastSegment cs).toList := by
  intro h
  rw [lastSegment, String.toList_ofList, List.getLastD_eq_getLast?,
    List.getLast?_eq_some_getLast (List.splitOn_ne_nil _ _), Option.getD_some] at h
  have hsep := not_of_mem_splitOnP (List.getLast_mem (List.splitOn_ne_nil '/' cs)) h
  simp at hsep

theorem lastSegment_of_notMem {name : String} (h : '/' ∉ name.toList) :
    lastSegment name.toList = name := by
  rw [lastSegment, List.splitOn_eq_singleton h, List.getLastD_cons, List.getLastD_nil,
    String.ofList_toList]

/-- What a `PUT` overwrites a `GET` can read. -/
theorem exists_getFinds (h : putFinds g w c name = some r) :
    ∃ name', getFinds g w c name' = some r := by
  cases g with
  | webDav => exact ⟨name, h⟩
  | s3 =>
    refine ⟨entryName name, ?_⟩
    have hname : lastSegment (entryName name).toList = entryName name :=
      lastSegment_of_notMem (notMem_lastSegment _)
    rw [getFinds, hname]
    exact h

theorem mem_of_putFinds (h : putFinds g w c name = some r) : r ∈ w.entries.rows := by
  cases g with
  | webDav => exact (resolvePath_target h).1
  | s3 => exact (mem_liveFiles.mp (mem_of_limitOne h)).1

theorem entries_afterFailure : (afterFailure g calls w r data).entries = w.entries := by
  unfold afterFailure
  split <;> rfl

/-- **The old content stays in the file when the `PUT` fails before it opens it, or has written that
same content.** -/
theorem contentOf_afterFailure (hfile : r.entryType = .file) (hold : contentOf w r = some old) :
    contentOf (afterFailure g calls w r data) r = some old ↔
      calls.stopEarly data = true ∨ calls.written g.flushes data = old := by
  unfold afterFailure
  by_cases hearly : calls.stopEarly data = true
  · rw [if_pos hearly]
    exact ⟨fun _ => .inl hearly, fun _ => hold⟩
  · rw [if_neg hearly]
    rw [contentOf, hfile] at hold
    obtain ⟨path, hpath, -⟩ := Option.bind_eq_some_iff.mp hold
    have htarget : r.storagePath = some r.target := by
      rw [FileEntry.target, hpath, Option.getD_some]
    rw [show contentOf (w.putBlob r.target (calls.written g.flushes data)) r =
        some (calls.written g.flushes data) from contentOf_putBlob hfile htarget, Option.some_inj]
    exact ⟨.inr, fun h => h.resolve_left hearly⟩

end Outcome

/-- **A `PUT` that fails keeps the old file exactly when it fails before `File::create` has emptied
it**, or when what it has written by then is the old content. -/
theorem keepsOld_iff (env : Env) (g : Gateway) (w w' : World) (c : Call) (calls : PutCalls)
    (name : String) (contentType : Option String) (data old : Bytes) (r : FileEntry) (e : Failure)
    (hfound : putFinds g w c name = some r) (hfile : r.entryType = .file)
    (hold : contentOf w r = some old) (hsize : r.sizeBytes = old.length)
    (hhash : r.sha256Hash = some (env.sha256 old))
    (hfail : put env g c calls name contentType data w = .error e w') :
    KeepsOld env w w' r old ↔
      calls.stopEarly data = true ∨ calls.written g.flushes data = old := by
  obtain rfl : w' = afterFailure g calls w r data := (wp_overwriting hfound).of_error hfail
  rw [← contentOf_afterFailure hfile hold]
  constructor
  · intro h
    obtain ⟨name', hname'⟩ := exists_getFinds hfound
    have hserved := h.served g c name' hname'
    rwa [download_congr entries_afterFailure, hname', Option.bind_some] at hserved
  · intro h
    refine ⟨fun g' c' name' hname' => ?_, r, ?_, rfl, hsize, hhash⟩
    · rw [download_congr entries_afterFailure, hname', Option.bind_some, h]
    · rw [entries_afterFailure]
      exact mem_of_putFinds hfound

/-! ## Without a failure, and beside the file -/

section Calm

variable {env : Env} {c : Call} {name : String} {contentType : Option String} {data : Bytes}

theorem writeFile_calm (waits : Bool) (path : String) :
    writeFile waits (PutCalls.calm data).toDiskCalls path data =
      modify fun w => w.putBlob path data := by
  funext w
  refine ok_of_wp ?_
  rw [wp_writeFile]
  simp [PutCalls.calm, DiskCalls.stopEarly, DiskCalls.stopLate, DiskCalls.written]

theorem overwriteStepwise_calm (g : Gateway) (r : FileEntry) (mime : Option String) :
    overwriteStepwise env g c (.calm data) r mime data = overwriteEntry env c r mime data := by
  rw [overwriteStepwise, writeFile_calm]
  rfl

theorem createStepwise_calm (g : Gateway) (parent : Option Uuid) (mime : Option String) :
    createStepwise env g c (.calm data) parent name mime data =
      createEntry env c parent name mime data := by
  rw [createStepwise, writeFile_calm]
  rfl

/-- **When no call fails, a `PUT` is the `PUT` in one step.** -/
theorem put_webDav_calm :
    put env .webDav c (.calm data) name contentType data =
      webdavPut env c name contentType data := by
  simp only [put, webdavPut, overwriteStepwise_calm, createStepwise_calm]
  rfl

theorem put_s3_calm :
    put env .s3 c (.calm data) name contentType data =
      putObject env c name contentType data := by
  simp only [put, putObject, overwriteStepwise_calm, createStepwise_calm]
  rfl

end Calm

/-- The temporary file of `store_file`. -/
def tmpPath (user file tmp : Uuid) : String := filePath user file ++ (".tmp_" ++ tmp.text)

/-- `fs::rename`. -/
def World.moveBlob (w : World) (src dst : String) : World :=
  { w with blobs := fun p => if p = dst then w.blobs src else if p = src then none else w.blobs p }

/-- `store_file`: write to a temporary file, sync it and rename it. -/
def storeFileStepwise (env : Env) (disk : DiskCalls) (rename : Option String) (user file tmp : Uuid)
    (data : Bytes) : Handler (String × String) := do
  writeFile true disk (tmpPath user file tmp) data
  awaitCall .internal rename
  modify fun w => w.moveBlob (tmpPath user file tmp) (filePath user file)
  pure (filePath user file, env.sha256 data)

/-- **The sibling keeps the old file**: when `store_file` fails, every file but its temporary one is
as it was, and when it succeeds its file has all the bytes. -/
theorem wp_storeFileStepwise (env : Env) (disk : DiskCalls) (rename : Option String)
    (user file tmp : Uuid) (data : Bytes) (w : World) :
    wp (storeFileStepwise env disk rename user file tmp data)
      (fun _ w' => w'.blobs (filePath user file) = some data ∧
        ∀ p, p ≠ filePath user file → p ≠ tmpPath user file tmp → w'.blobs p = w.blobs p)
      (fun _ w' => ∀ p, p ≠ tmpPath user file tmp → w'.blobs p = w.blobs p) w := by
  simp only [storeFileStepwise, wp_bind, wp_writeFile, wp_awaitCall, wp_modify, wp_pure]
  have hput : ∀ part : Bytes, ∀ p, p ≠ tmpPath user file tmp →
      (w.putBlob (tmpPath user file tmp) part).blobs p = w.blobs p := fun part p hp => if_neg hp
  refine ⟨fun _ _ _ => trivial, fun _ => ⟨fun _ => hput _, fun hlate =>
    ⟨fun _ => ⟨?_, ?_⟩, fun _ => hput _⟩⟩⟩
  · have hall : disk.written true data = data := by simp [DiskCalls.written, hlate]
    rw [hall]
    exact (if_pos rfl).trans (if_pos rfl)
  · intro p hp htmp
    exact (if_neg hp).trans ((if_neg htmp).trans (hput _ p htmp))

/-! ## A disk that is full -/

open Sample

/-- A file is uploaded. -/
def fileStored : World :=
  run (step env) start [sent alice 0 id1 (.uploadFile none "f" "text/plain" [0x61])]

def storedRow : FileEntry :=
  newFile ⟨alice, 0, id1, tmp, 0⟩ none "f" (some "text/plain") 1 (some (knownSha256 [0x61]))
    (filePath alice id1)

/-- `write_all` fails before a byte has been written. -/
def diskFull : PutCalls :=
  { PutCalls.calm [] with writeAll := some "No space left on device (os error 28)" }

/-- The file cannot be opened. -/
def notOpened : PutCalls :=
  { PutCalls.calm [] with create := some "Permission denied (os error 13)" }

def putLetter : Call := ⟨alice, 1, id2, tmp, 0⟩

/-- A `PUT` that cannot open the file keeps it. -/
theorem keepsOld_notOpened : ∃ e w',
    put env .webDav putLetter notOpened "f" none [0x62] fileStored = .error e w' ∧
      KeepsOld env fileStored w' storedRow [0x61] :=
  ⟨_, _, rfl, (keepsOld_iff env .webDav fileStored _ putLetter notOpened "f" none [0x62] [0x61]
    storedRow _ (by decide) rfl (by decide) rfl rfl rfl).mpr (.inl rfl)⟩

theorem not_keepsOld_of_download (g : Gateway) {w w' : World} (c : Call) (name : String)
    {r : FileEntry} {old new : Bytes} (hfound : getFinds g w c name = some r)
    (hnew : download g w' c name = some new) (hne : new ≠ old) : ¬ KeepsOld env w w' r old := by
  intro h
  have hold := h.served g c name hfound
  rw [hnew] at hold
  exact hne (Option.some.inj hold)

/-- The `PUT` overwrites the file, fails, and has lost its content. -/
def LosesOld (g : Gateway) : Prop :=
  putFinds g fileStored putLetter "f" = some storedRow ∧
    contentOf fileStored storedRow = some [0x61] ∧
    ∃ e w', put env g putLetter diskFull "f" none [0x62] fileStored = .error e w' ∧
      download g w' putLetter "f" = some [] ∧ ¬ KeepsOld env fileStored w' storedRow [0x61]

/-- **On a full disk the old content is lost**, through either gateway. -/
theorem losesOld : LosesOld .webDav ∧ LosesOld .s3 := by
  constructor
  · refine ⟨by decide, by decide, _, _, rfl, by decide, ?_⟩
    exact not_keepsOld_of_download .webDav putLetter "f" (by decide) (by decide)
      (List.cons_ne_nil _ _).symm
  · refine ⟨by decide, by decide, _, _, rfl, by decide, ?_⟩
    exact not_keepsOld_of_download .s3 putLetter "f" (by decide) (by decide)
      (List.cons_ne_nil _ _).symm

end Pcos
