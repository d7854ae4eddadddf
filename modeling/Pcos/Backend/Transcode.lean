import Mathlib.Data.List.DropRight
import Pcos.Backend.StoragePaths

/-!
# Backend/Transcode — where the streams of a file go (`streaming/src/service.rs`)

`queue_transcode` trims the path of its input at the last dot and appends `_hls`, so two paths have
one directory exactly if they agree up to the last dot (`outputDir_eq_iff`).  Where there is no dot
everything is trimmed.  But the paths that uploads produce are made of ids, and have none: **all
jobs write to one directory** (`outputs_collide`).
-/

namespace Pcos.Transcode

open Foundations

/-! ## Jobs -/

inductive TranscodeProfile
  | adaptive
  | audioOnly
  | thumbnail
  deriving DecidableEq

def TranscodeProfile.asStr : TranscodeProfile → String
  | .adaptive => "adaptive"
  | .audioOnly => "audio-only"
  | .thumbnail => "thumbnail"

/-- The profile that a request names. -/
def TranscodeProfile.ofRequest : Option String → TranscodeProfile
  | some "audio-only" => .audioOnly
  | some "thumbnail" => .thumbnail
  | _ => .adaptive

structure TranscodeJob where
  id : Uuid
  fileId : Uuid
  userId : Uuid
  profile : String
  status : String
  inputPath : String
  outputDir : String
  masterPlaylist : Option String
  errorMessage : Option String
  createdAt : ℤ
  completedAt : Option ℤ
  deriving DecidableEq

/-- The database and the files, with the table `transcode_jobs`. -/
structure Streaming where
  world : World
  jobs : List TranscodeJob

/-- `input_path.trim_end_matches(|c| c != '.')` -/
def stem (inputPath : String) : List Char := inputPath.toList.rdropWhile fun c => c ≠ '.'

def outputDir (inputPath : String) : String := String.ofList (stem inputPath) ++ "_hls"

/-- The path of a file in the directory of a job. -/
def TranscodeJob.output (job : TranscodeJob) (name : String) : String :=
  job.outputDir ++ ("/" ++ name)

/-- What `ffmpeg` or the container makes of an input: the files that it leaves in the output
directory, and its message, if it fails. -/
structure Made where
  files : List (String × Bytes)
  failure : Option String

/-- The program sees all files, and gets the input path, the output directory and the profile. -/
abbrev Transcoder := (String → Option Bytes) → String → String → String → Made

section Requests

variable (s : Streaming)

/-- `queue_transcode` -/
def queueTranscode (newId fileId userId : Uuid) (inputPath : String) (profile : TranscodeProfile)
    (now : ℤ) : Except AppError (TranscodeJob × Streaming) :=
  let job : TranscodeJob := ⟨newId, fileId, userId, profile.asStr, "pending", inputPath,
    outputDir inputPath, none, none, now, none⟩
  if s.jobs.all (fun j => j.id ≠ newId) && (s.world.entries.find? fileId).isSome
      && (s.world.users userId).isSome then
    .ok (job, { s with jobs := s.jobs ++ [job] })
  else .error (.database .constraintViolation)

/-- `POST /api/v1/streaming/transcode` -/
def transcode (call : Call) (fileId : Uuid) (profile : Option String) :
    Except AppError (TranscodeJob × Streaming) :=
  match (s.world.owned call.user fileId).bind FileEntry.storagePath with
  | none => .error (.notFound "File not found")
  | some path =>
    queueTranscode s call.newId fileId call.user path (.ofRequest profile) call.now

def updateJob (id : Uuid) (assign : TranscodeJob → TranscodeJob) : Streaming :=
  { s with jobs := s.jobs.map fun j => if j.id = id then assign j else j }

/-- What a job leaves in its directory. -/
def putOutputs (job : TranscodeJob) (files : List (String × Bytes)) : Streaming :=
  { s with world := files.foldl (fun w file => w.putBlob (job.output file.1) file.2) s.world }

/-- The row of a job that has come to an end. -/
def finished (job : TranscodeJob) (made : Made) (now : ℤ) (j : TranscodeJob) : TranscodeJob :=
  match made.failure with
  | none => { j with
      status := "completed", masterPlaylist := some (job.output "master.m3u8"),
      completedAt := some now }
  | some err => { j with status := "failed", errorMessage := some err, completedAt := some now }

/-- `execute_transcode` -/
def executeTranscode (x : Transcoder) (jobId : Uuid) (now : ℤ) : Streaming :=
  match s.jobs.find? fun j => j.id = jobId with
  | none => s
  | some job =>
    let made := x s.world.blobs job.inputPath job.outputDir job.profile
    updateJob (putOutputs s job made.files) jobId (finished job made now)

end Requests

inductive StreamEvent
  | request (e : Event)
  | transcode (call : Call) (fileId : Uuid) (profile : Option String)
  | execute (jobId : Uuid) (now : ℤ)

/-- The jobs whose file is still there. -/
def cascade (s : Streaming) : Streaming :=
  { s with jobs := s.jobs.filter fun j => (s.world.entries.find? j.fileId).isSome }

def streamStep (env : Env) (x : Transcoder) (s : Streaming) : StreamEvent → Streaming
  | .request e => cascade { s with world := step env s.world e }
  | .transcode call fileId profile =>
    match transcode s call fileId profile with
    | .ok (_, s') => s'
    | .error _ => s
  | .execute jobId now => executeTranscode s x jobId now

/-! ## Two jobs -/

/-- **The outputs of two jobs do not collide**: their directories differ, and the execution of
either keeps the files of the other. -/
structure Apart (x : Transcoder) (now : ℤ) (s : Streaming) (j j' : TranscodeJob) : Prop where
  dirs : j.outputDir ≠ j'.outputDir
  kept : ∀ name, (executeTranscode s x j'.id now).world.blobs (j.output name) =
    s.world.blobs (j.output name)
  kept' : ∀ name, (executeTranscode s x j.id now).world.blobs (j'.output name) =
    s.world.blobs (j'.output name)

/-! ## Paths without a dot -/

theorem outputDir_eq_iff {p q : String} : outputDir p = outputDir q ↔ stem p = stem q := by
  rw [outputDir, outputDir, String.append_left_inj, String.ofList_inj]

theorem stem_eq_nil_iff {p : String} : stem p = [] ↔ '.' ∉ p.toList := by
  rw [stem, List.rdropWhile_eq_nil_iff]
  exact ⟨fun h hmem => of_decide_eq_true (h '.' hmem) rfl,
    fun h c hc => decide_eq_true fun heq => h (heq ▸ hc)⟩

theorem outputDir_of_not_mem {p : String} (h : '.' ∉ p.toList) : outputDir p = "_hls" := by
  rw [outputDir, stem_eq_nil_iff.mpr h]
  rfl

theorem dot_not_mem_text (a : Uuid) : '.' ∉ a.text.toList := by
  have hchars := a.canonical
  rw [Bool.and_eq_true, List.all_eq_true] at hchars
  exact fun h => absurd (hchars.2 '.' h) (by decide)

theorem dot_not_mem_filePath (user file : Uuid) : '.' ∉ (filePath user file).toList := by
  have htake : '.' ∉ file.text.toList.take 2 := fun h =>
    dot_not_mem_text file (List.mem_of_mem_take h)
  simp [filePath, dot_not_mem_text, htake]

theorem dot_not_mem_flatPath (user file : Uuid) : '.' ∉ (flatPath user file).toList := by
  simp [flatPath, dot_not_mem_text]

theorem dot_not_mem_resumableTransfer : '.' ∉ resumableTransfer.toList := by decide

/-- **No path of a row has a dot.** -/
theorem dot_not_mem_of_shaped {w : World} {r : FileEntry} {path : String} (h : Shaped w)
    (hr : r ∈ w.entries.rows) (hpath : r.storagePath = some path) : '.' ∉ path.toList := by
  rcases h.paths r hr path hpath with (rfl | rfl) | ⟨rfl, -⟩
  · exact dot_not_mem_filePath _ _
  · exact dot_not_mem_flatPath _ _
  · exact dot_not_mem_resumableTransfer

/-! ## Runs -/

/-- Every job has the directory of its input, whose path has no dot. -/
structure Sound (s : Streaming) : Prop where
  shaped : Shaped s.world
  dotless : ∀ j ∈ s.jobs, '.' ∉ j.inputPath.toList
  dirs : ∀ j ∈ s.jobs, j.outputDir = outputDir j.inputPath

section Steps

variable {env : Env} {x : Transcoder} {s s' : Streaming} {job : TranscodeJob}

theorem Sound.transcode {call : Call} {fileId : Uuid} {profile : Option String} (h : Sound s)
    (hs : transcode s call fileId profile = .ok (job, s')) : Sound s' := by
  rw [Transcode.transcode] at hs
  split at hs
  case h_1 => exact absurd hs (by simp)
  case h_2 path hpath =>
    obtain ⟨r, howned, hstored⟩ := Option.bind_eq_some_iff.mp hpath
    have hdot := dot_not_mem_of_shaped h.shaped (World.owned_eq_some.mp howned).1 hstored
    simp only [queueTranscode] at hs
    split at hs
    case isFalse => exact absurd hs (by simp)
    case isTrue =>
      obtain ⟨rfl, rfl⟩ := Prod.mk.inj (Except.ok.inj hs)
      refine ⟨h.shaped, fun j hj => ?_, fun j hj => ?_⟩
      · rcases List.mem_append.mp hj with hj | hj
        · exact h.dotless j hj
        · obtain rfl := List.mem_singleton.mp hj
          exact hdot
      · rcases List.mem_append.mp hj with hj | hj
        · exact h.dirs j hj
        · obtain rfl := List.mem_singleton.mp hj
          rfl

/-- What a job leaves is in files only. -/
theorem foldl_putBlob (job : TranscodeJob) : ∀ (files : List (String × Bytes)) (w : World),
    ∃ blobs, files.foldl (fun w file => w.putBlob (job.output file.1) file.2) w
      = { w with blobs := blobs }
  | [], w => ⟨w.blobs, rfl⟩
  | file :: files, w => by
      obtain ⟨blobs, hblobs⟩ := foldl_putBlob job files (w.putBlob (job.output file.1) file.2)
      exact ⟨blobs, hblobs⟩

theorem Sound.putOutputs (h : Sound s) (job : TranscodeJob) (files : List (String × Bytes)) :
    Sound (putOutputs s job files) := by
  obtain ⟨blobs, hblobs⟩ := foldl_putBlob job files s.world
  refine ⟨?_, h.dotless, h.dirs⟩
  rw [Transcode.putOutputs, hblobs]
  exact ⟨h.shaped.versions, h.shaped.paths⟩

theorem Sound.updateJob (h : Sound s) (id : Uuid) {assign : TranscodeJob → TranscodeJob}
    (hinput : ∀ j, (assign j).inputPath = j.inputPath)
    (hdir : ∀ j, (assign j).outputDir = j.outputDir) : Sound (updateJob s id assign) := by
  refine ⟨h.shaped, fun j hj => ?_, fun j hj => ?_⟩
  all_goals
    obtain ⟨j', hj', rfl⟩ := List.mem_map.mp hj
    split
  · rw [hinput]
    exact h.dotless j' hj'
  · exact h.dotless j' hj'
  · rw [hinput, hdir]
    exact h.dirs j' hj'
  · exact h.dirs j' hj'

theorem Sound.executeTranscode {jobId : Uuid} {now : ℤ} (h : Sound s) :
    Sound (executeTranscode s x jobId now) := by
  rw [Transcode.executeTranscode]
  split
  case h_1 => exact h
  case h_2 job _ =>
    refine (h.putOutputs job _).updateJob jobId (fun j => ?_) fun j => ?_
    all_goals
      rw [finished]
      split <;> rfl

theorem Sound.step {e : StreamEvent} (h : Sound s) : Sound (streamStep env x s e) := by
  rcases e with e | ⟨call, fileId, profile⟩ | ⟨jobId, now⟩
  · refine ⟨h.shaped.change (step_change env s.world e), fun j hj => ?_, fun j hj => ?_⟩
    · exact h.dotless j (List.mem_of_mem_filter hj)
    · exact h.dirs j (List.mem_of_mem_filter hj)
  · rw [streamStep]
    split
    · exact h.transcode ‹_›
    · exact h
  · exact h.executeTranscode

/-- **In every run all jobs have the directory `_hls`.** -/
theorem outputDir_run (env : Env) (x : Transcoder) (columns : List Column) (users : Uuid → Option ℤ)
    (es : List StreamEvent) :
    ∀ j ∈ (run (streamStep env x) ⟨.empty columns users, []⟩ es).jobs, j.outputDir = "_hls" := by
  have hsound : Sound (run (streamStep env x) ⟨.empty columns users, []⟩ es) :=
    run_invariant (fun _ _ h => h.step) ⟨shaped_empty columns users, fun _ h =>
      absurd h List.not_mem_nil, fun _ h => absurd h List.not_mem_nil⟩ es
  intro j hj
  rw [hsound.dirs j hj, outputDir_of_not_mem (hsound.dotless j hj)]

end Steps

/-- **The outputs of no two jobs are kept apart**: in every run each name is that of one file for
both, whatever their inputs are. -/
theorem outputs_collide (env : Env) (x : Transcoder) (columns : List Column)
    (users : Uuid → Option ℤ) (es : List StreamEvent) (now : ℤ) :
    ∀ j ∈ (run (streamStep env x) ⟨.empty columns users, []⟩ es).jobs,
      ∀ j' ∈ (run (streamStep env x) ⟨.empty columns users, []⟩ es).jobs,
        ¬ Apart x now (run (streamStep env x) ⟨.empty columns users, []⟩ es) j j' ∧
          ∀ name, j.output name = j'.output name := by
  intro j hj j' hj'
  have hdir := outputDir_run env x columns users es
  have hdirs : j.outputDir = j'.outputDir := (hdir j hj).trans (hdir j' hj').symm
  refine ⟨fun h => h.dirs hdirs, fun name => ?_⟩
  rw [TranscodeJob.output, TranscodeJob.output, hdirs]

namespace Sample

open Pcos.Sample

/-- A playlist is made of what is in the input. -/
def copying : Transcoder := fun blobs inputPath _ _ =>
  ⟨[("master.m3u8", (blobs inputPath).getD [])], none⟩

/-- A video of Alice's and one of Bob's, and a job for each. -/
def queued : List StreamEvent :=
  [.request (sent alice 0 id1 (.uploadFile none "a.mp4" "video/mp4" [0x61])),
    .request (sent bob 0 id2 (.uploadFile none "b.mp4" "video/mp4" [0x62])),
    .transcode ⟨alice, 1, id1, tmp, 0⟩ id1 none, .transcode ⟨bob, 1, id2, tmp, 0⟩ id2 none]

def executed : List StreamEvent := queued ++ [.execute id1 2, .execute id2 3]

def after (es : List StreamEvent) : Streaming :=
  run (streamStep env copying) ⟨.empty migratedColumns users, []⟩ es

/-- The two jobs. -/
theorem jobs_queued : ∃ j ∈ (after queued).jobs, ∃ j' ∈ (after queued).jobs,
    j.inputPath ≠ j'.inputPath ∧ j.outputDir = j'.outputDir := by
  have hjobs : (after queued).jobs.map (fun j => (j.inputPath, j.outputDir)) =
      [(filePath alice id1, "_hls"), (filePath bob id2, "_hls")] := by decide
  have hfirst := List.mem_map.mp (hjobs ▸ List.mem_cons_self)
  have hsecond := List.mem_map.mp (hjobs ▸ List.mem_cons_of_mem _ List.mem_cons_self)
  obtain ⟨j, hj, hpath⟩ := hfirst
  obtain ⟨j', hj', hpath'⟩ := hsecond
  obtain ⟨hinput, hdir⟩ := Prod.mk.inj hpath
  obtain ⟨hinput', hdir'⟩ := Prod.mk.inj hpath'
  exact ⟨j, hj, j', hj', hinput ▸ hinput' ▸ by decide, hdir.trans hdir'.symm⟩

end Sample

open Pcos.Sample Sample in
theorem outputs_collide_queued : ∃ j ∈ (after queued).jobs, ∃ j' ∈ (after queued).jobs,
    j.inputPath ≠ j'.inputPath ∧ ¬ Apart copying 2 (after queued) j j' ∧
      j.output "master.m3u8" = j'.output "master.m3u8" := by
  obtain ⟨j, hj, j', hj', hne, -⟩ := jobs_queued
  have h := outputs_collide env copying migratedColumns users queued 2 j hj j' hj'
  exact ⟨j, hj, j', hj', hne, h.1, h.2 "master.m3u8"⟩

open Pcos.Sample Sample in
/-- **Jobs of different inputs are not kept apart**: what is made of Alice's video is replaced by
what is made of Bob's. -/
theorem not_apart : (¬ ∀ (env : Env) (x : Transcoder) (columns : List Column)
      (users : Uuid → Option ℤ) (es : List StreamEvent) (now : ℤ),
      ∀ j ∈ (run (streamStep env x) ⟨.empty columns users, []⟩ es).jobs,
        ∀ j' ∈ (run (streamStep env x) ⟨.empty columns users, []⟩ es).jobs,
          j.inputPath ≠ j'.inputPath →
            Apart x now (run (streamStep env x) ⟨.empty columns users, []⟩ es) j j') ∧
    (after executed).jobs.map (fun j => (j.userId, j.masterPlaylist)) =
      [(alice, some "_hls/master.m3u8"), (bob, some "_hls/master.m3u8")] ∧
    (after executed).world.blobs "_hls/master.m3u8" = some [0x62] := by
  refine ⟨fun h => ?_, by decide, by decide⟩
  obtain ⟨j, hj, j', hj', hne, hdir⟩ := jobs_queued
  exact (h env copying migratedColumns users queued 2 j hj j' hj' hne).dirs hdir

end Pcos.Transcode
