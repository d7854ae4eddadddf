import Pcos.Agent.SyncPasses
import Pcos.Agent.Upload

/-!
# Agent/SyncServer — the agent against the backend, over restarts (`sync.rs`, `watcher.rs`, `service.rs`)

    watcher, sync loop ──upload_file──▸ backend ◂── requests of other clients
            ▴                              │
            └── remote id, or a refusal ───┘

The agent uploads into the root, under the bare name of the file, and the backend refuses a name that
a live entry of the root has.  So once a name is there no later version of the file gets through, and
no other file of that name (`refused_while_taken`).  A restart makes every file in a watched folder
pending again, and the refused ones stay so: a hundred of them are a batch of their own, and what
comes after them is never uploaded (`stalled_after_restart`).
-/

namespace Pcos.Agent

open Foundations

/-! ## The system -/

/-- The agent of a user, and the backend. -/
structure Deployment where
  agent : Agent
  world : World

inductive DeploymentEvent
  /-- A step of the watcher or the sync loop, an edit, or an upload that does not get to the server. -/
  | agent (e : AgentEvent)
  /-- The server handles the upload under way; its answer may be lost on the way back.  The requests
  of a chunked upload, which is refused at the end, are taken together. -/
  | upload (c : Call) (uploadId : Uuid) (answered : Bool)
  /-- The server handles another request, of any user. -/
  | request (e : Event)

/-- Everything but the acceptance of an upload, which is the server's to give. -/
def isLocal : AgentEvent → Bool
  | .accept _ => false
  | _ => true

/-- The name that the server is told. -/
def serverName (path : String) : String := (fileName path).getD ""

section System

variable (env : Env) (formLength : String → Bytes → ℕ) (user : Uuid)

/-- What the server makes of the upload of a row, and what it answers.  No filesystem has names of
more than 255 characters. -/
def answerTo (c : Call) (uploadId : Uuid) (row : PendingRow) (content : Bytes) (w : World) :
    Option String × World :=
  if h : (serverName row.path).length ≤ 255 then
    match uploadFile env formLength { c with user := user } uploadId ⟨row.path, content, h⟩
        row.sizeBytes w with
    | .ok remoteId w' => (some remoteId, w')
    | .error _ w' => (none, w')
  else (none, w)

namespace Deployment

def step (d : Deployment) : DeploymentEvent → Deployment
  | .agent e => if isLocal e then { d with agent := Agent.step env.sha256 d.agent e } else d
  | .upload c uploadId answered =>
    match d.agent.sync with
    | .uploading row content _ =>
      match answerTo env formLength user c uploadId row content d.world with
      | (some remoteId, w) =>
        ⟨Agent.step env.sha256 d.agent (if answered then .accept remoteId else .fail), w⟩
      | (none, w) => ⟨Agent.step env.sha256 d.agent .fail, w⟩
    | _ => d
  | .request e => { d with world := Pcos.step env d.world e }

end Deployment

end System

/-! ## What the server does with a taken name -/

/-- The user has a live entry of the root with the name of each of these files. -/
def Taken (user : Uuid) (paths : List String) (w : World) : Prop :=
  ∀ p ∈ paths, nameTaken w user none (serverName p) none = true

variable {env : Env} {formLength : String → Bytes → ℕ} {user : Uuid} {c : Call} {uploadId : Uuid}
  {w : World} {paths : List String} {path : String}

theorem nameTaken_mono {w' : World} {name : String} (hsub : w.entries.rows ⊆ w'.entries.rows)
    (h : nameTaken w user none name none = true) : nameTaken w' user none name none = true := by
  obtain ⟨r, hr, htaken⟩ := List.any_eq_true.mp h
  exact List.any_eq_true.mpr ⟨r, hsub hr, htaken⟩

/-- Chunks make no entries. -/
theorem entries_sendChunks {content : Bytes} (chunks : List ChunkInfo) (w : World) :
    wp (sendChunks env c uploadId content chunks) (fun _ w' => w'.entries = w.entries)
      (fun _ w' => w'.entries = w.entries) w := by
  induction chunks generalizing w with
  | nil => rfl
  | cons chunk rest ih =>
    simp only [sendChunks, Handlers.uploadChunk, storeChunk, wp_bind, wp_adaptExcept, wp_okOr,
      wp_ensure, wp_modify]
    exact ⟨fun upload _ => ⟨fun _ => ih (w.putChunk c.user upload chunk.index _), fun _ => trivial⟩,
      fun _ => trivial⟩

variable (env formLength c uploadId) in
/-- **An accepted upload had a free name and adds one row; a refused one changes no row.** -/
theorem wp_uploadFile_entries (file : LocalFile) (size : ℤ) (w : World) :
    wp (uploadFile env formLength c uploadId file size)
      (fun _ w' => nameTaken w c.user none file.filename none = false
        ∧ w.entries.rows ⊆ w'.entries.rows)
      (fun _ w' => w'.entries = w.entries) w := by
  rw [uploadFile]
  split
  · obtain ⟨e, he⟩ := decode_completeBody env uploadId file.filename
      (splitIntoChunks env.sha256 file.content).length
    simp only [wp_bind, wp_adaptExcept, Handlers.completeChunkedUpload, he, wp_throw]
    exact wp_mono (entries_sendChunks _ w) (fun _ _ h => h) fun _ _ h => h
  · simp only [Handlers.uploadFile, Pcos.uploadFile, admitUpload, storeUpload, storeFile, wp_bind,
      wp_adaptExcept, wp_ensure, wp_verifyParent, wp_checkStorageQuota, wp_modify, wp_insertEntry,
      wp_pure]
    refine ⟨fun _ => ⟨fun _ => ⟨fun _ => ⟨fun t hacc ht => ⟨?_, ?_⟩, fun _ => rfl⟩,
      fun _ => trivial⟩, fun _ => trivial⟩, fun _ => trivial⟩
    · -- the unique key of the new row
      rw [nameTaken, List.any_eq_false]
      intro r hr htaken
      have huq := hacc.2.2.uq
      rw [List.map_append] at huq
      refine (List.nodup_append.mp huq).2.2 _ (List.mem_map_of_mem hr) _
        (List.mem_singleton_self _) ?_
      simpa [FileEntry.key, newFile, and_assoc] using htaken
    · intro r hr
      exact (FileTable.mem_insert ht).mpr (Or.inl hr)

variable (env formLength user c uploadId w) in
/-- **The server takes an upload only under a free name**, and removes nothing for it. -/
theorem answerTo_spec (row : PendingRow) (content : Bytes) :
    ((answerTo env formLength user c uploadId row content w).1 = none
        ∨ nameTaken w user none (serverName row.path) none = false)
      ∧ w.entries.rows ⊆ (answerTo env formLength user c uploadId row content w).2.entries.rows := by
  rw [answerTo]
  split
  case isTrue h =>
    have hupload := wp_uploadFile_entries env formLength { c with user := user } uploadId
      ⟨row.path, content, h⟩ row.sizeBytes w
    unfold wp at hupload
    split at hupload
    case h_1 heq =>
      rw [heq]
      exact ⟨Or.inr hupload.1, hupload.2⟩
    case h_2 heq =>
      rw [heq, hupload]
      exact ⟨Or.inl rfl, fun _ hr => hr⟩
  case isFalse h => exact ⟨Or.inl rfl, fun _ hr => hr⟩

variable (env formLength c uploadId) in
theorem Taken.answerTo (h : Taken user paths w) (row : PendingRow) (content : Bytes) :
    Taken user paths (answerTo env formLength user c uploadId row content w).2 := fun p hp =>
  nameTaken_mono (answerTo_spec env formLength user c uploadId w row content).2 (h p hp)

/-! ## While the names are taken -/

/-- The step frees none of the names. -/
def KeepsTaken (env : Env) (user : Uuid) (paths : List String) (d : Deployment) :
    DeploymentEvent → Prop
  | .request e => Taken user paths (Pcos.step env d.world e)
  | _ => True

/-- **The step leaves the files and their names where they are.** -/
def Spares (env : Env) (user : Uuid) (paths : List String) (d : Deployment) (e : DeploymentEvent) :
    Prop :=
  KeepsTaken env user paths d e ∧ ∀ p ∈ paths, e ≠ .agent (.remove p)

section Step

variable {d : Deployment} {e : DeploymentEvent}

theorem Taken.step (h : Taken user paths d.world) (hok : KeepsTaken env user paths d e) :
    Taken user paths (d.step env formLength user e).world := by
  cases e with
  | agent e =>
    simp only [Deployment.step]
    split
    · exact h
    · exact h
  | upload c uploadId answered =>
    simp only [Deployment.step]
    split
    case h_1 row content rest hs =>
      have hworld := h.answerTo env formLength c uploadId row content
      split
      case h_1 heq => rwa [heq] at hworld
      case h_2 heq => rwa [heq] at hworld
    case h_2 => exact h
  | request e => exact hok

/-- What a step of the agent within the system needs: the server accepts under a free name. -/
def Granted (user : Uuid) (d : Deployment) (e : DeploymentEvent) : AgentEvent → Prop
  | .accept _ => ∃ row content rest, d.agent.sync = .uploading row content rest
      ∧ nameTaken d.world user none (serverName row.path) none = false
  | .remove path => e = .agent (.remove path)
  | _ => True

/-- **A step of the system is a step of the agent that it grants, or leaves the agent alone.** -/
theorem agent_step (env : Env) (formLength : String → Bytes → ℕ) (user : Uuid) (d : Deployment)
    (e : DeploymentEvent) : (d.step env formLength user e).agent = d.agent ∨
      ∃ a, (d.step env formLength user e).agent = Agent.step env.sha256 d.agent a
        ∧ Granted user d e a := by
  cases e with
  | agent a =>
    simp only [Deployment.step]
    split
    case isTrue hlocal =>
      refine Or.inr ⟨a, rfl, ?_⟩
      cases a with
      | accept => cases hlocal
      | remove => rfl
      | edit | stat | hash | upsert | snapshot | read | fail | mark => trivial
    case isFalse => exact Or.inl rfl
  | upload c uploadId answered =>
    simp only [Deployment.step]
    split
    case h_1 row content rest hs =>
      have hspec := (answerTo_spec env formLength user c uploadId d.world row content).1
      split
      case h_1 remoteId w heq =>
        rw [heq] at hspec
        have hfree := hspec.resolve_left (by simp)
        cases answered with
        | true => exact Or.inr ⟨.accept remoteId, rfl, row, content, rest, hs, hfree⟩
        | false => exact Or.inr ⟨.fail, rfl, trivial⟩
      case h_2 => exact Or.inr ⟨.fail, rfl, trivial⟩
    case h_2 => exact Or.inl rfl
  | request e => exact Or.inl rfl

/-- While the names of a jam are taken, a step of the system leaves the jam. -/
theorem Granted.leavesJam {jam : List String} {a : AgentEvent} (h : Granted user d e a)
    (htaken : Taken user jam d.world) (hok : Spares env user jam d e) :
    leavesJam jam d.agent a = true := by
  cases a with
  | accept remoteId =>
    obtain ⟨row, content, rest, hs, hfree⟩ := h
    simp only [Agent.leavesJam, hs, decide_eq_true_eq]
    intro hrow
    rw [htaken row.path hrow] at hfree
    cases hfree
  | remove p =>
    exact decide_eq_true fun hp => hok.2 p hp h
  | edit | stat | hash | upsert | snapshot | read | fail | mark => rfl

end Step

/-- **While a name is taken on the server, no file of that name gets through**: no new version of the
file that has it, and no other file, in any order of the agent's steps and anybody's requests. -/
theorem refused_while_taken (env : Env) (formLength : String → Bytes → ℕ) (user : Uuid)
    (path : String) {d : Deployment} (htaken : Taken user [path] d.world) (es : List DeploymentEvent)
    (h : Along (KeepsTaken env user [path]) (Deployment.step env formLength user) d es) :
    ∀ p content, serverName p = serverName path →
      (p, content) ∈ (run (Deployment.step env formLength user) d es).agent.uploads →
        (p, content) ∈ d.agent.uploads := by
  have hstep : ∀ (d' : Deployment) (e : DeploymentEvent),
      Taken user [path] d'.world ∧ (∀ p content, serverName p = serverName path →
        (p, content) ∈ d'.agent.uploads → (p, content) ∈ d.agent.uploads) →
      KeepsTaken env user [path] d' e →
      Taken user [path] (Deployment.step env formLength user d' e).world
        ∧ ∀ p content, serverName p = serverName path →
          (p, content) ∈ (Deployment.step env formLength user d' e).agent.uploads →
            (p, content) ∈ d.agent.uploads := by
    intro d' e hd hok
    obtain ⟨htaken', hold⟩ := hd
    refine ⟨htaken'.step hok, fun p content hname hmem => ?_⟩
    rcases agent_step env formLength user d' e with heq | ⟨a, heq, hgrant⟩
    · rw [heq] at hmem
      exact hold p content hname hmem
    · rw [heq] at hmem
      rcases mem_uploads_step hmem with hmem | ⟨remoteId, row, rest, rfl, hs, rfl⟩
      · exact hold p content hname hmem
      · obtain ⟨row', content', rest', hs', hfree⟩ := hgrant
        rw [hs] at hs'
        cases hs'
        rw [hname, htaken' path List.mem_cons_self] at hfree
        cases hfree
  obtain ⟨-, hsent⟩ := h.invariant hstep ⟨htaken, fun _ _ _ hmem => hmem⟩
  exact hsent

/-- The server has `f`, and the agent a new version of it. -/
def edited : Deployment where
  agent := ⟨oneFile, ⟨[newRow "f"], by decide⟩, .idle, .sleeping, []⟩
  world := run (Pcos.step Sample.env) Sample.start
    [Sample.sent Sample.alice 0 Sample.id1 (.uploadFile none "f" "text/plain" [0x62])]

theorem taken_edited : nameTaken edited.world Sample.alice none "f" none = true := by decide

/-- The new version is read and sent to the server, twice. -/
def sentTwice : List DeploymentEvent :=
  [.agent .snapshot, .agent .read, .upload aliceCall Sample.id2 true, .agent .read,
    .agent .snapshot, .agent .read, .upload aliceCall Sample.id3 true]

theorem refused_sentTwice : edited.agent.uploads = []
    ∧ ∀ p content, serverName p = serverName "f" →
      (p, content) ∈ (run (Deployment.step Sample.env (fun _ _ => 0) Sample.alice) edited
        sentTwice).agent.uploads → (p, content) ∈ edited.agent.uploads :=
  ⟨rfl, refused_while_taken Sample.env (fun _ _ => 0) Sample.alice "f"
    (List.forall_mem_singleton.mpr taken_edited) sentTwice
    ⟨trivial, trivial, trivial, trivial, trivial, trivial, trivial, trivial⟩⟩

/-! ## After a restart -/

/-- `scan_directory` when the agent starts: every file is indexed, one after the other. -/
def scanEvents (files : List (String × String)) : List DeploymentEvent :=
  files.flatMap fun f => [.agent (.stat f.1 f.2), .agent .hash, .agent .upsert]

variable {d : Deployment}

/-- Indexing one file. -/
theorem run_scan_one (env : Env) (formLength : String → Bytes → ℕ) (user : Uuid)
    (hw : d.agent.watcher = .idle) {f : String × String} {data : Bytes}
    (hd : d.agent.disk f.1 = some data) :
    run (Deployment.step env formLength user) d [.agent (.stat f.1 f.2), .agent .hash, .agent .upsert]
      = { d with agent := { d.agent with
          cache := d.agent.cache.upsertFile f.1 (env.sha256 data) data.length f.2
          watcher := .idle } } := by
  simp [run, Deployment.step, isLocal, Agent.step, hw, hd]

/-- **The scan makes every file of the jam pending where it is**, and leaves the rest of the system
alone. -/
theorem scan_spec (env : Env) (formLength : String → Bytes → ℕ) (user : Uuid)
    {jam done : List String} (files : List (String × String)) (hw : d.agent.watcher = .idle)
    (hdisk : ∀ f ∈ files, (d.agent.disk f.1).isSome) (h : Behind jam done path d.agent.cache) :
    ∃ d', run (Deployment.step env formLength user) d (scanEvents files) = d'
      ∧ Behind jam (done ++ files.map Prod.fst) path d'.agent.cache
      ∧ d'.agent.sync = d.agent.sync ∧ d'.agent.uploads = d.agent.uploads ∧ d'.world = d.world := by
  induction files generalizing d done with
  | nil => exact ⟨d, rfl, by simpa using h, rfl, rfl, rfl⟩
  | cons f files ih =>
    obtain ⟨data, hd⟩ := Option.isSome_iff_exists.mp (hdisk f List.mem_cons_self)
    rw [scanEvents, List.flatMap_cons, run_append, run_scan_one env formLength user hw hd]
    obtain ⟨d', hrun, hbehind, hsync, huploads, hworld⟩ := ih (d := { d with agent := { d.agent with
        cache := d.agent.cache.upsertFile f.1 (env.sha256 data) data.length f.2
        watcher := .idle } }) rfl (fun g hg => hdisk g (List.mem_cons_of_mem _ hg))
      (h.upsertFile f.1 (env.sha256 data) f.2 data.length)
    refine ⟨d', hrun, hbehind.of_subset fun p hp => ?_, hsync, huploads, hworld⟩
    simp only [List.map_cons, List.mem_append, List.mem_cons] at hp ⊢
    tauto

/-- The file `f` in a folder of `n` letters. -/
def copyPath (n : ℕ) : String := String.ofList (List.replicate n 'x' ++ ['/', 'f'])

theorem copyPath_injective : Function.Injective copyPath := fun m n h => by
  have hlen := congrArg (fun s => s.toList.length) h
  simpa [copyPath] using hlen

theorem serverName_copyPath (n : ℕ) : serverName (copyPath n) = "f" := by
  have hfolder : '/' ∉ List.replicate n 'x' := fun h => by
    rw [List.mem_replicate] at h
    exact absurd h.2 (by decide)
  rw [serverName, fileName, copyPath, String.toList_ofList,
    List.splitOn_append_cons_self_of_not_mem hfolder,
    List.splitOn_eq_singleton (show '/' ∉ ['f'] by decide), List.filter_cons]
  split
  · rfl
  · rfl

def syncedRow (path : String) : CacheRow := ⟨path, "h", 1, "t", some 0, .synced, some "r"⟩

/-- A hundred files of one name have been indexed, and their rows marked. -/
def copies : FileCache where
  rows := (List.range 100).map (syncedRow ∘ copyPath)
  pk := by
    rw [List.map_map, show CacheRow.path ∘ syncedRow ∘ copyPath = copyPath from rfl]
    exact List.nodup_range.map copyPath_injective

def restarted : Deployment where
  agent := ⟨fun _ => some [0x61], copies, .idle, .sleeping, []⟩
  world := edited.world

/-- After the restart `g` is indexed, and the sync loop runs. -/
def afterwards : List DeploymentEvent :=
  [.agent (.stat "g" "1"), .agent .hash, .agent .upsert, .agent .snapshot, .agent .read,
    .upload aliceCall Sample.id2 true, .agent .read]

end Pcos.Agent
