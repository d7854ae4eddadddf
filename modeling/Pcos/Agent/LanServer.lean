import Pcos.Agent.DiskPolicy
import Pcos.Agent.Effects
import Pcos.Agent.QueryDecoding
import Pcos.Backend.Ranges
import Pcos.Foundations.Words

/-!
# Agent/LanServer — files for clients on the local network (`agent/src/lan_server.rs`)

    request ──token──▸ storage root ──is_path_permitted──▸ list │ stat │ read
                             └───────────────────────────▸ checksum

Each connection carries one request.  Three of the four routes look whether the root is permitted,
the fourth does not.  **What is read was asked for with the token, and lies in the root that was
asked for** (`serves_reads`); without the token the answer is the same whatever the files are
(`answers_unauthorized`).
-/

namespace Pcos.FsHandler.LanServer

open Foundations

/-! ## The surroundings -/

structure LanServerConfig where
  deviceId : String
  authToken : String
  allowedDisks : List String

/-- What a request finds besides the files: the working directory, the name of the host and the text
of a failure, which the system gives, and the SHA-256. -/
structure Process where
  currentDir : Option Location
  hostname : Option String
  osError : String
  sha256 : Bytes → String

/-! ## Requests -/

structure LanRequest where
  method : String
  path : String
  query : Dict String String
  headers : Dict String String

/-- A line without the carriage return before its end. -/
def withoutReturn (line : List Char) : List Char :=
  if line.getLast? = some '\r' then line.dropLast else line

/-- `str::lines`, of the pieces between newlines: what follows the last one is no line if it is
empty, and keeps its carriage return. -/
def ofPieces : List (List Char) → List (List Char)
  | [] => []
  | [last] => if last = [] then [] else [last]
  | line :: rest => withoutReturn line :: ofPieces rest

def lines (text : List Char) : List (List Char) := ofPieces (text.splitOnP (· = '\n'))

section Requests

variable (lower : String → String)

/-- A header comes into the map, if there is a colon in it. -/
def insertHeader (map : Dict String String) (line : List Char) : Dict String String :=
  match Agent.splitOnce ':' line with
  | some (k, v) =>
    map.set (lower (trim isWhiteSpace (String.ofList k))) (trim isWhiteSpace (String.ofList v))
  | none => map

def parseRequest (bytes : Bytes) : Option LanRequest :=
  match lines (fromUtf8Lossy bytes).toList with
  | [] => none
  | requestLine :: rest =>
    match words isWhiteSpace requestLine with
    | method :: fullPath :: _ =>
      let (path, query) := Agent.parseQuery (String.ofList fullPath)
      some {
        method := String.ofList method
        path := path
        query := query
        headers := (rest.takeWhile fun line => line ≠ [] ∧ line ≠ ['\r']).foldl
          (insertHeader lower) .empty }
    | _ => none

end Requests

namespace LanRequest

variable (q : LanRequest)

/-- The token of the request, from the header or the query. -/
def token : String :=
  let authHeader := (q.headers.get "authorization").getD ""
  trim isWhiteSpace <|
    if "Bearer ".toList.isPrefixOf authHeader.toList then String.ofList (authHeader.toList.drop 7)
    else (q.query.get "token").getD ""

def storagePath : String := (q.query.get "storage_path").getD "."

def relPath : String := (q.query.get "path").getD ""

end LanRequest

/-- The routes to files. -/
inductive Route
  | list
  | stat
  | read
  | checksum
  deriving DecidableEq

def Route.path : Route → String
  | .list => "/api/v1/lan/fs/list"
  | .stat => "/api/v1/lan/fs/stat"
  | .read => "/api/v1/lan/fs/read"
  | .checksum => "/api/v1/lan/fs/checksum"

def LanRequest.route (q : LanRequest) : Option Route :=
  [.list, .stat, .read, .checksum].find? fun route : Route => q.path = route.path ∧ q.method = "GET"

/-- Constant-time string comparison. -/
def constantTimeEq (a b : String) : Bool :=
  let aBytes := encodeUtf8 a
  let bBytes := encodeUtf8 b
  if aBytes.length ≠ bBytes.length then false
  else (aBytes.zip bBytes).foldl (fun diff xy => diff ||| (xy.1 ^^^ xy.2)) 0 = 0

/-! ## Paths -/

/-- `canonicalize` of a path that may start from the working directory. -/
def realPath (fs : FileSystem) (currentDir : Option Location) (path : String) : Option Location :=
  if path = "" then none
  else if path.toList.head? = some '/' then fs.walk maxLinks [] (Foundations.pieces path)
  else currentDir.bind fun dir => fs.walk maxLinks dir (Foundations.pieces path)

/-- `trim_start_matches(r"\\?\")` -/
def trimVerbatim : List Char → List Char
  | '\\' :: '\\' :: '?' :: '\\' :: rest => trimVerbatim rest
  | text => text

/-- A path as it is compared. -/
def cleanPath (lower : String → String) (path : String) : List Char :=
  (trimVerbatim (lower path).toList).rdropWhile Disks.isSeparator

def isPathPermitted (lower : String → String) (currentDir : Option Location) (target : Location)
    (allowedDisks : List String) : Bool :=
  let cleanTarget := cleanPath lower (pathText target)
  if allowedDisks ≠ [] then
    allowedDisks.any fun al =>
      let cleanAl := cleanPath lower (trim isWhiteSpace al)
      cleanTarget = cleanAl || cleanAl.isPrefixOf cleanTarget || cleanTarget.isPrefixOf cleanAl
  else
    currentDir.any fun cwd =>
      let cleanCwd := cleanPath lower (pathText cwd)
      cleanTarget = cleanCwd || cleanCwd.isPrefixOf cleanTarget

/-! ## Answers -/

inductive LanReply
  | preflight
  | pong (deviceId hostname : String)
  | failed (status : ℕ) (error : String) (code : Option String)
  | listing (result : ListDirResult)
  | stat (result : Handler.StatResult)
  /-- The headers, and then the bytes if the file can be opened. -/
  | content (mime : String) (answer : Ranges.Checked Ranges.Answer) (opened : Bool)
  | checksum (sha256 : String)

/-- The table of `detect_mime`. -/
def mimeTypes : List (String × String) :=
  [("mp4", "video/mp4"), ("webm", "video/webm"), ("mkv", "video/x-matroska"), ("mp3", "audio/mpeg"),
    ("flac", "audio/flac"), ("wav", "audio/wav"), ("jpg", "image/jpeg"), ("jpeg", "image/jpeg"),
    ("png", "image/png"), ("gif", "image/gif"), ("webp", "image/webp"), ("svg", "image/svg+xml"),
    ("pdf", "application/pdf"), ("json", "application/json"), ("txt", "text/plain; charset=utf-8"),
    ("md", "text/plain; charset=utf-8"), ("rs", "text/plain; charset=utf-8"),
    ("dart", "text/plain; charset=utf-8"), ("ts", "text/plain; charset=utf-8")]

/-- `Path::extension` of a name: what follows its last dot, unless that is its first character. -/
def extension (name : String) : Option String :=
  let last := name.toList.reverse.takeWhile (· ≠ '.')
  if name.toList.length ≤ last.length + 1 then none else some (String.ofList last.reverse)

def detectMime (lower : String → String) (loc : Location) : String :=
  (mimeTypes.lookup (lower ((extension (loc.getLast?.getD "")).getD ""))).getD
    "application/octet-stream"

section Serving

variable (config : LanServerConfig) (proc : Process) (q : LanRequest)

/-- Find the root, and see whether it is permitted. -/
def withRoot (guarded : Bool) (serve : Location → Handler LanReply) : Handler LanReply := do
  let s ← get
  match realPath s.fs proc.currentDir q.storagePath with
  | none => pure (.failed 404 "Storage root not found" none)
  | some canonicalRoot =>
    if guarded && !isPathPermitted s.host.toLowercase proc.currentDir canonicalRoot
        config.allowedDisks then
      pure (.failed 403 "Access to storage path is restricted by node allowlist policy"
        (some "PATH_NOT_ALLOWED"))
    else serve canonicalRoot

def serveList : Handler LanReply := withRoot config proc q true fun root => do
  match ← attempt (Handler.listDir (pathText root) q.relPath) with
  | .ok result => pure (.listing result)
  | .error e => pure (.failed 400 (e.display proc.osError) none)

def serveStat : Handler LanReply := withRoot config proc q true fun root => do
  match ← attempt (Handler.stat (pathText root) q.relPath) with
  | .ok result => pure (.stat result)
  | .error e => pure (.failed 404 (e.display proc.osError) none)

/-- The bytes of a file; there is none of 2^64 bytes. -/
def contentOf (data : Bytes) : Option Ranges.Content :=
  if h : data.length < 2 ^ 64 then some ⟨data, h⟩ else none

def serveRead : Handler LanReply := withRoot config proc q true fun root => do
  match ← attempt (Handler.resolve (pathText root) q.relPath) with
  | .error e => pure (.failed 403 (e.display proc.osError) none)
  | .ok targetPath => do
    let s ← get
    match targetPath.canonicalize s.fs with
    | none => pure (.failed 404 "File not found" none)
    | some loc =>
      match (s.file loc).bind contentOf with
      | none => pure (.failed 404 "File not found" none)
      | some file =>
        let content := LanReply.content (detectMime s.host.toLowercase loc)
          (Ranges.lanRead file (q.headers.get "range"))
        match ← attempt (access (.read loc)) with
        | .error _ => pure (content false)
        | .ok () => pure (content true)

def serveChecksum : Handler LanReply := withRoot config proc q false fun root => do
  match ← attempt (Handler.resolve (pathText root) q.relPath) with
  | .error e => pure (.failed 403 (e.display proc.osError) none)
  | .ok targetPath => do
    let s ← get
    match targetPath.canonicalize s.fs with
    | none => pure (.failed 500 proc.osError none)
    | some loc =>
      match s.file loc with
      | none => pure (.failed 500 proc.osError none)
      | some data =>
        match ← attempt (access (.read loc)) with
        | .error _ => pure (.failed 500 proc.osError none)
        | .ok () => pure (.checksum (proc.sha256 data))

def serve : Handler LanReply :=
  match q.route with
  | some .list => serveList config proc q
  | some .stat => serveStat config proc q
  | some .read => serveRead config proc q
  | some .checksum => serveChecksum config proc q
  | none => pure (.failed 404 "Endpoint not found" none)

/-- The answer to a request that does not get to the files. -/
def screen : Option LanReply :=
  if q.method = "OPTIONS" then some .preflight
  else if q.path = "/api/v1/lan/ping" then
    some (.pong config.deviceId (proc.hostname.getD "unknown"))
  else if config.authToken = "" then
    some (.failed 503 "LAN server unconfigured: missing device authentication token"
      (some "DEVICE_TOKEN_REQUIRED"))
  else if q.token = "" || !constantTimeEq q.token config.authToken then
    some (.failed 401 "Unauthorized direct LAN access" (some "UNAUTHORIZED"))
  else none

/-- The answer to a request, if there is one. -/
def handleConnection (bytes : Bytes) : Handler (Option LanReply) := do
  let s ← get
  match parseRequest s.host.toLowercase bytes with
  | none => pure none
  | some q =>
    match screen config proc q with
    | some reply => pure (some reply)
    | none => do
      let reply ← serve config proc q
      pure (some reply)

end Serving

/-! ## Tokens -/

theorem foldl_or_eq_zero {d : UInt8} {l : List (UInt8 × UInt8)} :
    l.foldl (fun diff xy => diff ||| (xy.1 ^^^ xy.2)) d = 0 ↔ d = 0 ∧ ∀ xy ∈ l, xy.1 = xy.2 := by
  induction l generalizing d with
  | nil => simp
  | cons xy l ih =>
    rw [List.foldl_cons, ih, UInt8.or_eq_zero_iff, UInt8.xor_eq_zero_iff, List.forall_mem_cons,
      and_assoc]

theorem forall_mem_zip_iff {α : Type*} : ∀ {l l' : List α}, l.length = l'.length →
    ((∀ xy ∈ l.zip l', xy.1 = xy.2) ↔ l = l')
  | [], [], _ => by simp
  | a :: l, b :: l', hlen => by
      rw [List.zip_cons_cons, List.forall_mem_cons, List.cons.injEq,
        forall_mem_zip_iff (Nat.succ.inj hlen)]

/-- **The comparison is equality.** -/
theorem constantTimeEq_iff {a b : String} : constantTimeEq a b = true ↔ a = b := by
  unfold constantTimeEq
  dsimp only
  split
  · rename_i hlen
    refine iff_of_false Bool.false_ne_true ?_
    rintro rfl
    exact hlen rfl
  · rename_i hlen
    rw [decide_eq_true_eq, foldl_or_eq_zero, and_iff_right rfl, forall_mem_zip_iff (not_not.mp hlen),
      encodeUtf8_injective.eq_iff]

/-! ## Roots -/

/-- What a path leads to is no link. -/
theorem solid_of_realPath {fs : FileSystem} {root : Location} {path : String}
    {currentDir : Option Location} (h : realPath fs currentDir path = some root) :
    FileSystem.Solid fs root := by
  unfold realPath at h
  split at h
  · cases h
  · split at h
    · exact solid_of_walk h
    · obtain ⟨dir, -, hdir⟩ := Option.bind_eq_some_iff.mp h
      exact solid_of_walk hdir

/-! ## What is read -/

section Serving

variable {config : LanServerConfig} {proc : Process} {q : LanRequest} {s : System}

theorem wp_withRoot {guarded : Bool} {serve : Location → Handler LanReply}
    (hserve : ∀ root, realPath s.fs proc.currentDir q.storagePath = some root →
      wp (serve root) (fun _ s' => Reads s s' root) (fun _ _ => False) s) :
    wp (withRoot config proc q guarded serve)
      (fun _ s' => s' = s ∨ ∃ root, realPath s.fs proc.currentDir q.storagePath = some root ∧
        (guarded = true → isPathPermitted s.host.toLowercase proc.currentDir root
          config.allowedDisks = true) ∧ Reads s s' root) (fun _ _ => False) s := by
  rw [withRoot, wp_bind, wp_get]
  split
  case h_1 => exact .inl rfl
  case h_2 root hroot =>
    split
    case isTrue => exact .inl rfl
    case isFalse hpermitted =>
      refine wp_mono (hserve root hroot) (fun _ s' h => .inr ⟨root, hroot, fun hguard => ?_, h⟩)
        fun _ _ h => h
      simpa [hguard] using hpermitted

/-- The root of a request by its text. -/
theorem canonicalize_of_realPath {root : Location}
    (h : realPath s.fs proc.currentDir q.storagePath = some root) :
    (PathBuf.mk [] (Foundations.pieces (pathText root))).canonicalize s.fs = some root :=
  canonicalize_pathText (solid_of_realPath h)

/-- A file that a request leads to is read, if it can be. -/
theorem wp_readFile {root loc : Location} {p : PathBuf} {give fail : LanReply} {relPath : String}
    (hroot : realPath s.fs proc.currentDir q.storagePath = some root)
    (hres : safeResolve s.fs (pathText root) relPath = .ok p)
    (hloc : p.canonicalize s.fs = some loc) :
    wp (do
        match ← attempt (access (.read loc)) with
        | .error _ => pure fail
        | .ok () => pure give : Handler LanReply)
      (fun _ s' => Reads s s' root) (fun _ _ => False) s := by
  rw [wp_bind, wp_attempt]
  have hpre := prefix_of_resolved (canonicalize_of_realPath hroot) hres hloc
  exact wp_mono (wp_access_reads hpre) (fun _ _ h => h) fun _ _ h => h

/-- **A route reads in the root that is asked for**, if that is permitted; the checksum needs no
permission. -/
theorem wp_serve : wp (serve config proc q)
    (fun _ s' => s' = s ∨ ∃ route root, q.route = some route ∧
      realPath s.fs proc.currentDir q.storagePath = some root ∧
      (route ≠ .checksum → isPathPermitted s.host.toLowercase proc.currentDir root
        config.allowedDisks = true) ∧ Reads s s' root) (fun _ _ => False) s := by
  have hroute : ∀ {route : Route} {guarded : Bool} {give : Location → Handler LanReply},
      q.route = some route → (route ≠ .checksum → guarded = true) →
      (∀ root, realPath s.fs proc.currentDir q.storagePath = some root →
        wp (give root) (fun _ s' => Reads s s' root) (fun _ _ => False) s) →
      wp (withRoot config proc q guarded give)
        (fun _ s' => s' = s ∨ ∃ route root, q.route = some route ∧
          realPath s.fs proc.currentDir q.storagePath = some root ∧
          (route ≠ .checksum → isPathPermitted s.host.toLowercase proc.currentDir root
            config.allowedDisks = true) ∧ Reads s s' root) (fun _ _ => False) s := by
    intro route guarded give hq hguard hgive
    refine wp_mono (wp_withRoot hgive) (fun _ s' h => h.imp_right ?_) fun _ _ h => h
    rintro ⟨root, hroot, hpermitted, hreads⟩
    exact ⟨route, root, hq, hroot, fun hne => hpermitted (hguard hne), hreads⟩
  unfold serve
  split
  case h_1 hq =>
    refine hroute hq (fun _ => rfl) fun root hroot => ?_
    rw [wp_bind, wp_attempt]
    exact wp_listDir_reads (canonicalize_of_realPath hroot)
  case h_2 hq =>
    refine hroute hq (fun _ => rfl) fun root hroot => ?_
    rw [wp_bind, wp_attempt]
    exact wp_stat_reads (canonicalize_of_realPath hroot)
  case h_3 hq =>
    refine hroute hq (fun _ => rfl) fun root hroot => ?_
    simp only [wp_bind, wp_attempt, Handler.resolve, wp_get, wp_ofExcept]
    refine ⟨fun p hres => ?_, fun _ _ => .refl⟩
    split
    case h_1 => exact .refl
    case h_2 loc hloc =>
      split
      case h_1 => exact .refl
      case h_2 => exact wp_readFile hroot hres hloc
  case h_4 hq =>
    refine hroute hq (fun hne => absurd rfl hne) fun root hroot => ?_
    simp only [wp_bind, wp_attempt, Handler.resolve, wp_get, wp_ofExcept]
    refine ⟨fun p hres => ?_, fun _ _ => .refl⟩
    split
    case h_1 => exact .refl
    case h_2 loc hloc =>
      split
      case h_1 => exact .refl
      case h_2 => exact wp_readFile hroot hres hloc
  case h_5 => exact .inl rfl

/-- The request carries the token, and there is one. -/
def Authorized (config : LanServerConfig) (lower : String → String) (bytes : Bytes) : Prop :=
  config.authToken ≠ "" ∧ ∃ q, parseRequest lower bytes = some q ∧ q.token = config.authToken

/-- What a request with the token may read: objects in its root, if that is permitted or only the
checksum is asked for. -/
def Grants (config : LanServerConfig) (proc : Process) (s : System) (bytes : Bytes) (a : Access) :
    Prop :=
  config.authToken ≠ "" ∧ ∃ q route root loc, parseRequest s.host.toLowercase bytes = some q ∧
    q.token = config.authToken ∧ q.route = some route ∧
    realPath s.fs proc.currentDir q.storagePath = some root ∧
    (route ≠ .checksum → isPathPermitted s.host.toLowercase proc.currentDir root
      config.allowedDisks = true) ∧ a = .read loc ∧ root <+: loc

/-- Only the token gets a request to the files. -/
theorem token_of_screen (h : screen config proc q = none) :
    config.authToken ≠ "" ∧ q.token = config.authToken := by
  unfold screen at h
  split_ifs at h with hoptions hping htoken hcompare
  rw [Bool.or_eq_true, not_or, Bool.not_eq_true, Bool.not_eq_true, Bool.not_eq_false',
    constantTimeEq_iff] at hcompare
  exact ⟨htoken, hcompare.2⟩

variable {bytes : Bytes}

/-- **A connection is always answered, and reads what its request may read.** -/
theorem wp_handleConnection : wp (handleConnection config proc bytes)
    (fun _ s' => s'.host = s.host ∧ s'.denied = s.denied ∧ ∃ more,
      s'.accesses = s.accesses ++ more ∧ ∀ a ∈ more, Grants config proc s bytes a)
    (fun _ _ => False) s := by
  have hsame : s.host = s.host ∧ s.denied = s.denied ∧ ∃ more,
      s.accesses = s.accesses ++ more ∧ ∀ a ∈ more, Grants config proc s bytes a :=
    ⟨rfl, rfl, [], (List.append_nil _).symm, List.forall_mem_nil _⟩
  rw [handleConnection, wp_bind, wp_get]
  split
  case h_1 => exact hsame
  case h_2 q hq =>
    split
    case h_1 => exact hsame
    case h_2 hscreen =>
      obtain ⟨htoken, hcarried⟩ := token_of_screen hscreen
      rw [wp_bind]
      refine wp_mono wp_serve ?_ fun _ _ h => h
      rintro _ s' (rfl | ⟨route, root, hroute, hroot, hpermitted, hreads⟩)
      · exact hsame
      · obtain ⟨more, haccesses, hmore⟩ := hreads.accesses
        refine ⟨hreads.host, hreads.denied, more, haccesses, fun a ha => ?_⟩
        obtain ⟨loc, rfl, hpre⟩ := hmore a ha
        exact ⟨htoken, q, route, root, loc, hq, hcarried, hroute, hroot, hpermitted, rfl, hpre⟩

variable (proc) in
/-- **Without the token the answer does not depend on the files**, and nothing is touched. -/
theorem handleConnection_of_unauthorized {lower : String → String}
    (h : ¬ Authorized config lower bytes) : ∃ reply, ∀ s : System, s.host.toLowercase = lower →
      handleConnection config proc bytes s = .ok reply s := by
  cases hq : parseRequest lower bytes with
  | none =>
    refine ⟨none, fun s hs => ok_of_wp ?_⟩
    rw [handleConnection, wp_bind, wp_get, hs, hq]
    exact ⟨rfl, rfl⟩
  | some q =>
    cases hscreen : screen config proc q with
    | none =>
      obtain ⟨htoken, hcarried⟩ := token_of_screen hscreen
      exact absurd ⟨htoken, q, hq, hcarried⟩ h
    | some reply =>
      refine ⟨some reply, fun s hs => ok_of_wp ?_⟩
      rw [handleConnection, wp_bind, wp_get, hs, hq]
      dsimp only
      rw [hscreen]
      exact ⟨rfl, rfl⟩

end Serving

/-! ## Runs -/

/-- What happens to the server: a connection, or a change that others make to the files. -/
inductive Event
  | connection (bytes : Bytes)
  | change (fs : FileSystem) (modifiedAt : Location → Option String) (isReadonly : Location → Bool)
      (denied : Access → Bool)

section Runs

variable (config : LanServerConfig) (proc : Process)

def step (s : System) : Event → System
  | .connection bytes => leaves (handleConnection config proc bytes) s
  | .change fs modifiedAt isReadonly denied =>
    { s with
      host := { s.host with fs := fs, modifiedAt := modifiedAt, isReadonly := isReadonly }
      denied := denied }

/-- The answer to a connection. -/
def answer (s : System) (bytes : Bytes) : Option LanReply :=
  match handleConnection config proc bytes s with
  | .ok reply _ => reply
  | .error _ _ => none

/-- The answers of a run. -/
def answers : System → List Event → List (Option LanReply)
  | _, [] => []
  | s, .connection bytes :: events =>
    answer config proc s bytes :: answers (step config proc s (.connection bytes)) events
  | s, event :: events => answers (step config proc s event) events

/-- The requests of a run. -/
def requests (events : List Event) : List Bytes :=
  events.filterMap fun event =>
    match event with
    | .connection bytes => some bytes
    | .change .. => none

variable {config proc}

/-- The answers to requests without the token are those of any other state. -/
theorem answers_of_unauthorized {lower : String → String} (s₀ : System)
    (hs₀ : s₀.host.toLowercase = lower) (events : List Event)
    (h : ∀ bytes ∈ requests events, ¬ Authorized config lower bytes) (s : System)
    (hs : s.host.toLowercase = lower) :
    answers config proc s events = (requests events).map (answer config proc s₀) := by
  induction events generalizing s with
  | nil => rfl
  | cons event events ih =>
    cases event with
    | change => exact ih h _ hs
    | connection bytes =>
      have hfirst := h bytes List.mem_cons_self
      obtain ⟨reply, hreply⟩ := handleConnection_of_unauthorized proc hfirst
      have hstep : step config proc s (.connection bytes) = s := by
        change leaves _ s = s
        rw [leaves, hreply s hs]
      have hsame : answer config proc s bytes = answer config proc s₀ bytes := by
        rw [answer, answer, hreply s hs, hreply s₀ hs₀]
      rw [answers, hstep, hsame, ih (fun b hb => h b (List.mem_cons_of_mem _ hb)) s hs]
      rfl

/-- **Without the token a client learns nothing of the files**: whatever they are and become, it gets
the same answers. -/
theorem answers_unauthorized {s s' : System} {events events' : List Event}
    (hlower : s.host.toLowercase = s'.host.toLowercase) (hrequests : requests events = requests events')
    (h : ∀ bytes ∈ requests events, ¬ Authorized config s.host.toLowercase bytes) :
    answers config proc s events = answers config proc s' events' := by
  rw [answers_of_unauthorized s rfl events h s rfl, hrequests,
    answers_of_unauthorized s rfl events' (hrequests ▸ h) s' hlower.symm]

end Runs

namespace Sample

/-- A request without a token. -/
def bare : Bytes := encodeUtf8 "GET /api/v1/lan/fs/list HTTP/1.1"

theorem parseRequest_bare : parseRequest id bare =
    some ⟨"GET", "/api/v1/lan/fs/list", .empty, .empty⟩ := by
  rw [parseRequest, bare, fromUtf8Lossy_encodeUtf8]
  rfl

def server : LanServerConfig := ⟨"d", "secret", []⟩

def nothing : FileSystem := ⟨[], List.nodup_nil, List.forall_mem_nil _⟩

/-- The two states differ in their files. -/
def before (fs : FileSystem) : System := ⟨⟨fs, fun _ => none, fun _ => false, id⟩, fun _ => false, []⟩

/-- A request for a listing, with the token. -/
def listing : Bytes := encodeUtf8 "GET /api/v1/lan/fs/list HTTP/1.1\nauthorization: Bearer t"

def config : LanServerConfig := ⟨"d", "t", []⟩

def process : Process := ⟨some ["s"], none, "", fun _ => ""⟩

def parsed : LanRequest :=
  ⟨"GET", "/api/v1/lan/fs/list", .empty, Dict.empty.set "authorization" "Bearer t"⟩

theorem parseRequest_listing : parseRequest id listing = some parsed := by
  rw [parseRequest, listing, fromUtf8Lossy_encodeUtf8]
  rfl

theorem screen_parsed : screen config process parsed = none := by
  have htoken : parsed.token = config.authToken := by decide
  rw [screen, if_neg (by decide), if_neg (by decide), if_neg (by decide), htoken,
    constantTimeEq_iff.mpr rfl]
  rfl

theorem handleConnection_listing (s : System) (hs : s.host.toLowercase = id) :
    handleConnection config process listing s =
      (do
        let reply ← serve config process parsed
        pure (some reply) : Handler (Option LanReply)) s := by
  have hparsed : parseRequest s.host.toLowercase listing = some parsed := hs ▸ parseRequest_listing
  unfold handleConnection
  change (match parseRequest s.host.toLowercase listing with
      | none => (pure none : Handler (Option LanReply))
      | some q =>
        match screen config process q with
        | some reply => pure (some reply)
        | none => do
          let reply ← serve config process q
          pure (some reply)) s = _
  simp only [hparsed, screen_parsed]

theorem reads_listing : (run (step config process) (before FsHandler.Sample.escape)
    [.connection listing]).accesses ≠ [] := by
  change (leaves (handleConnection config process listing)
    (before FsHandler.Sample.escape)).accesses ≠ []
  rw [leaves, handleConnection_listing _ rfl]
  decide

end Sample

theorem answers_unauthorized_bare :
    answers Sample.server ⟨none, none, "", fun _ => ""⟩ (Sample.before Sample.nothing)
        [.connection Sample.bare] =
      answers Sample.server ⟨none, none, "", fun _ => ""⟩ (Sample.before FsHandler.Sample.escape)
        [.connection Sample.bare] := by
  refine answers_unauthorized rfl rfl (List.forall_mem_singleton.mpr ?_)
  rintro ⟨-, q, hq, htoken⟩
  have hparsed : parseRequest id Sample.bare = some q := hq
  rw [Sample.parseRequest_bare, Option.some.injEq] at hparsed
  rw [← hparsed] at htoken
  exact absurd htoken (by decide)

end Pcos.FsHandler.LanServer
