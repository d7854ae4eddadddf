import Pcos.Backend.Resumable
import Pcos.Backend.WebDav
import Pcos.Foundations.Runs

/-!
# Backend/System — requests, one after the other

`step` hands a request to its handler and keeps the world the handler leaves, also when the handler
fails.  The background task that purges the trash is a request of its own.
-/

namespace Pcos

open Foundations

/-- The requests that write, and the background task.  An upload through a share link is an
`uploadFile` of the owner of the link. -/
inductive Request
  | createFolder (parent : Option Uuid) (name : String)
  | uploadFile (parent : Option Uuid) (filename mime : String) (data : Bytes)
  | storeChunk (upload : Uuid) (index : ℤ) (data : Bytes)
  | completeChunkedUpload (req : ChunkedUploadRequest)
  | renameItem (item : Uuid) (name : String)
  | moveItem (item : Uuid) (target : Option Uuid)
  | deleteItem (item : Uuid)
  | restoreFromTrash (item : Uuid)
  | permanentDelete (item : Uuid)
  | emptyTrash
  | initTransfer (req : ResumableInitRequest)
  | writeChunk (transferId : String) (offset : ℤ) (dataBase64 : String)
  | finalizeTransfer (transferId : String) (clientHash : Option String)
  | restoreVersion (file version : Uuid)
  | mkcol (path : String)
  | webdavPut (path : String) (contentType : Option String) (data : Bytes)
  | webdavDelete (path : String)
  | webdavMove (path : String) (destination : Option String)
  | webdavCopy (path : String) (destination : Option String)
  | putObject (key : String) (contentType : Option String) (data : Bytes)
  | deleteObject (key : String)
  | purgeTrash

structure Event where
  call : Call
  request : Request

/-- The parent that a request names by its id. -/
def Request.parent : Request → Option Uuid
  | .createFolder parent _ => parent
  | .uploadFile parent _ _ _ => parent
  | .completeChunkedUpload req => req.parentId
  | .initTransfer req => req.parentId
  | _ => none

/-- The request opens a resumable transfer. -/
def Request.isInit : Request → Bool
  | .initTransfer _ => true
  | _ => false

/-- The request writes content through a gateway. -/
def Request.isPut : Request → Bool
  | .webdavPut _ _ _ => true
  | .putObject _ _ _ => true
  | _ => false

/-- The world a request leaves. -/
def step (env : Env) (w : World) (e : Event) : World :=
  match e.request with
  | .createFolder parent name => leaves (createFolder e.call parent name) w
  | .uploadFile parent filename mime data => leaves (uploadFile env e.call parent filename mime data) w
  | .storeChunk upload index data => leaves (storeChunk e.call upload index data) w
  | .completeChunkedUpload req => leaves (completeChunkedUpload env e.call req) w
  | .renameItem item name => leaves (renameItem e.call item name) w
  | .moveItem item target => leaves (moveItem e.call item target) w
  | .deleteItem item => leaves (deleteItem e.call item) w
  | .restoreFromTrash item => leaves (restoreFromTrash e.call item) w
  | .permanentDelete item => leaves (permanentDelete e.call item) w
  | .emptyTrash => leaves (emptyTrash e.call) w
  | .initTransfer req => leaves (initTransfer e.call req) w
  | .writeChunk transferId offset data => leaves (writeChunk env e.call transferId offset data) w
  | .finalizeTransfer transferId hash => leaves (finalizeTransfer env e.call transferId hash) w
  | .restoreVersion file version => leaves (restoreVersion e.call file version) w
  | .mkcol path => leaves (mkcol e.call path) w
  | .webdavPut path contentType data => leaves (webdavPut env e.call path contentType data) w
  | .webdavDelete path => leaves (webdavDelete e.call path) w
  | .webdavMove path destination => leaves (webdavMove e.call path destination) w
  | .webdavCopy path destination => leaves (webdavCopy e.call path destination) w
  | .putObject key contentType data => leaves (putObject env e.call key contentType data) w
  | .deleteObject key => leaves (deleteObject e.call key) w
  | .purgeTrash => leaves (purgeTrash e.call.now) w

/-- **What `Uuid::new_v4` promises**: the id it returns is in use nowhere, and the client, who sent
the request before, does not name it. -/
def Fresh (w : World) (e : Event) : Prop :=
  (∀ r ∈ w.entries.rows, r.id ≠ e.call.newId) ∧ e.request.parent ≠ some e.call.newId

instance (w : World) (e : Event) : Decidable (Fresh w e) := inferInstanceAs (Decidable (_ ∧ _))

/-! ## Names for concrete runs -/

namespace Sample

/-- Digests of short inputs, canonical ids, and names without an extension. -/
def env : Env where
  sha256 := knownSha256
  length_sha256 := length_knownSha256
  parseUuid text :=
    if h : (text.length == 36 && text.toList.all isUuidChar) = true then some ⟨text, h⟩ else none
  base64Decode text := if text = "YQ==" then some [0x61] else if text = "Yg==" then some [0x62] else none
  mimeGuess _ := none

def alice : Uuid := ⟨"a11ce000-0000-4000-8000-000000000000", by decide⟩

def bob : Uuid := ⟨"b0b00000-0000-4000-8000-000000000000", by decide⟩

def id1 : Uuid := ⟨"00000000-0000-4000-8000-000000000001", by decide⟩

def id2 : Uuid := ⟨"00000000-0000-4000-8000-000000000002", by decide⟩

def id3 : Uuid := ⟨"00000000-0000-4000-8000-000000000003", by decide⟩

def tmp : Uuid := ⟨"00000000-0000-4000-8000-00000000ffff", by decide⟩

/-- Both users have the default quota. -/
def users (u : Uuid) : Option ℤ := if u = alice ∨ u = bob then some defaultQuota else none

/-- The database as the migrations create it. -/
def start : World := .empty migratedColumns users

/-- A request at a time, with the id it will give. -/
def sent (user : Uuid) (now : ℤ) (newId : Uuid) (request : Request) : Event :=
  ⟨⟨user, now, newId, tmp, 0⟩, request⟩

end Sample

end Pcos
