import Pcos.Foundations.FirstMatch

/-!
# Backend/Placement — where a file should go (`file_metadata/src/policy.rs`)

`evaluate_placement` goes by the MIME type and the suffix of the name, both in lower case, through
four rules; what none of them is for is a document.
-/

namespace Pcos.Placement

open Foundations

inductive StorageCategory
  | photos
  | videos
  | audio
  | documents
  | backups
  | important
  | custom (name : String)
  deriving DecidableEq

inductive StorageType
  | ssd
  | hdd
  | usb
  | nas
  | any
  deriving DecidableEq

structure PlacementEvaluation where
  category : StorageCategory
  targetStorageType : StorageType
  replicaCount : ℕ
  availabilityTier : String
  ruleName : String
  deriving DecidableEq

/-- A name and a MIME type, in lower case. -/
structure Lowered where
  name : String
  mime : String
  deriving DecidableEq

namespace Lowered

variable (f : Lowered)

def mimeStartsWith (start : String) : Bool := start.toList.isPrefixOf f.mime.toList

def nameEndsWith (suffix : String) : Bool := suffix.toList.isSuffixOf f.name.toList

/-- The MIME type is of the kind, or the name has one of the suffixes. -/
def isOf (kind : Option String) (suffixes : List String) : Bool :=
  kind.any f.mimeStartsWith || suffixes.any f.nameEndsWith

end Lowered

/-- The rule for a kind of MIME type and for suffixes. -/
def typeRule {β : Type} (kind : Option String) (suffixes : List String) (outcome : β) :
    Rule Lowered β :=
  ⟨fun f => f.isOf kind suffixes, outcome⟩

def photos : Rule Lowered PlacementEvaluation :=
  typeRule (some "image/") [".jpg", ".jpeg", ".png", ".webp", ".heic", ".raw"]
    ⟨.photos, .ssd, 1, "local_only", "Default Photos -> High-Speed SSD Pool Policy"⟩

def videos : Rule Lowered PlacementEvaluation :=
  typeRule (some "video/") [".mp4", ".mkv", ".mov", ".avi", ".webm"]
    ⟨.videos, .hdd, 1, "local_only", "Default Videos -> Massive Capacity HDD Pool Policy"⟩

def audio : Rule Lowered PlacementEvaluation :=
  typeRule (some "audio/") [".mp3", ".flac", ".wav", ".ogg", ".m4a"]
    ⟨.audio, .any, 1, "local_only", "Default Audio -> Music Library Policy"⟩

def backups : Rule Lowered PlacementEvaluation :=
  typeRule none [".tar", ".zip", ".bak", ".dump", ".gz"]
    ⟨.backups, .usb, 2, "always_available", "Default System Backups & Archives Policy"⟩

def documents : PlacementEvaluation :=
  ⟨.documents, .ssd, 1, "any_device", "Default Documents -> Fast SSD / NAS Policy"⟩

section Evaluate

variable (toLowercase : String → String)

def evaluatePlacement (fileName : String) (mimeType : Option String) : PlacementEvaluation :=
  firstMatch [photos, videos, audio, backups] documents
    ⟨toLowercase fileName, toLowercase (mimeType.getD "")⟩

/-- What a request is answered, except for the node that is recommended. -/
structure StorageEvaluation where
  matchedCategory : String
  targetStorageType : String
  replicaCount : ℕ
  availabilityTier : String
  ruleApplied : String
  deriving DecidableEq

/-- The names of a category and a storage type. -/
def texts : StorageCategory → StorageType → String × String
  | .photos, .ssd => ("photos", "ssd")
  | .videos, .hdd => ("videos", "hdd")
  | .audio, _ => ("audio", "any")
  | .backups, .usb => ("backups", "usb")
  | _, _ => ("documents", "ssd")

def PlacementEvaluation.answer (e : PlacementEvaluation) : StorageEvaluation :=
  let (category, type) := texts e.category e.targetStorageType
  ⟨category, type, e.replicaCount, e.availabilityTier, e.ruleName⟩

/-- `POST /api/v1/storage/evaluate` -/
def evaluateStorage (name mimeType : Option String) : StorageEvaluation :=
  (evaluatePlacement toLowercase (name.getD "") mimeType).answer

end Evaluate

end Pcos.Placement
