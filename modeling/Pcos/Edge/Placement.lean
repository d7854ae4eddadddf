import Pcos.Backend.Placement
import Pcos.Foundations.Text

/-!
# Edge/Placement — where the edge would put a file (`index.ts`)

The edge has four rules as well, and a default.  Three of the rules are the backend's.  The fourth
is for `.iso` where the backend's is for `.gz`, and the default keeps documents on one device where
the backend's has them on any.  So **the two agree on what the common rules are for**
(`samePlacement_iff`).
-/

namespace Pcos.Edge.Policy

open Foundations Pcos.Placement

def photos : Rule Lowered StorageEvaluation :=
  typeRule (some "image/") [".jpg", ".jpeg", ".png", ".webp", ".heic", ".raw"]
    ⟨"photos", "ssd", 1, "local_only", "Default Photos -> High-Speed SSD Pool Policy"⟩

def videos : Rule Lowered StorageEvaluation :=
  typeRule (some "video/") [".mp4", ".mkv", ".mov", ".avi", ".webm"]
    ⟨"videos", "hdd", 1, "local_only", "Default Videos -> Massive Capacity HDD Pool Policy"⟩

def audio : Rule Lowered StorageEvaluation :=
  typeRule (some "audio/") [".mp3", ".flac", ".wav", ".ogg", ".m4a"]
    ⟨"audio", "any", 1, "local_only", "Default Audio -> Music Library Policy"⟩

def backups : Rule Lowered StorageEvaluation :=
  typeRule none [".tar", ".zip", ".bak", ".dump", ".iso"]
    ⟨"backups", "usb", 2, "always_available", "Default System Backups & Archives Policy"⟩

def documents : StorageEvaluation :=
  ⟨"documents", "ssd", 1, "local_only", "Default Documents Policy"⟩

/-- `POST /api/v1/storage/evaluate` -/
def evaluateStorage (toLowerCase : String → String) (name mimeType : Option String) :
    StorageEvaluation :=
  firstMatch [photos, videos, audio, backups] documents
    ⟨toLowerCase (name.getD ""), toLowerCase (mimeType.getD "")⟩

/-! ## Agreement -/

def IsAscii (s : String) : Prop := ∀ c ∈ s.toList, c.toNat < 128

def asciiLower (s : String) : String := String.ofList (s.toList.map Char.toLower)

/-- What a case mapping does to texts in ASCII. -/
def LowersAscii (lower : String → String) : Prop := ∀ s, IsAscii s → lower s = asciiLower s

/-- The category, the storage type, the number of replicas and the tier are the same. -/
structure SamePlacement (a b : StorageEvaluation) : Prop where
  category : a.matchedCategory = b.matchedCategory
  type : a.targetStorageType = b.targetStorageType
  count : a.replicaCount = b.replicaCount
  tier : a.availabilityTier = b.availabilityTier

def mediaKinds : List String := ["image/", "video/", "audio/"]

def commonSuffixes : List String :=
  [".jpg", ".jpeg", ".png", ".webp", ".heic", ".raw", ".mp4", ".mkv", ".mov", ".avi", ".webm",
    ".mp3", ".flac", ".wav", ".ogg", ".m4a", ".tar", ".zip", ".bak", ".dump"]

/-- **The MIME type is of an image, a video or audio, or the name has one of twenty suffixes.** -/
def IsCommon (name mime : String) : Prop :=
  (∃ kind ∈ mediaKinds, kind.toList <+: (asciiLower mime).toList) ∨
    ∃ suffix ∈ commonSuffixes, suffix.toList <:+ (asciiLower name).toList

section Agreement

variable {f : Lowered}

/-- The rules that both have. -/
def media : List (Rule Lowered StorageEvaluation) := [photos, videos, audio]

def photoSuffixes : List String := [".jpg", ".jpeg", ".png", ".webp", ".heic", ".raw"]

def videoSuffixes : List String := [".mp4", ".mkv", ".mov", ".avi", ".webm"]

def audioSuffixes : List String := [".mp3", ".flac", ".wav", ".ogg", ".m4a"]

/-- …and what they both count as a backup. -/
def archives : List String := [".tar", ".zip", ".bak", ".dump"]

/-- What the backend answers, by the edge's rules and its own. -/
theorem answer_firstMatch :
    (firstMatch [Placement.photos, Placement.videos, Placement.audio, Placement.backups]
      Placement.documents f).answer =
      firstMatch (media ++ [Placement.backups.map PlacementEvaluation.answer])
        Placement.documents.answer f :=
  map_firstMatch PlacementEvaluation.answer _

theorem nameEndsWith_iff {suffix : String} :
    f.nameEndsWith suffix = true ↔ suffix.toList <:+ f.name.toList := by
  rw [Lowered.nameEndsWith, List.isSuffixOf_iff_suffix]

theorem mimeStartsWith_iff {start : String} :
    f.mimeStartsWith start = true ↔ start.toList <+: f.mime.toList := by
  rw [Lowered.mimeStartsWith, List.isPrefixOf_iff_prefix]

/-- No name has both of the suffixes that one server alone has. -/
theorem not_gz_and_iso (hgz : f.nameEndsWith ".gz" = true) : f.nameEndsWith ".iso" = false := by
  rw [nameEndsWith_iff] at hgz
  rw [Bool.eq_false_iff, ne_eq, nameEndsWith_iff]
  intro hiso
  exact absurd (List.suffix_of_suffix_length_le hgz hiso (by decide)) (by decide)

/-- Kinds and suffixes may be taken together for each rule. -/
theorem by_rule : ∀ k₁ k₂ k₃ s₁ s₂ s₃ s₄ : Bool,
    (k₁ || (k₂ || (k₃ || false))) = true ∨ (s₁ || (s₂ || (s₃ || s₄))) = true ↔
      (k₁ || s₁ || (k₂ || s₂ || (k₃ || s₃ || false))) = true ∨ s₄ = true := by
  decide

/-- What is common is what the rules are for that both have. -/
theorem common_iff {name mime : String} (hname : f.name = asciiLower name)
    (hmime : f.mime = asciiLower mime) : IsCommon name mime ↔
      (media.any fun r => r.applies f) = true ∨ archives.any f.nameEndsWith = true := by
  have hkinds : (∃ kind ∈ mediaKinds, kind.toList <+: (asciiLower mime).toList) ↔
      mediaKinds.any f.mimeStartsWith = true := by
    simp only [List.any_eq_true, mimeStartsWith_iff, hmime]
  have hsuffixes : (∃ suffix ∈ commonSuffixes, suffix.toList <:+ (asciiLower name).toList) ↔
      commonSuffixes.any f.nameEndsWith = true := by
    simp only [List.any_eq_true, nameEndsWith_iff, hname]
  have hlist : commonSuffixes = photoSuffixes ++ (videoSuffixes ++ (audioSuffixes ++ archives)) :=
    rfl
  have hmedia : (media.any fun r => r.applies f) = (f.isOf (some "image/") photoSuffixes ||
      (f.isOf (some "video/") videoSuffixes || (f.isOf (some "audio/") audioSuffixes || false))) :=
    rfl
  have hmimes : mediaKinds.any f.mimeStartsWith = (f.mimeStartsWith "image/" ||
      (f.mimeStartsWith "video/" || (f.mimeStartsWith "audio/" || false))) := rfl
  rw [IsCommon, hkinds, hsuffixes, hmimes, hlist, List.any_append, List.any_append,
    List.any_append, hmedia]
  exact by_rule _ _ _ _ _ _ _

/-- **On a common type the servers agree**, as the same rules are before the others. -/
theorem samePlacement_of_media (h : (media.any fun r => r.applies f) = true) :
    firstMatch (media ++ [Placement.backups.map PlacementEvaluation.answer])
      Placement.documents.answer f = firstMatch (media ++ [backups]) documents f := by
  rw [firstMatch_append, firstMatch_append, if_pos h, if_pos h]
  exact firstMatch_of_any media h

/-- What else the backend takes for a backup… -/
theorem backendBackups_applies : (Placement.backups.map PlacementEvaluation.answer).applies f =
    (archives.any f.nameEndsWith || f.nameEndsWith ".gz") := by
  have hlist : [".tar", ".zip", ".bak", ".dump", ".gz"] = archives ++ [".gz"] := rfl
  change f.isOf none [".tar", ".zip", ".bak", ".dump", ".gz"] = _
  rw [hlist, Lowered.isOf, Option.any_none, Bool.false_or, List.any_append, List.any_cons,
    List.any_nil, Bool.or_false]

/-- …and what the edge does. -/
theorem edgeBackups_applies :
    backups.applies f = (archives.any f.nameEndsWith || f.nameEndsWith ".iso") := by
  have hlist : [".tar", ".zip", ".bak", ".dump", ".iso"] = archives ++ [".iso"] := rfl
  change f.isOf none [".tar", ".zip", ".bak", ".dump", ".iso"] = _
  rw [hlist, Lowered.isOf, Option.any_none, Bool.false_or, List.any_append, List.any_cons,
    List.any_nil, Bool.or_false]

/-- **Past the media rules they agree on common archives only**: a `.gz` or `.iso` is a backup for
one of them, and of a document the tiers differ. -/
theorem samePlacement_rest_iff :
    SamePlacement
        (firstMatch [Placement.backups.map PlacementEvaluation.answer] Placement.documents.answer f)
        (firstMatch [backups] documents f) ↔
      archives.any f.nameEndsWith = true := by
  rw [firstMatch_cons, firstMatch_cons, firstMatch_nil, firstMatch_nil, backendBackups_applies,
    edgeBackups_applies]
  by_cases harchive : archives.any f.nameEndsWith = true
  · rw [harchive, Bool.true_or, Bool.true_or, if_pos rfl, if_pos rfl]
    exact iff_of_true ⟨rfl, rfl, rfl, rfl⟩ rfl
  · rw [Bool.not_eq_true] at harchive
    rw [harchive, Bool.false_or, Bool.false_or]
    refine iff_of_false (fun h => ?_) Bool.false_ne_true
    by_cases hgz : f.nameEndsWith ".gz" = true
    · rw [if_pos hgz, not_gz_and_iso hgz, if_neg Bool.false_ne_true] at h
      exact absurd h.category (by decide)
    · rw [if_neg hgz] at h
      split at h
      · exact absurd h.category (by decide)
      · exact absurd h.tier (by decide)

end Agreement

/-- **The placements are the same exactly for the common types.** -/
theorem samePlacement_iff {lower lower' : String → String} (hlower : LowersAscii lower)
    (hlower' : LowersAscii lower') (name : String) (mimeType : Option String) (hname : IsAscii name)
    (hmime : ∀ mime ∈ mimeType, IsAscii mime) :
    SamePlacement (Placement.evaluateStorage lower (some name) mimeType)
        (evaluateStorage lower' (some name) mimeType) ↔
      IsCommon name (mimeType.getD "") := by
  have hmime' : IsAscii (mimeType.getD "") := by
    rcases mimeType with _ | mime
    · exact fun c hc => absurd hc List.not_mem_nil
    · exact hmime mime rfl
  have hsame : (⟨lower' name, lower' (mimeType.getD "")⟩ : Lowered) =
      ⟨lower name, lower (mimeType.getD "")⟩ := by
    rw [hlower' _ hname, hlower' _ hmime', hlower _ hname, hlower _ hmime']
  have hcommon := common_iff (f := ⟨lower name, lower (mimeType.getD "")⟩) (hlower _ hname)
    (hlower _ hmime')
  rw [Placement.evaluateStorage, evaluatePlacement, answer_firstMatch, evaluateStorage,
    Option.getD_some, hsame, hcommon]
  generalize (⟨lower name, lower (mimeType.getD "")⟩ : Lowered) = f
  change SamePlacement _ (firstMatch (media ++ [backups]) documents f) ↔ _
  by_cases hmedia : (media.any fun r => r.applies f) = true
  · rw [samePlacement_of_media hmedia]
    exact iff_of_true ⟨rfl, rfl, rfl, rfl⟩ (.inl hmedia)
  · rw [firstMatch_append, firstMatch_append, if_neg hmedia, if_neg hmedia, samePlacement_rest_iff]
    exact (or_iff_right hmedia).symm

/-- A picture in capitals. -/
theorem samePlacement_iff_photo :
    SamePlacement (Placement.evaluateStorage asciiLower (some "A.JPG") none)
      (evaluateStorage asciiLower (some "A.JPG") none) :=
  (samePlacement_iff (fun _ _ => rfl) (fun _ _ => rfl) "A.JPG" none
    (forall_mem_of_all (by decide)) fun _ h => absurd h (by simp)).mpr
      (.inr ⟨".jpg", by decide, by decide⟩)

/-- **A text file has another tier at the edge than in the backend.** -/
theorem not_samePlacement : ¬ ∀ (lower lower' : String → String), LowersAscii lower →
    LowersAscii lower' → ∀ (name : String) (mimeType : Option String), IsAscii name →
      (∀ mime ∈ mimeType, IsAscii mime) →
        SamePlacement (Placement.evaluateStorage lower (some name) mimeType)
          (evaluateStorage lower' (some name) mimeType) := by
  intro h
  have hsame := h asciiLower asciiLower (fun _ _ => rfl) (fun _ _ => rfl) "a.txt" none
    (forall_mem_of_all (by decide)) fun _ h => absurd h (by simp)
  exact absurd hsame.tier (by decide)

end Pcos.Edge.Policy
