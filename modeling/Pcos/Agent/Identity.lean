import Pcos.Backend.System
import Pcos.Foundations.Text

/-!
# Agent/Identity — the URIs of devices, storage nodes and files (`identity.rs`)

    pcos://cloud/ ⟨cloud⟩ / device / ⟨device⟩ [ / node / ⟨node⟩ ] [ / file / ⟨file⟩ ]

The parser walks over the segments after the device, takes the segment after a keyword for an id, and
skips what it does not know; the last of several ids counts.  The cloud is the one segment that
printing writes as it stands, so a cloud with a `/` is the only thing that could shift the walk.
-/

namespace Pcos.Agent

open Foundations

structure PcosUri where
  cloudId : String
  deviceId : Uuid
  nodeId : Option Uuid
  fileId : Option Uuid
deriving DecidableEq

inductive PcosUriError
  | invalidFormat (message : String)
  /-- `Uuid::parse_str` fails. -/
  | uuid
deriving DecidableEq

/-- A keyword and an id, if there is one. -/
def labelled (keyword : String) : Option Uuid → List Char
  | some id => '/' :: (keyword.toList ++ '/' :: id.text.toList)
  | none => []

namespace PcosUri

/-- `fmt` -/
def display (uri : PcosUri) : String :=
  String.ofList ("pcos://cloud/".toList ++ uri.cloudId.toList ++ "/device/".toList
    ++ uri.deviceId.text.toList ++ labelled "node" uri.nodeId ++ labelled "file" uri.fileId)

section Parse

variable (parseUuid : String → Option Uuid)

/-- `Uuid::parse_str(_)?` -/
def parseId (segment : List Char) : Except PcosUriError Uuid :=
  match parseUuid (String.ofList segment) with
  | some id => .ok id
  | none => .error .uuid

/-- The walk over the segments after the device. -/
def walk : List (List Char) → Option Uuid → Option Uuid →
    Except PcosUriError (Option Uuid × Option Uuid)
  | part :: next :: parts, nodeId, fileId =>
    if part = "node".toList then do
      let id ← parseId parseUuid next
      walk parts (some id) fileId
    else if part = "file".toList then do
      let id ← parseId parseUuid next
      walk parts nodeId (some id)
    else walk (next :: parts) nodeId fileId
  -- A keyword at the end is skipped.
  | _, nodeId, fileId => .ok (nodeId, fileId)

def fromStr (s : String) : Except PcosUriError PcosUri :=
  let trimmed := (trim isWhiteSpace s).toList
  if !"pcos://cloud/".toList.isPrefixOf trimmed then
    .error (.invalidFormat "Invalid PCOS URI format: must start with pcos://cloud/")
  else
    match (trimmed.drop "pcos://cloud/".length).splitOnP (· = '/') with
    | cloudId :: keyword :: device :: parts =>
      if keyword = "device".toList then do
        let deviceId ← parseId parseUuid device
        let (nodeId, fileId) ← walk parseUuid parts none none
        .ok ⟨String.ofList cloudId, deviceId, nodeId, fileId⟩
      else .error (.invalidFormat
        "Invalid PCOS URI format: expected pcos://cloud/<cloud_id>/device/<device_id>")
    | _ => .error (.invalidFormat
        "Invalid PCOS URI format: expected pcos://cloud/<cloud_id>/device/<device_id>")

end Parse

/-! ## Segments -/

/-- A keyword and an id are two segments. -/
def labelledSegments (keyword : String) : Option Uuid → List (List Char)
  | some id => [keyword.toList, id.text.toList]
  | none => []

/-- The segments that are printed. -/
def segments (uri : PcosUri) : List (List Char) :=
  [uri.cloudId.toList, "device".toList, uri.deviceId.text.toList]
    ++ labelledSegments "node" uri.nodeId ++ labelledSegments "file" uri.fileId

theorem intercalate_append_labelled (keyword : String) (id : Option Uuid)
    (parts : List (List Char)) (hne : parts ≠ []) :
    ['/'].intercalate (parts ++ labelledSegments keyword id) =
      ['/'].intercalate parts ++ labelled keyword id := by
  cases id with
  | none => simp [labelledSegments, labelled]
  | some id =>
    induction parts with
    | nil => exact absurd rfl hne
    | cons part parts ih =>
      cases parts with
      | nil => simp [labelledSegments, labelled, List.intercalate]
      | cons next parts =>
        rw [List.cons_append, List.cons_append, List.intercalate_cons_cons, ← List.cons_append,
          ih (List.cons_ne_nil _ _), List.intercalate_cons_cons]
        simp only [List.append_assoc]

/-- **What is printed is the segments.** -/
theorem toList_display (uri : PcosUri) :
    uri.display.toList = "pcos://cloud/".toList ++ ['/'].intercalate uri.segments := by
  have hkeyword : "/device/".toList = '/' :: ("device".toList ++ ['/']) := by decide
  have hfirst : ['/'].intercalate [uri.cloudId.toList, "device".toList, uri.deviceId.text.toList] =
      uri.cloudId.toList ++ "/device/".toList ++ uri.deviceId.text.toList := by
    rw [hkeyword, List.intercalate_cons_cons, List.intercalate_cons_cons, List.intercalate_singleton]
    simp only [List.append_assoc, List.cons_append, List.nil_append]
  have hnode := intercalate_append_labelled "node" uri.nodeId
    [uri.cloudId.toList, "device".toList, uri.deviceId.text.toList] (List.cons_ne_nil _ _)
  have hfile := intercalate_append_labelled "file" uri.fileId
    ([uri.cloudId.toList, "device".toList, uri.deviceId.text.toList]
      ++ labelledSegments "node" uri.nodeId) (List.cons_ne_nil _ _)
  rw [segments, hfile, hnode, hfirst]
  refine String.toList_ofList.trans ?_
  simp only [List.append_assoc]

/-- The characters of ids are neither separators nor white space. -/
theorem isUuidChar_spec {c : Char} (hc : isUuidChar c = true) : c ≠ '/' ∧ isWhiteSpace c = false := by
  constructor
  · rintro rfl
    revert hc
    decide
  · rw [isUuidChar_iff] at hc
    simp only [isWhiteSpace, Bool.or_eq_false_iff, Bool.and_eq_false_iff, decide_eq_false_iff_not,
      List.contains_eq_mem, List.mem_cons, List.not_mem_nil, or_false]
    rcases hc with hc | hc | rfl
    · omega
    · omega
    · decide

theorem text_spec (id : Uuid) : ∀ c ∈ id.text.toList, c ≠ '/' ∧ isWhiteSpace c = false := by
  have h := id.canonical
  rw [Bool.and_eq_true, List.all_eq_true] at h
  exact fun c hc => isUuidChar_spec (h.2 c hc)

theorem mem_labelledSegments {keyword : String} (hkeyword : '/' ∉ keyword.toList) {id : Option Uuid}
    {part : List Char} (hpart : part ∈ labelledSegments keyword id) : '/' ∉ part := by
  cases id with
  | none => cases hpart
  | some id =>
    rcases List.mem_cons.mp hpart with rfl | hpart
    · exact hkeyword
    · rw [List.mem_singleton.mp hpart]
      exact fun hc => (text_spec id _ hc).1 rfl

variable {uri : PcosUri}

/-- **No segment that is printed falls into two**, if the cloud does not. -/
theorem splitOnP_segments (hcloud : '/' ∉ uri.cloudId.toList) :
    (['/'].intercalate uri.segments).splitOnP (· = '/') = uri.segments := by
  have hsegments : ∀ part ∈ uri.segments, '/' ∉ part := by
    intro part hpart
    rcases List.mem_append.mp hpart with hpart | hfile
    · rcases List.mem_append.mp hpart with hpart | hnode
      · simp only [List.mem_cons, List.not_mem_nil, or_false] at hpart
        rcases hpart with rfl | rfl | rfl
        · exact hcloud
        · decide
        · exact fun hc => (text_spec uri.deviceId _ hc).1 rfl
      · exact mem_labelledSegments (by decide) hnode
    · exact mem_labelledSegments (by decide) hfile
  refine splitOnP_intercalate (p := fun c => decide (c = '/')) rfl
    (List.append_ne_nil_of_left_ne_nil (List.cons_ne_nil _ _) _) fun part hpart c hc => ?_
  refine decide_eq_false ?_
  rintro rfl
  exact hsegments part hpart hc

/-- The text ends with an id. -/
def EndsWithId (text : List Char) : Prop := ∃ before, ∃ id : Uuid, text = before ++ id.text.toList

theorem EndsWithId.labelled {text : List Char} (h : EndsWithId text) (keyword : String)
    (id : Option Uuid) : EndsWithId (text ++ labelled keyword id) := by
  cases id with
  | none => rwa [Agent.labelled, List.append_nil]
  | some id =>
    refine ⟨text ++ '/' :: (keyword.toList ++ ['/']), id, ?_⟩
    simp only [Agent.labelled, List.append_assoc, List.cons_append, List.nil_append]

theorem endsWithId_display (uri : PcosUri) : EndsWithId uri.display.toList := by
  have hdevice : EndsWithId ("pcos://cloud/".toList ++ uri.cloudId.toList ++ "/device/".toList
      ++ uri.deviceId.text.toList) := ⟨_, uri.deviceId, rfl⟩
  have htext : uri.display.toList = _ := String.toList_ofList
  rw [htext]
  exact (hdevice.labelled "node" uri.nodeId).labelled "file" uri.fileId

theorem trim_display (uri : PcosUri) : trim isWhiteSpace uri.display = uri.display := by
  obtain ⟨before, id, htext⟩ := endsWithId_display uri
  have hne : id.text.toList ≠ [] := by
    rw [← List.length_pos_iff, String.length_toList, Uuid.length_text]
    decide
  have hlast := (text_spec id _ (List.getLast_mem hne)).2
  rw [← List.dropLast_append_getLast hne, ← List.append_assoc] at htext
  exact trim_of_ends (toList_display uri) rfl htext hlast

section Parse

variable {parseUuid : String → Option Uuid}

theorem ok_of_bind {α β : Type} {x : Except PcosUriError α} {f : α → Except PcosUriError β} {b : β}
    (h : x >>= f = .ok b) : ∃ a, f a = .ok b := by
  cases x with
  | error e => cases h
  | ok a => exact ⟨a, h⟩

/-- **A cloud that was read is one segment.** -/
theorem not_mem_of_fromStr {s : String} (h : fromStr parseUuid s = .ok uri) :
    '/' ∉ uri.cloudId.toList := by
  unfold fromStr at h
  dsimp only at h
  split at h
  · cases h
  split at h
  · rename_i cloudId keyword device parts hsplit
    split at h
    · obtain ⟨deviceId, h⟩ := ok_of_bind h
      obtain ⟨ids, h⟩ := ok_of_bind h
      obtain rfl := Except.ok.inj h
      have hcloud : cloudId ∈ (_ : List Char).splitOnP fun c => decide (c = '/') :=
        hsplit ▸ List.mem_cons_self
      rw [String.toList_ofList]
      exact fun hc => of_decide_eq_false (not_of_mem_splitOnP hcloud hc) rfl
    · cases h
  · cases h

variable (hparse : ∀ id : Uuid, parseUuid id.text = some id)
include hparse

theorem parseId_text (id : Uuid) : parseId parseUuid id.text.toList = .ok id := by
  rw [parseId, String.ofList_toList, hparse]

theorem walk_labelledSegments (nodeId fileId : Option Uuid) :
    walk parseUuid (labelledSegments "node" nodeId ++ labelledSegments "file" fileId) none none =
      .ok (nodeId, fileId) := by
  cases nodeId with
  | none =>
    cases fileId with
    | none => rfl
    | some file =>
      change walk parseUuid ["file".toList, file.text.toList] none none = _
      rw [walk, if_neg (by decide), if_pos rfl, parseId_text hparse]
      rfl
  | some node =>
    have hrest : walk parseUuid (labelledSegments "file" fileId) (some node) none =
        .ok (some node, fileId) := by
      cases fileId with
      | none => rfl
      | some file =>
        change walk parseUuid ["file".toList, file.text.toList] (some node) none = _
        rw [walk, if_neg (by decide), if_pos rfl, parseId_text hparse]
        rfl
    change walk parseUuid ("node".toList :: node.text.toList :: labelledSegments "file" fileId)
      none none = _
    rw [walk, if_pos rfl, parseId_text hparse]
    exact hrest

/-- **What is printed is read back.** -/
theorem fromStr_display_of_not_mem (hcloud : '/' ∉ uri.cloudId.toList) :
    fromStr parseUuid uri.display = .ok uri := by
  have hstart : "pcos://cloud/".toList.isPrefixOf uri.display.toList = true := by
    rw [toList_display, List.isPrefixOf_iff_prefix]
    exact List.prefix_append _ _
  have hrest : uri.display.toList.drop "pcos://cloud/".length = ['/'].intercalate uri.segments := by
    rw [toList_display]
    rfl
  have hsegments : uri.segments = uri.cloudId.toList :: "device".toList
      :: uri.deviceId.text.toList :: (labelledSegments "node" uri.nodeId
        ++ labelledSegments "file" uri.fileId) := rfl
  rw [fromStr, trim_display, hstart, hrest, splitOnP_segments hcloud, hsegments, if_neg (by decide)]
  dsimp only
  rw [if_pos rfl, parseId_text hparse]
  simp only [walk_labelledSegments hparse, String.ofList_toList]
  rfl

/-- **Printing and reading a URI**: one whose cloud has no `/` is read back, and so is whatever was
read. -/
theorem fromStr_display :
    (∀ uri : PcosUri, '/' ∉ uri.cloudId.toList → fromStr parseUuid uri.display = .ok uri)
    ∧ ∀ s uri, fromStr parseUuid s = .ok uri → fromStr parseUuid uri.display = .ok uri :=
  ⟨fun _ hcloud => fromStr_display_of_not_mem hparse hcloud,
    fun _ _ h => fromStr_display_of_not_mem hparse (not_mem_of_fromStr h)⟩

end Parse

/-- A cloud called `device` does not shift the walk. -/
theorem fromStr_display_device :
    let uri : PcosUri := ⟨"device", Sample.id1, none, some Sample.id3⟩
    fromStr Sample.env.parseUuid uri.display = .ok uri := by
  have hparse : ∀ id : Uuid, Sample.env.parseUuid id.text = some id := fun id => dif_pos id.canonical
  exact (fromStr_display hparse).1 _ (by decide)

end PcosUri

end Pcos.Agent
