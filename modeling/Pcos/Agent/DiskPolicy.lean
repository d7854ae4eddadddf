import Mathlib.Data.List.Induction
import Pcos.Backend.Resumable
import Pcos.Foundations.Text

/-!
# Agent/DiskPolicy — the disks that are advertised, and the paths that are served

    disks, directories ──allowed, excluded──▸ discover_physical_disks ──▸ mount points
    storage_path ──allowed, excluded──▸ handle_fs_command ──▸ served │ refused

Both sides read the same two lists.  Discovery compares whole texts and lets every disk through if
nothing is allowed; serving compares starts of texts, and then refuses what is not in the default
directory.  So **everything that is advertised is served exactly if no excluded text is the start of
one, and without an allow list all the disks are in the default directory**
(`advertised_servable_iff`).
-/

namespace Pcos.Disks

open Foundations

/-! ## The host -/

/-- A disk, as `sysinfo` reports it. -/
structure Disk where
  mountPoint : String
  name : String
  fileSystem : String
  totalSpace : ℕ
  availableSpace : ℕ
  isRemovable : Bool
  deriving DecidableEq

/-- What the node asks of its host, and Unicode's lower case. -/
structure Host where
  disks : List Disk
  isDir : String → Bool
  freeBytes : String → ℕ
  sha256 : Bytes → String
  toLowercase : String → String

structure DiskCapabilities where
  ffmpeg : Bool
  ocr : Bool
  tantivy : Bool
  ollama : Bool
  deriving DecidableEq

structure DiscoveredDisk where
  volumeUuid : Option String
  mountPoint : String
  name : String
  fsType : String
  totalCapacityBytes : ℕ
  availableCapacityBytes : ℕ
  diskType : String
  suggestedCategories : List String
  capabilities : DiskCapabilities
  deriving DecidableEq

/-- The two lists of `agent.toml`. -/
structure Policy where
  allowed : List String
  excluded : List String
  deriving DecidableEq

def isSeparator (c : Char) : Bool := c = '\\' || c = '/'

/-- `trim_end_matches(['\\', '/']).to_lowercase()` -/
def Host.text (h : Host) (path : String) : String := h.toLowercase (trimEnd isSeparator path)

/-- `trim().trim_end_matches(['\\', '/']).to_lowercase()` -/
def Host.clean (h : Host) (path : String) : String := h.text (trim isWhiteSpace path)

@[simp] theorem Host.clean_trim (h : Host) (path : String) :
    h.clean (trim isWhiteSpace path) = h.clean path := by rw [clean, trim_trim, clean]

/-! ## Discovery (`disks.rs`) -/

section Discovery

variable (h : Host) (ffmpegAvailable : Bool) (policy : Policy)

/-- The list has the mount point, perhaps without the colon of a drive. -/
def Host.lists (entries : List String) (mountPoint : String) : Bool :=
  entries.any fun entry => h.clean entry = h.clean mountPoint
    || h.clean entry = trimEnd (· = ':') (h.clean mountPoint)

/-- A disk that is not skipped. -/
def Host.passes (disk : Disk) : Bool :=
  disk.totalSpace ≠ 0 && !h.lists policy.excluded disk.mountPoint
    && (policy.allowed.isEmpty || h.lists policy.allowed disk.mountPoint)

/-- `contains("hdd")` -/
def containsHdd (name : String) : Bool := name.toList.tails.any ("hdd".toList.isPrefixOf ·)

/-- A hash as the id of a volume. -/
def Host.uuid (seed : String) : String :=
  String.ofList ((h.sha256 seed.toUTF8.toList).toList.take 16)

def capabilities : DiskCapabilities := ⟨ffmpegAvailable, false, false, false⟩

def Host.discovered (disk : Disk) : DiscoveredDisk :=
  let name := if trim isWhiteSpace disk.name = "" then "Disk (" ++ disk.mountPoint ++ ")"
    else disk.name
  let kind : String × List String :=
    if disk.isRemovable then ("usb", ["backups"])
    else if 2000000000000 ≤ disk.totalSpace ∨ containsHdd (h.toLowercase name) then
      ("hdd", ["videos", "backups"])
    else ("ssd", ["photos", "documents", "audio"])
  { volumeUuid := some (h.uuid (name ++ ":" ++ disk.mountPoint))
    mountPoint := disk.mountPoint
    name
    fsType := if disk.fileSystem = "" then "unknown" else disk.fileSystem
    totalCapacityBytes := disk.totalSpace
    availableCapacityBytes := disk.availableSpace
    diskType := kind.1
    suggestedCategories := kind.2
    capabilities := capabilities ffmpegAvailable }

/-- A directory that is allowed. -/
def Host.customDisk (custom : String) : DiscoveredDisk :=
  let path := trim isWhiteSpace custom
  { volumeUuid := some (h.uuid ("CustomDir:" ++ path))
    mountPoint := path
    name := "Storage Folder (" ++ path ++ ")"
    fsType := "directory"
    totalCapacityBytes := h.freeBytes path
    availableCapacityBytes := h.freeBytes path
    diskType := "ssd"
    suggestedCategories := ["photos", "documents"]
    capabilities := capabilities ffmpegAvailable }

/-- What the loop over the allow list does with an entry. -/
def Host.addCustom (found : List DiscoveredDisk) (custom : String) : List DiscoveredDisk :=
  if h.isDir custom && !found.any fun d => h.text d.mountPoint = h.clean custom then
    found ++ [h.customDisk ffmpegAvailable custom]
  else found

def Host.discoverPhysicalDisks : List DiscoveredDisk :=
  policy.allowed.foldl (h.addCustom ffmpegAvailable)
    ((h.disks.filter (h.passes policy)).map (h.discovered ffmpegAvailable))

end Discovery

/-! ## Serving (`connection_manager.rs`) -/

section Serving

variable (h : Host) (policy : Policy) (defaultRoot root : String)

/-- The root of a command. -/
def targetRoot (storagePath : Option String) : String :=
  (storagePath.filter fun path => trim isWhiteSpace path ≠ "").getD defaultRoot

/-- The cleaned text is that of the directory, or goes on after it. -/
def Host.startsWith (directory : String) : Bool :=
  h.clean root = h.clean directory
    || (h.clean directory).toList.isPrefixOf (h.clean root).toList

/-- The node disk policy of `handle_fs_command`. -/
def Host.isForbidden : Bool :=
  let matchesExcluded := policy.excluded.any (h.startsWith root)
  let isAccessingDefaultDataDir := h.startsWith root defaultRoot
  if !policy.allowed.isEmpty then
    let matchesAllowed := policy.allowed.any fun allowed =>
      h.startsWith root allowed || (h.clean root).toList.isPrefixOf (h.clean allowed).toList
    !(matchesAllowed || isAccessingDefaultDataDir) || matchesExcluded
  else if !isAccessingDefaultDataDir then true
  else matchesExcluded

end Serving

/-! ## Agreement -/

section Agreement

variable (h : Host) (policy : Policy) (defaultRoot : String)

/-- The mount point is not excluded, and a command for it is not refused. -/
def Host.Servable (mountPoint : String) : Prop :=
  h.lists policy.excluded mountPoint = false ∧
    h.isForbidden policy defaultRoot (targetRoot defaultRoot (some mountPoint)) = false

/-- No excluded text is the start of that of the mount point. -/
def Host.Clear (mountPoint : String) : Prop :=
  policy.excluded.any (h.startsWith (targetRoot defaultRoot (some mountPoint))) = false

/-- A directory that is allowed, whose text is that of no disk and of no directory before it. -/
def Host.Custom (before : List String) (custom : String) : Prop :=
  h.isDir custom = true ∧
    (∀ disk ∈ h.disks, h.passes policy disk = true → h.text disk.mountPoint ≠ h.clean custom) ∧
    ∀ other ∈ before, h.isDir other = true → h.clean other ≠ h.clean custom

/-- No excluded text is the start of that of a disk that is not skipped, or of an allowed directory;
and if nothing is allowed, the disks are in the default directory. -/
structure Host.Agrees : Prop where
  disks : ∀ disk ∈ h.disks, h.passes policy disk = true → h.Clear policy defaultRoot disk.mountPoint
  inDefault : policy.allowed = [] → ∀ disk ∈ h.disks, h.passes policy disk = true →
    h.startsWith (targetRoot defaultRoot (some disk.mountPoint)) defaultRoot = true
  customs : ∀ before custom after, policy.allowed = before ++ custom :: after →
    h.Custom policy before custom →
      h.Clear policy defaultRoot (trim isWhiteSpace custom) ∧
        h.lists policy.excluded (trim isWhiteSpace custom) = false

end Agreement

/-! ## What is discovered -/

section Discovered

variable {h : Host} {ffmpegAvailable : Bool} {policy : Policy} {found : List DiscoveredDisk}
  {allowed : List String} {custom : String} {d : DiscoveredDisk}

@[simp] theorem customDisk_mountPoint (custom : String) :
    (h.customDisk ffmpegAvailable custom).mountPoint = trim isWhiteSpace custom := rfl

theorem text_trim (custom : String) : h.text (trim isWhiteSpace custom) = h.clean custom := rfl

@[simp] theorem discovered_mountPoint (disk : Disk) :
    (h.discovered ffmpegAvailable disk).mountPoint = disk.mountPoint := rfl

theorem addCustom_of_text (hdir : h.isDir custom = true)
    (hnew : ∀ d ∈ found, h.text d.mountPoint ≠ h.clean custom) :
    h.addCustom ffmpegAvailable found custom =
      found ++ [h.customDisk ffmpegAvailable custom] := by
  have hany : found.any (fun d => h.text d.mountPoint = h.clean custom) = false := by
    rw [List.any_eq_false]
    exact fun d hd => by simpa using hnew d hd
  rw [Host.addCustom, hdir, hany]
  rfl

theorem addCustom_of_not (h' : h.isDir custom = true → ∃ d ∈ found,
    h.text d.mountPoint = h.clean custom) : h.addCustom ffmpegAvailable found custom = found := by
  rw [Host.addCustom, if_neg]
  intro hadd
  obtain ⟨hdir, hnone⟩ := Bool.and_eq_true_iff.mp hadd
  obtain ⟨d, hd, htext⟩ := h' hdir
  rw [Bool.not_eq_true', List.any_eq_false] at hnone
  exact hnone d hd (decide_eq_true htext)

/-- The texts of what is found are those of what was there before and of the directories. -/
theorem exists_text_foldl (text : String) :
    (∃ d ∈ allowed.foldl (h.addCustom ffmpegAvailable) found, h.text d.mountPoint = text) ↔
      (∃ d ∈ found, h.text d.mountPoint = text) ∨
        ∃ custom ∈ allowed, h.isDir custom = true ∧ h.clean custom = text := by
  induction allowed generalizing found with
  | nil => simp
  | cons custom allowed ih =>
    rw [List.foldl_cons, ih]
    by_cases hnew : h.isDir custom = true ∧ ∀ d ∈ found, h.text d.mountPoint ≠ h.clean custom
    · rw [addCustom_of_text hnew.1 hnew.2]
      simp [hnew.1, text_trim, or_and_right, exists_or, or_assoc]
    · have hfound : h.isDir custom = true → ∃ d ∈ found, h.text d.mountPoint = h.clean custom := by
        simpa using hnew
      rw [addCustom_of_not hfound, List.exists_mem_cons_iff]
      refine ⟨Or.imp_right .inr, ?_⟩
      rintro (hd | ⟨hdir, rfl⟩ | hmore)
      · exact .inl hd
      · exact .inl (hfound hdir)
      · exact .inr hmore

/-- An entry of a list with one more is one of the list, or that one. -/
theorem exists_split_concat {P : List String → String → Prop} {l : List String} {last : String} :
    (∃ before x after, l ++ [last] = before ++ x :: after ∧ P before x) ↔
      (∃ before x after, l = before ++ x :: after ∧ P before x) ∨ P l last := by
  constructor
  · rintro ⟨before, x, after, hl, hx⟩
    rcases List.eq_nil_or_concat after with rfl | ⟨after, y, rfl⟩
    · obtain ⟨rfl, hlast⟩ := List.append_inj' hl rfl
      obtain rfl := List.singleton_inj.mp hlast
      exact .inr hx
    · rw [List.concat_eq_append, ← List.cons_append, ← List.append_assoc] at hl
      exact .inl ⟨before, x, after, (List.append_inj' hl rfl).1, hx⟩
  · rintro (⟨before, x, after, rfl, hx⟩ | hlast)
    · exact ⟨before, x, after ++ [last], by simp, hx⟩
    · exact ⟨l, last, [], rfl, hlast⟩

/-- **What is discovered**: the disks, and each directory that has a text of its own when the loop
comes to it. -/
theorem mem_foldl_addCustom : d ∈ allowed.foldl (h.addCustom ffmpegAvailable) found ↔
    d ∈ found ∨ ∃ before custom after, allowed = before ++ custom :: after ∧
      h.isDir custom = true ∧ (∀ d ∈ found, h.text d.mountPoint ≠ h.clean custom) ∧
      (∀ other ∈ before, h.isDir other = true → h.clean other ≠ h.clean custom) ∧
      d = h.customDisk ffmpegAvailable custom := by
  induction allowed using List.reverseRecOn with
  | nil => simp
  | append_singleton allowed custom ih =>
    have htexts : (∀ d ∈ allowed.foldl (h.addCustom ffmpegAvailable) found,
        h.text d.mountPoint ≠ h.clean custom) ↔
          (∀ d ∈ found, h.text d.mountPoint ≠ h.clean custom) ∧
            ∀ other ∈ allowed, h.isDir other = true → h.clean other ≠ h.clean custom := by
      have htext := @exists_text_foldl h ffmpegAvailable found allowed (h.clean custom)
      simpa using not_congr htext
    rw [List.foldl_append, List.foldl_cons, List.foldl_nil, exists_split_concat, ← or_assoc, ← ih]
    by_cases hnew : h.isDir custom = true ∧ ∀ d ∈ allowed.foldl (h.addCustom ffmpegAvailable) found,
        h.text d.mountPoint ≠ h.clean custom
    · rw [addCustom_of_text hnew.1 hnew.2, List.mem_append, List.mem_singleton]
      obtain ⟨hfound, hothers⟩ := htexts.mp hnew.2
      exact or_congr_right ⟨fun hd => ⟨hnew.1, hfound, hothers, hd⟩, fun hd => hd.2.2.2⟩
    · rw [addCustom_of_not (by simpa using hnew)]
      refine ⟨.inl, Or.rec id fun ⟨hdir, hfound, hothers, _⟩ => ?_⟩
      exact absurd ⟨hdir, htexts.mpr ⟨hfound, hothers⟩⟩ hnew

theorem mem_discoverPhysicalDisks : d ∈ h.discoverPhysicalDisks ffmpegAvailable policy ↔
    (∃ disk ∈ h.disks, h.passes policy disk = true ∧ h.discovered ffmpegAvailable disk = d) ∨
      ∃ before custom after, policy.allowed = before ++ custom :: after ∧
        h.Custom policy before custom ∧ d = h.customDisk ffmpegAvailable custom := by
  have hdisks : ∀ text : String,
      (∀ d ∈ (h.disks.filter (h.passes policy)).map (h.discovered ffmpegAvailable),
        h.text d.mountPoint ≠ text) ↔
      ∀ disk ∈ h.disks, h.passes policy disk = true → h.text disk.mountPoint ≠ text := by
    simp only [List.forall_mem_map, List.mem_filter, discovered_mountPoint, and_imp, implies_true]
  rw [Host.discoverPhysicalDisks, mem_foldl_addCustom]
  simp only [hdisks, Host.Custom, and_assoc]
  simp only [List.mem_map, List.mem_filter, and_assoc]

end Discovered

/-! ## What is served -/

section Served

variable {h : Host} {policy : Policy} {defaultRoot root mountPoint : String}

theorem isForbidden_eq_false_iff : h.isForbidden policy defaultRoot root = false ↔
    ((∃ allowed ∈ policy.allowed, h.startsWith root allowed = true ∨
        (h.clean root).toList.isPrefixOf (h.clean allowed).toList = true) ∨
      h.startsWith root defaultRoot = true) ∧
    policy.excluded.any (h.startsWith root) = false := by
  have hany : (∃ allowed ∈ policy.allowed, h.startsWith root allowed = true ∨
      (h.clean root).toList.isPrefixOf (h.clean allowed).toList = true) ↔
      policy.allowed.any (fun allowed => h.startsWith root allowed
        || (h.clean root).toList.isPrefixOf (h.clean allowed).toList) = true := by
    simp only [List.any_eq_true, Bool.or_eq_true]
  rw [hany, Host.isForbidden]
  rcases policy.allowed with _ | ⟨entry, entries⟩
  · cases h.startsWith root defaultRoot <;> simp
  · rw [List.isEmpty_cons, if_pos (by rfl)]
    generalize (entry :: entries).any _ = matchesAllowed
    generalize policy.excluded.any _ = matchesExcluded
    cases matchesAllowed <;> cases h.startsWith root defaultRoot <;> simp

theorem startsWith_of_clean_eq {directory : String} (heq : h.clean directory = h.clean root) :
    h.startsWith root directory = true := by simp [Host.startsWith, heq]

/-- The root of a command for a mount point is the mount point, or the default directory. -/
theorem targetRoot_eq_or : targetRoot defaultRoot (some mountPoint) = mountPoint ∨
    targetRoot defaultRoot (some mountPoint) = defaultRoot := by
  rw [targetRoot, Option.filter_some]
  split
  · exact .inl rfl
  · exact .inr rfl

/-- What is allowed is not refused for want of an entry. -/
theorem servable_iff {entry : String} (hentry : entry ∈ policy.allowed)
    (hallowed : h.startsWith mountPoint entry = true) :
    h.Servable policy defaultRoot mountPoint ↔ h.lists policy.excluded mountPoint = false ∧
      h.Clear policy defaultRoot mountPoint := by
  rw [Host.Servable, isForbidden_eq_false_iff, Host.Clear]
  refine and_congr_right fun _ => and_iff_right ?_
  rcases @targetRoot_eq_or defaultRoot mountPoint with hroot | hroot
  · rw [hroot]
    exact .inl ⟨entry, hentry, .inl hallowed⟩
  · rw [hroot]
    exact .inr (startsWith_of_clean_eq rfl)

/-- A listed mount point starts with an entry. -/
theorem exists_startsWith_of_lists {entries : List String}
    (hlists : h.lists entries mountPoint = true) :
    ∃ entry ∈ entries, h.startsWith mountPoint entry = true := by
  simp only [Host.lists, List.any_eq_true, Bool.or_eq_true, decide_eq_true_eq] at hlists
  obtain ⟨entry, hentry, heq⟩ := hlists
  refine ⟨entry, hentry, ?_⟩
  rcases heq with heq | heq
  · exact startsWith_of_clean_eq heq
  · have hprefix : (h.clean entry).toList.isPrefixOf (h.clean mountPoint).toList = true := by
      rw [heq, trimEnd, String.toList_ofList, List.isPrefixOf_iff_prefix]
      exact List.rdropWhile_prefix _ _
    rw [Host.startsWith, hprefix, Bool.or_true]

theorem servable_disk_iff {disk : Disk} (hpasses : h.passes policy disk = true) :
    h.Servable policy defaultRoot disk.mountPoint ↔
      h.Clear policy defaultRoot disk.mountPoint ∧ (policy.allowed = [] →
        h.startsWith (targetRoot defaultRoot (some disk.mountPoint)) defaultRoot = true) := by
  simp only [Host.passes, Bool.and_eq_true, Bool.not_eq_true', Bool.or_eq_true,
    List.isEmpty_iff] at hpasses
  obtain ⟨⟨-, hnot⟩, hnone | hlists⟩ := hpasses
  · rw [Host.Servable, isForbidden_eq_false_iff, hnone, Host.Clear]
    simp [hnot, and_comm]
  · obtain ⟨entry, hentry, hstarts⟩ := exists_startsWith_of_lists hlists
    rw [servable_iff hentry hstarts]
    have hne : policy.allowed ≠ [] := List.ne_nil_of_mem hentry
    simp [hnot, hne]

theorem servable_custom_iff {custom : String} (hcustom : custom ∈ policy.allowed) :
    h.Servable policy defaultRoot (trim isWhiteSpace custom) ↔
      h.Clear policy defaultRoot (trim isWhiteSpace custom) ∧
        h.lists policy.excluded (trim isWhiteSpace custom) = false := by
  rw [servable_iff hcustom (startsWith_of_clean_eq (h.clean_trim custom).symm), and_comm]

end Served

/-- **Everything that is advertised is served exactly if no excluded text is the start of one, and
without an allow list the disks are in the default directory.** -/
theorem advertised_servable_iff (h : Host) (ffmpegAvailable : Bool) (policy : Policy)
    (defaultRoot : String) :
    (∀ d ∈ h.discoverPhysicalDisks ffmpegAvailable policy,
      h.Servable policy defaultRoot d.mountPoint) ↔ h.Agrees policy defaultRoot := by
  constructor
  · intro hserved
    have hdisk : ∀ disk ∈ h.disks, h.passes policy disk = true →
        h.Servable policy defaultRoot disk.mountPoint := by
      intro disk hmem hpasses
      have hserved := hserved (h.discovered ffmpegAvailable disk)
        (mem_discoverPhysicalDisks.mpr (.inl ⟨disk, hmem, hpasses, rfl⟩))
      rwa [discovered_mountPoint] at hserved
    refine ⟨fun disk hmem hpasses => ?_, fun hnone disk hmem hpasses => ?_,
      fun before custom after hallowed hcustom => ?_⟩
    · exact ((servable_disk_iff hpasses).mp (hdisk disk hmem hpasses)).1
    · exact ((servable_disk_iff hpasses).mp (hdisk disk hmem hpasses)).2 hnone
    · have hmem : custom ∈ policy.allowed := by simp [hallowed]
      have hserved := hserved (h.customDisk ffmpegAvailable custom)
        (mem_discoverPhysicalDisks.mpr (.inr ⟨before, custom, after, hallowed, hcustom, rfl⟩))
      rw [customDisk_mountPoint] at hserved
      exact (servable_custom_iff hmem).mp hserved
  · rintro hagrees d hd
    rcases mem_discoverPhysicalDisks.mp hd with ⟨disk, hmem, hpasses, rfl⟩ |
      ⟨before, custom, after, hallowed, hcustom, rfl⟩
    · rw [discovered_mountPoint]
      exact (servable_disk_iff hpasses).mpr ⟨hagrees.disks disk hmem hpasses,
        fun hnone => hagrees.inDefault hnone disk hmem hpasses⟩
    · have hmem : custom ∈ policy.allowed := by simp [hallowed]
      rw [customDisk_mountPoint]
      exact (servable_custom_iff hmem).mpr (hagrees.customs before custom after hallowed hcustom)

instance (h : Host) (policy : Policy) (defaultRoot mountPoint : String) :
    Decidable (h.Servable policy defaultRoot mountPoint) := inferInstanceAs (Decidable (_ ∧ _))

namespace Laptop

/-- One disk, and a directory on it. -/
def host : Host where
  disks := [⟨"/", "nvme0n1", "ext4", 512000000000, 100000000000, false⟩]
  isDir path := path = "/srv/media2"
  freeBytes _ := 100000000000
  sha256 := knownSha256
  toLowercase text := String.ofList (text.toList.map Char.toLower)

end Laptop

open Laptop

/-- **What is advertised is refused**: the disk if no list is set, and a directory whose name goes
on where that of an excluded one ends. -/
theorem not_advertised_servable :
    (¬ ∀ d ∈ host.discoverPhysicalDisks false ⟨[], []⟩,
      host.Servable ⟨[], []⟩ "/var/lib/pcos" d.mountPoint) ∧
    ¬ ∀ d ∈ host.discoverPhysicalDisks false ⟨["/srv/media2"], ["/srv/media"]⟩,
      host.Servable ⟨["/srv/media2"], ["/srv/media"]⟩ "/var/lib/pcos" d.mountPoint := by
  constructor
  · decide
  · decide

end Pcos.Disks
