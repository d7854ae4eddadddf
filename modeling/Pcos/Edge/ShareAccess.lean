import Pcos.Backend.ShareAccess
import Pcos.Edge.DownloadLimit

/-!
# Edge/ShareAccess — who gets through a link, at the edge and in the backend

The worker hashes a link's password without the space around it, and compares what a request supplies
as it is.  A download does not look whether the link is a request for files.
-/

namespace Pcos.Edge.Files

open Foundations Accounts

/-! ## Links and their passwords -/

/-- Each link has the hash of the password it was created with. -/
def CreatedWith (p : Platform) (given : String → Option String) (s : Store) : Prop :=
  ∀ l ∈ s.shares, ∃ salt, l.passwordHash = sharePasswordHash p salt (given l.id)

/-- The links that the owners' requests lead to from none, and the passwords they give. -/
inductive Reaches (p : Platform) : Store → (String → Option String) → Prop
  | start (s : Store) (given : String → Option String) : s.shares = [] → Reaches p s given
  | create {s s' given} (c : ShareCall) (user : String) (body : CreateShareBody) (l : Share) :
    Reaches p s given → createShare p c user body s = .ok l s' →
    Reaches p s' (Function.update given l.id body.password)
  /-- Anything that leaves no link with another hash: downloads, uploads, deletions and the files. -/
  | others {s s' given} : Reaches p s given →
    (∀ l' ∈ s'.shares, ∃ l ∈ s.shares, l'.id = l.id ∧ l'.passwordHash = l.passwordHash) →
    Reaches p s' given

/-- The hash of no other password verifies with this one. -/
def Distinguishes (p : Platform) (pass : String) : Prop :=
  ∀ salt other, p.verifyPassword pass (p.hashPassword salt other) = true → other = pass

section Passwords

variable {p : Platform} {given : String → Option String} {s : Store} {share : Share} {pass : String}

@[simp] theorem wp_ofExcept {α : Type} {y : Except Refusal α} {Q : α → Store → Prop}
    {E : Refusal → Store → Prop} :
    wp (ofExcept y) Q E s ↔ (∀ a, y = .ok a → Q a s) ∧ ∀ e, y = .error e → E e s := by
  cases y <;> simp [ofExcept]

/-- What `createShare` adds is a link with the hash of the request's password. -/
theorem createShare_spec {c : ShareCall} {user : String} {body : CreateShareBody} :
    wp (createShare p c user body)
      (fun l s' => s'.shares = s.shares ++ [l] ∧ (∀ l' ∈ s.shares, l'.id ≠ l.id) ∧
        l.passwordHash = sharePasswordHash p c.salt body.password) (fun _ _ => True) s := by
  simp only [createShare, wp_bind, wp_get, wp_okOr, wp_ensure, wp_set, wp_pure, imp_true_iff,
    and_true]
  intro fileId _ _ hfresh
  refine ⟨trivial, fun l' hl' hid => ?_, rfl⟩
  have hl := List.all_eq_true.mp hfresh l' hl'
  rw [Bool.and_eq_true, decide_eq_true_eq] at hl
  exact hl.1 hid

/-- **Each link has the hash of its password**, wherever the owners' requests lead. -/
theorem Reaches.createdWith (h : Reaches p s given) : CreatedWith p given s := by
  induction h with
  | start s given hnone =>
    intro l hl
    rw [hnone] at hl
    cases hl
  | create c user body l _ heq ih =>
    obtain ⟨hlinks, hfresh, hhash⟩ := createShare_spec.of_eq heq
    intro l' hl'
    rw [hlinks, List.mem_append, List.mem_singleton] at hl'
    rcases hl' with hl' | rfl
    · rw [Function.update_of_ne (hfresh l' hl')]
      exact ih l' hl'
    · exact ⟨c.salt, by rw [Function.update_self]; exact hhash⟩
  | others _ hsame ih =>
    intro l' hl'
    obtain ⟨l, hl, hid, hhash⟩ := hsame l' hl'
    rw [hid, hhash]
    exact ih l hl

/-- **What opens a link**: its password without the space around it; anything, if that is nothing. -/
theorem opens_iff (hcreated : ∃ salt, share.passwordHash = sharePasswordHash p salt (given share.id))
    (hdist : Distinguishes p pass) :
    share.opens p pass = true ↔ trim isSpace ((given share.id).getD "") = "" ∨
      pass = trim isSpace ((given share.id).getD "") := by
  obtain ⟨salt, hsalt⟩ := hcreated
  rw [Share.opens, hsalt, sharePasswordHash]
  split
  · rename_i hblank
    simp [truthy, hblank]
  · rename_i hblank
    have htruthy : ∀ q, truthy (some (p.hashPassword salt q)) = some (p.hashPassword salt q) :=
      fun q => by simp [truthy, p.hash_ne]
    rw [htruthy, Option.all_some, or_iff_right hblank]
    exact ⟨fun h => (hdist salt _ h).symm, fun h => h ▸ p.verify_hash salt _⟩

end Passwords

/-! ## Access -/

/-- The request supplies the password, if there is one. -/
def Supplies (given : Option String) (pass : String) : Prop := ∀ q, truthy given = some q → pass = q

/-- The link is the request's and lets it through: it is there, not expired, for uploads or for
downloads, and the request supplies its password. -/
structure Lets (p : Platform) (given : String → Option String) (s : Store) (now : ℤ) (token : String)
    (pass : String) (upload : Bool) (share : Share) : Prop where
  found : s.share token = some share
  mem : share ∈ s.shares
  token : share.shareToken = token
  unexpired : share.expired p now = false
  grants : share.isUploadRequest = upload
  password : Supplies (given share.id) pass

/-- The refusal does not turn away who supplies the link's password. -/
def NotRefused (given : String → Option String) (s : Store) (token pass : String) (e : Refusal) : Prop :=
  e.status = 401 → ∀ share, s.share token = some share → ∀ q, truthy (given share.id) = some q →
    pass ≠ q

/-- A download discloses bytes only to whom the link lets through, and does not turn away who
supplies its password; an upload likewise. -/
structure Controlled (d : Deployment) (p : Platform) (read : FsReadChunk)
    (given : String → Option String) (c : Call) (r : ShareRequest) (form : UploadForm) (s : Store) :
    Prop where
  download : wp (downloadShare d p read c.now r)
    (fun reply _ => reply.bytes.isSome = true → ∃ share, Lets p given s c.now r.token r.password false share)
    (fun e _ => NotRefused given s r.token r.password e) s
  upload : wp (uploadShare p c r form)
    (fun _ _ => ∃ share, Lets p given s c.now r.token (r.uploadPassword form) true share)
    (fun e _ => NotRefused given s r.token (r.uploadPassword form) e) s

/-- A download comes to the password's check. -/
structure AsksDownload (p : Platform) (now : ℤ) (r : ShareRequest) (s : Store) (share : Share) : Prop where
  found : s.share r.token = some share
  unexpired : share.expired p now = false
  below : share.exhausted = false

/-- A download is answered with bytes. -/
structure Discloses (d : Deployment) (p : Platform) (read : FsReadChunk) (now : ℤ) (r : ShareRequest)
    (s : Store) (share : Share) : Prop extends AsksDownload p now r s share where
  opens : share.opens p r.password = true
  bytes : ∃ file reply, s.files.find? (fun f => f.id = share.fileId) = some file ∧
    s.deliver d read share file r.range = .ok reply ∧ reply.bytes.isSome = true

/-- An upload comes to the password's check. -/
structure AsksUpload (p : Platform) (now : ℤ) (r : ShareRequest) (s : Store) (share : Share) : Prop where
  found : s.share r.token = some share
  isRequest : share.isUploadRequest = true
  unexpired : share.expired p now = false

/-- The password was given with space around it. -/
def Padded (given : Option String) (q : String) : Prop := truthy given = some q ∧ trim isSpace q ≠ q

/-- What the requests of a controlled link avoid: bytes of a request for files, and a password with
space around it, if it is not supplied or is more than space. -/
structure Avoids (d : Deployment) (p : Platform) (read : FsReadChunk)
    (given : String → Option String) (c : Call) (r : ShareRequest) (form : UploadForm) (s : Store) :
    Prop where
  discloses : ∀ share, Discloses d p read c.now r s share →
    share.isUploadRequest = false ∧ ∀ q, Padded (given share.id) q → r.password = q
  asksDownload : ∀ share, AsksDownload p c.now r s share → ∀ q, Padded (given share.id) q →
    trim isSpace q ≠ "" → r.password ≠ q
  stores : ∀ share file, CanShareUpload p c r form s share file → ∀ q, Padded (given share.id) q →
    r.uploadPassword form = q
  asksUpload : ∀ share, AsksUpload p c.now r s share → ∀ q, Padded (given share.id) q →
    trim isSpace q ≠ "" → r.uploadPassword form ≠ q

section Access

variable {d : Deployment} {p : Platform} {read : FsReadChunk} {given : String → Option String}
  {c : Call} {r : ShareRequest} {form : UploadForm} {s : Store} {share : Share} {pass : String}

theorem share_mem {token : String} (h : s.share token = some share) :
    share ∈ s.shares ∧ share.shareToken = token :=
  ⟨List.mem_of_find?_eq_some h, by simpa using List.find?_some h⟩

/-- Who opens a link supplies its password, if that was given without space around it. -/
theorem supplies_iff (hcreated : CreatedWith p given s) (hmem : share ∈ s.shares)
    (hdist : Distinguishes p pass) (hopens : share.opens p pass = true) :
    Supplies (given share.id) pass ↔ ∀ q, Padded (given share.id) q → pass = q := by
  constructor
  · exact fun h q hq => h q hq.1
  · intro h q hq
    by_cases htrim : trim isSpace q = q
    · have hgiven : (given share.id).getD "" = q := by
        rw [(Option.filter_eq_some_iff.mp hq).1]
        rfl
      have hne : q ≠ "" := by simpa using (Option.filter_eq_some_iff.mp hq).2
      have hpass := (opens_iff (hcreated share hmem) hdist).mp hopens
      rw [hgiven, htrim] at hpass
      exact hpass.resolve_left hne
    · exact h q ⟨hq, htrim⟩

/-- Whom a link does not open for does not supply its password, if that was given without space
around it. -/
theorem not_supplied_iff (hcreated : CreatedWith p given s) (hmem : share ∈ s.shares)
    (hdist : Distinguishes p pass) :
    (share.opens p pass = false → ∀ q, truthy (given share.id) = some q → pass ≠ q) ↔
      ∀ q, Padded (given share.id) q → trim isSpace q ≠ "" → pass ≠ q := by
  have hiff := opens_iff (hcreated share hmem) hdist
  have hgetD : ∀ q, truthy (given share.id) = some q → (given share.id).getD "" = q := fun q hq => by
    rw [(Option.filter_eq_some_iff.mp hq).1]
    rfl
  constructor
  · rintro h q ⟨hq, htrim⟩ hblank rfl
    refine h ?_ pass hq rfl
    rw [Bool.eq_false_iff, ne_eq, hiff, hgetD pass hq]
    exact not_or.mpr ⟨hblank, Ne.symm htrim⟩
  · rintro h hclosed q hq rfl
    rw [Bool.eq_false_iff, ne_eq, hiff, hgetD pass hq, not_or] at hclosed
    exact h pass ⟨hq, Ne.symm hclosed.2⟩ hclosed.1 rfl

/-- What is checked of a link answers with the link, or refuses it for one of four reasons. -/
theorem checkShare_spec {P : Share → Prop} {R : Prop} :
    ((∀ share, checkShare p c.now r (s.share r.token) = .ok share → P share) ∧
        ∀ e, checkShare p c.now r (s.share r.token) = .error e → e.status = 401 → R) ↔
      ∀ share, AsksDownload p c.now r s share →
        (share.opens p r.password = true → P share) ∧ (share.opens p r.password = false → R) := by
  unfold checkShare
  cases hfound : s.share r.token with
  | none => simp [show ∀ share, ¬ AsksDownload p c.now r s share from fun share h => by
      rw [h.found] at hfound; cases hfound]
  | some share =>
    have hiff : ∀ share', AsksDownload p c.now r s share' ↔
        share' = share ∧ share.expired p c.now = false ∧ share.exhausted = false := by
      intro share'
      constructor
      · rintro ⟨hfound', hexpired, hexhausted⟩
        obtain rfl := Option.some.inj (hfound'.symm.trans hfound)
        exact ⟨rfl, hexpired, hexhausted⟩
      · rintro ⟨rfl, hexpired, hexhausted⟩
        exact ⟨hfound, hexpired, hexhausted⟩
    simp only [hiff, and_imp, forall_eq]
    cases share.expired p c.now <;> cases share.exhausted <;> cases share.opens p r.password <;> simp

/-- Bytes that are not found are not refused for a password. -/
theorem deliver_error {file : FileEntry} {range : Option String} {e : Refusal}
    (h : s.deliver d read share file range = .error e) : e.status = 404 := by
  unfold Store.deliver at h
  split at h
  · cases h
  · split at h
    · cases h
    · dsimp only at h
      split at h <;> cases h
      rfl

/-- **What a download answers.** -/
theorem wp_downloadShare {P R : Prop} :
    wp (downloadShare d p read c.now r) (fun reply _ => reply.bytes.isSome = true → P)
        (fun e _ => e.status = 401 → R) s ↔
      (∀ share, Discloses d p read c.now r s share → P) ∧
        ∀ share, AsksDownload p c.now r s share → share.opens p r.password = false → R := by
  simp only [downloadShare, wp_bind, wp_get, wp_okOr, wp_ofExcept, wp_modify]
  rw [checkShare_spec]
  constructor
  · intro h
    refine ⟨fun share hd => ?_, fun share hasks => (h share hasks).2⟩
    obtain ⟨file, reply, hfile, hreply, hbytes⟩ := hd.bytes
    exact (((h share hd.toAsksDownload).1 hd.opens).1 file hfile).1 reply hreply hbytes
  · rintro ⟨hdiscloses, hasks⟩ share hshare
    refine ⟨fun hopens => ⟨fun file hfile => ⟨fun reply hreply hbytes => ?_, fun e he h401 => ?_⟩,
      fun _ h401 => (by cases h401)⟩, hasks share hshare⟩
    · exact hdiscloses share ⟨hshare, hopens, file, reply, hfile, hreply, hbytes⟩
    · rw [deliver_error he] at h401
      cases h401

/-- **What an upload answers.** -/
theorem wp_uploadShare_const {P R : Prop} :
    wp (uploadShare p c r form) (fun _ _ => P) (fun e _ => e.status = 401 → R) s ↔
      (∀ share file, CanShareUpload p c r form s share file → P) ∧
        ∀ share, AsksUpload p c.now r s share → share.opens p (r.uploadPassword form) = false → R := by
  simp only [uploadShare, wp_bind, wp_get, wp_okOr, wp_ensure, wp_insertFile, wp_pure, thrown,
    Bool.not_eq_true', Nat.reduceEqDiff, false_imp_iff, imp_true_iff, and_true,
    true_imp_iff]
  constructor
  · intro h
    refine ⟨fun share file hcan => ?_, fun share hasks hclosed => ?_⟩
    · exact ((h share hcan.found hcan.isRequest hcan.unexpired).1 hcan.opens) file hcan.sent hcan.accepts
    · exact (h share hasks.found hasks.isRequest hasks.unexpired).2 hclosed
  · rintro ⟨hstores, hasks⟩ share hfound hrequest hunexpired
    exact ⟨fun hopens file hsent haccepts =>
      hstores share file ⟨hfound, hrequest, hunexpired, hopens, hsent, haccepts⟩,
      hasks share ⟨hfound, hrequest, hunexpired⟩⟩

/-- Whom a link that opens lets through. -/
theorem lets_iff {token : String} {upload : Bool} (hcreated : CreatedWith p given s)
    (hdist : Distinguishes p pass) (hfound : s.share token = some share)
    (hunexpired : share.expired p c.now = false) (hopens : share.opens p pass = true) :
    (∃ share, Lets p given s c.now token pass upload share) ↔
      share.isUploadRequest = upload ∧ ∀ q, Padded (given share.id) q → pass = q := by
  obtain ⟨hmem, htoken⟩ := share_mem hfound
  have hsupplies := supplies_iff hcreated hmem hdist hopens
  constructor
  · rintro ⟨share', hlets⟩
    obtain rfl := Option.some.inj (hlets.found.symm.trans hfound)
    exact ⟨hlets.grants, hsupplies.mp hlets.password⟩
  · rintro ⟨hgrants, hpadded⟩
    exact ⟨share, hfound, hmem, htoken, hunexpired, hgrants, hsupplies.mpr hpadded⟩

/-- Whom a link that does not open refuses. -/
theorem notRefused_iff {token : String} (hcreated : CreatedWith p given s)
    (hdist : Distinguishes p pass) (hfound : s.share token = some share) :
    (share.opens p pass = false → ∀ share', s.share token = some share' →
        ∀ q, truthy (given share'.id) = some q → pass ≠ q) ↔
      ∀ q, Padded (given share.id) q → trim isSpace q ≠ "" → pass ≠ q := by
  rw [← not_supplied_iff hcreated (share_mem hfound).1 hdist]
  simp only [hfound, Option.some.injEq, forall_eq']

/-- **When a link of the edge is controlled**: exactly if its requests avoid what `Avoids` tells. -/
theorem controlled_iff (hreach : Reaches p s given) (hdown : Distinguishes p r.password)
    (hup : Distinguishes p (r.uploadPassword form)) :
    Controlled d p read given c r form s ↔ Avoids d p read given c r form s := by
  have hcreated := hreach.createdWith
  constructor
  · rintro ⟨hdownload, hupload⟩
    obtain ⟨hdiscloses, hdownrefused⟩ := wp_downloadShare.mp hdownload
    obtain ⟨hstores, huprefused⟩ := wp_uploadShare_const.mp hupload
    constructor
    · intro share h
      exact (lets_iff hcreated hdown h.found h.unexpired h.opens).mp (hdiscloses share h)
    · intro share h
      exact (notRefused_iff hcreated hdown h.found).mp (hdownrefused share h)
    · intro share file h
      exact ((lets_iff hcreated hup h.found h.unexpired h.opens).mp (hstores share file h)).2
    · intro share h
      exact (notRefused_iff hcreated hup h.found).mp (huprefused share h)
  · intro h
    refine ⟨wp_downloadShare.mpr ⟨fun share hd => ?_, fun share ha => ?_⟩,
      wp_uploadShare_const.mpr ⟨fun share file hs => ?_, fun share ha => ?_⟩⟩
    · exact (lets_iff hcreated hdown hd.found hd.unexpired hd.opens).mpr (h.discloses share hd)
    · exact (notRefused_iff hcreated hdown ha.found).mpr (h.asksDownload share ha)
    · exact (lets_iff hcreated hup hs.found hs.unexpired hs.opens).mpr
        ⟨hs.isRequest, h.stores share file hs⟩
    · exact (notRefused_iff hcreated hup ha.found).mpr (h.asksUpload share ha)

end Access

/-! ## Both servers -/

open Noon Pcos.Sample

/-- Alice links her note. -/
def linkNote (password : String) : CreateShareBody :=
  ⟨some "note", none, none, some password, none, none⟩

def linkCall : ShareCall := ⟨0, id1, id2, "salt"⟩

/-- The link with this password. -/
def lockedNote (password : String) : Share := newShare platform linkCall alice.text "note" (linkNote password)

def lockedStore (password : String) : Store := ⟨[], [note], [], [lockedNote password], .empty⟩

/-- The password of each link. -/
def lockedWith (password : String) : String → Option String :=
  Function.update (fun _ => none) (lockedNote password).id (some password)

theorem reaches_lockedStore (password : String) :
    Reaches platform (lockedStore password) (lockedWith password) :=
  .create linkCall alice.text (linkNote password) (lockedNote password)
    (.start ⟨[], [note], [], [], .empty⟩ _ rfl) rfl

theorem distinguishes_platform (pass : String) : Distinguishes platform pass := by
  intro salt other h
  have heq : "pbkdf2$" ++ other = "pbkdf2$" ++ pass := of_decide_eq_true h
  simpa using heq

/-- The link to upload next to Alice's note, with a password. -/
def dropLink : Shares.ShareLink :=
  ⟨id2, alice, id1, "token", "upload", some Auth.Noon.passwordHash, none, none, 0, true, 0, 0⟩

def dropLinks : Shares.Shared := ⟨Shares.Sample.noteWorld, [dropLink]⟩

def dropPassword : Uuid → Option String := Function.update (fun _ => none) id2 (some "password")

theorem reaches_dropLinks : Shares.Reaches Auth.Noon.crates dropLinks dropPassword :=
  .create ⟨0, id2, "token", "salt"⟩ alice ⟨id1, "upload", some "password", none, none⟩ dropLink
    (.start Shares.Sample.noteWorld _) rfl

theorem distinguishes_crates (password : Option String) :
    Shares.Distinguishes Auth.Noon.crates password := by
  intro pass _ salt other hash hhash hverify
  have hother : other = "password" := by
    by_contra hne
    simp [Auth.Noon.crates, hne] at hhash
  have hpass : pass = "password" ∧ hash = Auth.Noon.passwordHash := by
    simpa [Auth.Noon.crates] using hverify
  rw [hother, hpass.1]

def dropCall : Pcos.Call := ⟨bob, 0, id3, tmp, 0⟩

def dropped : Shares.Field := ⟨some "file", some "f", some "text/plain", [0x61]⟩

/-- The upload is stored. -/
theorem stores_dropped (password : Option String) :
    Shares.Stores env dropCall ⟨"token", password, none⟩ [dropped] dropLinks dropLink where
  found := rfl
  unexpired := rfl
  uploads := ⟨Shares.Sample.note, dropped, rfl, rfl, id⟩

/-- A request for the note with a password in its header. -/
def noteRequest (password : String) : ShareRequest :=
  ⟨(lockedNote password).shareToken, some password, none, none⟩

def noForm : UploadForm := ⟨none, none, none, none⟩

def shareCall : Call := ⟨0, "new", 0⟩

theorem found_lockedNote {password : String} {share : Share}
    (h : (lockedStore password).share (noteRequest password).token = some share) :
    share = lockedNote password := by
  simpa [lockedStore, noteRequest, Store.share] using h.symm

theorem not_padded_password {q : String} : ¬ Padded (lockedWith "password" (lockedNote "password").id) q := by
  rintro ⟨hq, htrim⟩
  rw [lockedWith, Function.update_self] at hq
  obtain rfl := Option.some.inj hq
  exact htrim (by decide)

theorem avoids_password : Avoids plainDeployment platform noNode (lockedWith "password") shareCall
    (noteRequest "password") noForm (lockedStore "password") where
  discloses share h := by
    obtain rfl := found_lockedNote h.found
    exact ⟨rfl, fun q hq => absurd hq not_padded_password⟩
  asksDownload share h q hq := by
    obtain rfl := found_lockedNote h.found
    exact absurd hq not_padded_password
  stores share file h := by
    have := h.sent
    cases this
  asksUpload share h := by
    have hrequest := h.isRequest
    rw [show share = lockedNote "password" from found_lockedNote h.found] at hrequest
    cases hrequest

end Pcos.Edge.Files
