import Pcos.Backend.Shares

/-!
# Backend/ShareAccess — who gets through a link (`download_shared`, `upload_shared`)

A link has a password or none, and `given` says which.  A download asks for it; an upload does not.
-/

namespace Pcos.Shares

open Foundations Auth

/-! ## Links and their passwords -/

/-- Each link has the hash of the password it was given. -/
def CreatedWith (x : Crates) (given : Uuid → Option String) (s : Shared) : Prop :=
  ∀ l ∈ s.links, ∃ salt, hashSharePassword x salt (given l.id) = .ok l.passwordHash

/-- The links that the owners' requests lead to from none, and the passwords they give. -/
inductive Reaches (x : Crates) : Shared → (Uuid → Option String) → Prop
  | start (w : World) (given : Uuid → Option String) : Reaches x ⟨w, []⟩ given
  | create {s s' given} (c : ShareCall) (user : Uuid) (req : CreateShareRequest) (l : ShareLink) :
    Reaches x s given → createShare x c user req s = .ok l s' →
    Reaches x s' (Function.update given l.id req.password)
  | update {s s' given} (c : ShareCall) (user id : Uuid) (req : UpdateShareRequest) (l : ShareLink) :
    Reaches x s given → updateShare x c user id req s = .ok l s' →
    Reaches x s' (Function.update given l.id (req.password <|> given l.id))
  /-- Anything that leaves no link with another hash: downloads, uploads, deletions and the files. -/
  | others {s s' given} : Reaches x s given →
    (∀ l' ∈ s'.links, ∃ l ∈ s.links, l'.id = l.id ∧ l'.passwordHash = l.passwordHash) →
    Reaches x s' given

/-- The hash of no other password verifies with this one. -/
def Distinguishes (x : Crates) (password : Option String) : Prop :=
  ∀ pass ∈ password, ∀ salt other hash, x.hashPassword salt other = .ok hash →
    x.verifyPassword pass hash = .ok true → other = pass

section Passwords

variable {x : Crates} {given : Uuid → Option String} {s : Shared} {share : ShareLink}

@[simp] theorem wp_ofExcept {α : Type} {y : Except ShareError α} {Q : α → Shared → Prop}
    {E : ShareError → Shared → Prop} :
    wp (ofExcept y) Q E s ↔ (∀ a, y = .ok a → Q a s) ∧ ∀ e, y = .error e → E e s := by
  cases y <;> simp [ofExcept]

@[simp] theorem wp_inWorld {α : Type} {h : Pcos.Handler α} {Q : α → Shared → Prop}
    {E : ShareError → Shared → Prop} :
    wp (inWorld h) Q E s ↔
      wp h (fun a w => Q a { s with world := w }) (fun e w => E (.upload e) { s with world := w })
        s.world := by
  unfold wp inWorld
  cases h s.world <;> rfl

@[simp] theorem hashSharePassword_none {salt : String} {h : Option String} :
    hashSharePassword x salt none = .ok h ↔ h = none := by
  simp [hashSharePassword, eq_comm]

@[simp] theorem hashSharePassword_some {salt p : String} {h : Option String} :
    hashSharePassword x salt (some p) = .ok h ↔
      ∃ hash, x.hashPassword salt p = .ok hash ∧ h = some hash := by
  rw [hashSharePassword]
  cases x.hashPassword salt p <;> simp [eq_comm]

/-- What `createShare` adds is a link with the hash of the request's password. -/
theorem createShare_spec {c : ShareCall} {user : Uuid} {req : CreateShareRequest} :
    wp (createShare x c user req)
      (fun l s' => s'.links = s.links ++ [l] ∧ (∀ l' ∈ s.links, l'.id ≠ l.id) ∧
        hashSharePassword x c.salt req.password = .ok l.passwordHash) (fun _ _ => True) s := by
  simp only [createShare, wp_bind, wp_get, wp_ensure, wp_ofExcept, wp_set, wp_pure, imp_true_iff,
    and_true]
  intro _ hash hhash _ hfresh
  rw [Bool.and_eq_true, List.all_eq_true] at hfresh
  refine ⟨trivial, fun l' hl' hid => ?_, hhash⟩
  have hl := hfresh.2 l' hl'
  rw [Bool.and_eq_true, decide_eq_true_eq] at hl
  exact hl.1 hid

/-- What `updateShare` puts is a link with the hash of the request's password, or with the old. -/
theorem updateShare_spec {c : ShareCall} {user id : Uuid} {req : UpdateShareRequest} :
    wp (updateShare x c user id req)
      (fun l s' => ∃ old ∈ s.links, old.id = l.id ∧
        s'.links = s.links.map (fun l' => if l'.id = l.id then l else l') ∧
        ∃ hash, hashSharePassword x c.salt req.password = .ok hash ∧
          l.passwordHash = (hash <|> old.passwordHash)) (fun _ _ => True) s := by
  simp only [updateShare, wp_bind, wp_get, wp_okOr, wp_ensure, wp_ofExcept, wp_set, wp_pure,
    imp_true_iff, and_true]
  intro old hold hash hhash _ _
  have hid : old.id = id := by
    have h := List.find?_some hold
    simp only [Bool.and_eq_true, decide_eq_true_eq] at h
    exact h.1
  subst hid
  exact ⟨old, List.mem_of_find?_eq_some hold, rfl, rfl, hash, hhash, rfl⟩

/-- **Each link has the hash of its password**, wherever the owners' requests lead. -/
theorem Reaches.createdWith (h : Reaches x s given) : CreatedWith x given s := by
  induction h with
  | start w given => exact fun l hl => absurd hl List.not_mem_nil
  | create c user req l _ heq ih =>
    obtain ⟨hlinks, hfresh, hhash⟩ := createShare_spec.of_eq heq
    intro l' hl'
    rw [hlinks, List.mem_append, List.mem_singleton] at hl'
    rcases hl' with hl' | rfl
    · rw [Function.update_of_ne (hfresh l' hl')]
      exact ih l' hl'
    · exact ⟨c.salt, by rw [Function.update_self]; exact hhash⟩
  | update c user id req l _ heq ih =>
    obtain ⟨old, hold, hid, hlinks, hash, hhash, hl⟩ := updateShare_spec.of_eq heq
    intro l' hl'
    rw [hlinks] at hl'
    obtain ⟨l₀, hl₀, rfl⟩ := List.mem_map.mp hl'
    by_cases hsame : l₀.id = l.id
    · rw [if_pos hsame, Function.update_self]
      cases hpassword : req.password with
      | none =>
        rw [hpassword, hashSharePassword_none] at hhash
        obtain ⟨salt, hsalt⟩ := ih old hold
        exact ⟨salt, by rw [hl, hhash, ← hid]; exact hsalt⟩
      | some p =>
        rw [hpassword] at hhash
        obtain ⟨_, _, rfl⟩ := hashSharePassword_some.mp hhash
        exact ⟨c.salt, by rw [hl]; exact hhash⟩
    · rw [if_neg hsame, Function.update_of_ne hsame]
      exact ih l₀ hl₀
  | others _ hsame ih =>
    intro l' hl'
    obtain ⟨l, hl, hid, hhash⟩ := hsame l' hl'
    rw [hid, hhash]
    exact ih l hl

end Passwords

/-! ## Access -/

/-- The request supplies the password, if there is one. -/
def Supplies (given password : Option String) : Prop := ∀ p, given = some p → password = some p

/-- The link is the request's and lets it through: it is there, active, not expired, has one of these
permissions, and the request supplies its password. -/
structure Lets (given : Uuid → Option String) (s : Shared) (now : ℤ) (r : ShareRequest)
    (granting : List String) (share : ShareLink) : Prop where
  found : s.active r.token granting = some share
  mem : share ∈ s.links
  token : share.token = r.token
  active : share.isActive = true
  unexpired : share.expired now = false
  grants : share.permission ∈ granting
  password : Supplies (given share.id) r.password

/-- The error is about the password. -/
def ShareError.isPassword : ShareError → Bool
  | .unauthorized _ => true
  | _ => false

/-- The permissions that an upload asks for. -/
def uploading : List String := ["upload", "view_upload"]

/-- The error does not turn away who supplies the link's password. -/
def NotRefused (given : Uuid → Option String) (s : Shared) (r : ShareRequest)
    (granting : List String) (e : ShareError) : Prop :=
  e.isPassword = true → ∀ share, s.active r.token granting = some share →
    ∀ p, given share.id = some p → r.password ≠ some p

/-- A download discloses the file only to whom the link lets through, and does not turn away who
supplies its password; an upload likewise. -/
structure Controlled (env : Env) (x : Crates) (given : Uuid → Option String) (c : Call)
    (r : ShareRequest) (fields : List Field) (s : Shared) : Prop where
  download : wp (downloadShared x c.now r) (fun _ _ => ∃ share, Lets given s c.now r ["download"] share)
    (fun e _ => NotRefused given s r ["download"] e) s
  upload : wp (uploadShared env c r fields) (fun _ _ => ∃ share, Lets given s c.now r uploading share)
    (fun e _ => NotRefused given s r uploading e) s

/-- An upload is stored through the link: it is there, active, not expired and for uploads, its
file is there, the body has a file, and the owner can upload it. -/
structure Stores (env : Env) (c : Call) (r : ShareRequest) (fields : List Field) (s : Shared)
    (share : ShareLink) : Prop where
  found : s.active r.token uploading = some share
  unexpired : share.expired c.now = false
  uploads : ∃ target field, s.world.entries.find? share.fileEntryId = some target ∧
    fields.find? (fun f => f.name = some "file") = some field ∧
    ¬ wp (uploadFile env { c with user := share.userId } (destination target)
      (field.fileName.getD "unnamed_upload") (field.contentType.getD "application/octet-stream")
      field.data) (fun _ _ => False) (fun _ _ => True) s.world

section Access

variable {env : Env} {x : Crates} {given : Uuid → Option String} {c : Call} {r : ShareRequest}
  {fields : List Field} {s : Shared} {share : ShareLink} {granting : List String}

theorem lets_of_active (h : s.active r.token granting = some share)
    (hexpired : share.expired c.now = false) (hpassword : Supplies (given share.id) r.password) :
    Lets given s c.now r granting share := by
  have hfound := List.find?_some h
  simp only [Bool.and_eq_true, decide_eq_true_eq] at hfound
  exact ⟨h, List.mem_of_find?_eq_some h, hfound.1.1, hfound.1.2, hexpired, hfound.2, hpassword⟩

/-- The password's check lets through exactly who supplies it. -/
theorem checkPassword_ok_iff (hcreated : ∃ salt, hashSharePassword x salt (given share.id) =
      .ok share.passwordHash) (hdist : Distinguishes x r.password) :
    checkPassword x share r.password = .ok () ↔ Supplies (given share.id) r.password := by
  obtain ⟨salt, hsalt⟩ := hcreated
  cases hgiven : given share.id with
  | none =>
    rw [hgiven, hashSharePassword_none] at hsalt
    simp [checkPassword, hsalt, Supplies]
  | some p =>
    rw [hgiven] at hsalt
    obtain ⟨hash, hhash, hsome⟩ := hashSharePassword_some.mp hsalt
    cases hpass : r.password with
    | none => simp [checkPassword, hsome, Supplies]
    | some pass =>
      simp only [checkPassword, hsome, Supplies, Option.some.injEq, forall_eq']
      constructor
      · intro h
        refine (hdist pass hpass salt p hash hhash ?_).symm
        split at h <;> first | assumption | cases h
      · rintro rfl
        rw [x.verify_hash salt pass hash hhash]

/-- What a download checks of the link that it finds. -/
theorem checkDownload_spec (hcreated : CreatedWith x given s) (hdist : Distinguishes x r.password) :
    (∀ share, checkDownload x c.now r s = .ok share → Lets given s c.now r ["download"] share) ∧
      ∀ e, checkDownload x c.now r s = .error e → NotRefused given s r ["download"] e := by
  unfold checkDownload
  cases hactive : s.active r.token ["download"] with
  | none => exact ⟨fun share h => (by cases h), fun e h => by cases h; exact fun hp => by cases hp⟩
  | some share =>
    have hiff := checkPassword_ok_iff (hcreated share (List.mem_of_find?_eq_some hactive)) hdist
    simp only
    split
    · exact ⟨fun share h => (by cases h), fun e h => by cases h; exact fun hp => by cases hp⟩
    · split
      · exact ⟨fun share h => (by cases h), fun e h => by cases h; exact fun hp => by cases hp⟩
      · rename_i hexpired _
        cases hcheck : checkPassword x share r.password with
        | ok _ =>
          refine ⟨fun share' h => ?_, fun e h => by cases h⟩
          cases h
          exact lets_of_active hactive (by simpa using hexpired) (hiff.mp hcheck)
        | error e =>
          refine ⟨fun share' h => (by cases h), fun e' _ _ share' hshare' p hp hpassword => ?_⟩
          obtain rfl := Option.some.inj (hactive.symm.trans hshare')
          have hok := hiff.mpr fun p' hp' => by rw [hpassword, ← hp, hp']
          rw [hcheck] at hok
          cases hok

theorem sharedFile_error {e : ShareError} (h : sharedFile share s = .error e) :
    e.isPassword = false := by
  unfold sharedFile at h
  split at h
  · cases h; rfl
  · split at h <;> cases h
    rfl

theorem readShared_error {path : String} {e : ShareError} (h : readShared path s = .error e) :
    e.isPassword = false := by
  unfold readShared at h
  split at h <;> cases h
  rfl

theorem notRefused_of_not_isPassword {e : ShareError} (h : e.isPassword = false) :
    NotRefused given s r granting e := fun hp => by
  rw [h] at hp
  cases hp

/-- **A download is controlled.** -/
theorem download_controlled (hcreated : CreatedWith x given s) (hdist : Distinguishes x r.password) :
    wp (downloadShared x c.now r) (fun _ _ => ∃ share, Lets given s c.now r ["download"] share)
      (fun e _ => NotRefused given s r ["download"] e) s := by
  obtain ⟨hok, herror⟩ := checkDownload_spec (c := c) hcreated hdist
  simp only [downloadShared, wp_bind, wp_get, wp_ofExcept, wp_modify, wp_pure]
  refine ⟨fun share hshare => ⟨fun f hf => ⟨fun data _ => ⟨share, hok share hshare⟩, ?_⟩, ?_⟩, herror⟩
  · exact fun e he => notRefused_of_not_isPassword (readShared_error he)
  · exact fun e he => notRefused_of_not_isPassword (sharedFile_error he)

/-- What does not depend on the answer holds if there is one. -/
theorem wp_const {α ε σ : Type} {h : EStateM ε σ α} {P : Prop} {w : σ} :
    wp h (fun _ _ => P) (fun _ _ => True) w ↔
      (¬ wp h (fun _ _ => False) (fun _ _ => True) w → P) := by
  unfold wp
  cases h w <;> simp

/-- **An upload is stored through the links that `Stores` tells**, and turned away for nothing about
a password. -/
theorem wp_uploadShared {P : Prop} :
    wp (uploadShared env c r fields) (fun _ _ => P) (fun e _ => NotRefused given s r uploading e) s ↔
      ∀ share, Stores env c r fields s share → P := by
  simp only [uploadShared, wp_bind, wp_get, wp_okOr, wp_ensure, wp_inWorld, NotRefused,
    ShareError.isPassword, Bool.false_eq_true, false_imp_iff, imp_true_iff, and_true,
    Bool.not_eq_true']
  constructor
  · rintro h share ⟨hfound, hunexpired, target, field, htarget, hfield, huploads⟩
    exact wp_const.mp (h share hfound hunexpired target htarget field hfield) huploads
  · intro h share hfound hunexpired target htarget field hfield
    exact wp_const.mpr fun huploads =>
      h share ⟨hfound, hunexpired, target, field, htarget, hfield, huploads⟩

/-- **When a link of the backend is controlled**: if the uploads that are stored through it supply its
password. -/
theorem controlled_iff (hreach : Reaches x s given) (hdist : Distinguishes x r.password) :
    Controlled env x given c r fields s ↔
      ∀ share, Stores env c r fields s share → Supplies (given share.id) r.password := by
  constructor
  · intro h share hstores
    obtain ⟨share', hlets⟩ := wp_uploadShared.mp h.upload share hstores
    obtain rfl := Option.some.inj (hlets.found.symm.trans hstores.found)
    exact hlets.password
  · intro h
    refine ⟨download_controlled hreach.createdWith hdist, wp_uploadShared.mpr fun share hstores => ?_⟩
    exact ⟨share, lets_of_active hstores.found hstores.unexpired (h share hstores)⟩

end Access

end Pcos.Shares
