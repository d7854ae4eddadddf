import Pcos.Backend.DavNamespace

/-!
# Backend/S3Objects — what an S3 key holds (`s3_compat.rs`)

Every handler reduces a key to its last segment and looks for that name among the user's rows,
wherever they are.  So the keys `a/x` and `b/x` are one object, and so is any file called `x`.

Followed for one key: as long as no other key of the same last segment is written, no file of that
name appears, changes or goes by other means, and no `PUT` over the object is refused for its media
type after the file was written, the key holds what its last `PUT` put there.
-/

namespace Pcos

open Foundations

/-! ## Requests -/

/-- Status and body of a response. -/
structure S3Response where
  status : ℕ
  body : Bytes
  deriving DecidableEq

/-- `get_object`, without a `Range` header. -/
def getObjectResponse (w : World) (c : Call) (key : String) : S3Response :=
  match limitOne c.scan (liveFiles w c.user (lastSegment key.toList)) with
  | none => ⟨404, []⟩
  | some r =>
    match r.storagePath with
    | none => ⟨404, []⟩
    | some path =>
      match w.blobs path with
      | some data => ⟨200, data⟩
      | none => ⟨500, []⟩

inductive ObjectEvent
  | put (c : Call) (key : String) (contentType : Option String) (data : Bytes)
  | delete (c : Call) (key : String)
  /-- `get_object` and `head_object` write nothing. -/
  | get (c : Call) (key : String)
  | head (c : Call) (key : String)
  /-- Any other request, of any user. -/
  | outside (e : Event)

/-- The world, and what the user last put under the key and has not deleted. -/
structure ObjectRun where
  world : World
  object : Option Bytes

/-- Good ends change what the key should hold, if they are the user's and for the key. -/
def ObjectRun.settle {α : Type} (s : ObjectRun) (result : EStateM.Result Failure World α)
    (mine : Bool) (object : Option Bytes) : ObjectRun :=
  match result with
  | .ok _ w => ⟨w, if mine then object else s.object⟩
  | .error _ w => ⟨w, s.object⟩

/-- A request, seen from the key of a user. -/
def objectStep (env : Env) (user : Uuid) (key : String) (s : ObjectRun) : ObjectEvent → ObjectRun
  | .put c key' contentType data => s.settle (putObject env c key' contentType data s.world)
      (c.user = user && key' = key) (some data)
  | .delete c key' => s.settle (deleteObject c key' s.world) (c.user = user && key' = key) none
  | .get _ _ | .head _ _ => s
  | .outside e => { s with world := step env s.world e }

/-- The key is answered with what it should hold, and with 404 if that is nothing. -/
def Serves (user : Uuid) (key : String) (s : ObjectRun) : Prop :=
  ∀ c : Call, c.user = user → getObjectResponse s.world c key =
    match s.object with
    | some data => ⟨200, data⟩
    | none => ⟨404, []⟩

/-! ## Which requests leave the key alone -/

/-- The user's live files of this name, and their contents, stay as they are. -/
def LeavesName (w w' : World) (user : Uuid) (name : String) : Prop :=
  liveFiles w' user name = liveFiles w user name ∧
    ∀ r ∈ liveFiles w user name, contentOf w' r = contentOf w r

/-- A `PUT` of the key is not refused for its media type where it overwrites; other keys that are
written or deleted have another last segment, unless the request is refused for its size or there is
nothing to delete; and other requests leave the files of the name alone. -/
def Apart (env : Env) (user : Uuid) (key : String) (s : ObjectRun) : ObjectEvent → Prop
  | .put c key' contentType data => c.user = user → maxBody < data.length ∨
      if key' = key then liveFiles s.world user (lastSegment key.toList) = [] ∨
        mimeTooLong (putMime env contentType (entryName key)) = false
      else entryName key' ≠ lastSegment key.toList
  | .delete c key' => c.user = user → key' = key ∨ lastSegment key'.toList ≠ lastSegment key.toList ∨
      liveFiles s.world user (lastSegment key.toList) = []
  | .get _ _ | .head _ _ => True
  | .outside e => LeavesName s.world (step env s.world e) user (lastSegment key.toList)

/-- `Uuid::new_v4` promises that the id of a new object is no row's. -/
def FreshObject (s : ObjectRun) : ObjectEvent → Prop
  | .put c _ _ _ => ∀ r ∈ s.world.entries.rows, r.id ≠ c.newId
  | _ => True

/-- **What a key holds**: the one live file of its name, or none. -/
def HoldsObject (w : World) (user : Uuid) (name : String) : Option Bytes → Prop
  | some data => ∃ r, liveFiles w user name = [r] ∧ contentOf w r = some data
  | none => liveFiles w user name = []

section Holds

variable {w w' : World} {user : Uuid} {name key : String} {object : Option Bytes} {s : ObjectRun}

theorem HoldsObject.leaves (h : HoldsObject w user name object) (hl : LeavesName w w' user name) :
    HoldsObject w' user name object := by
  cases object with
  | none => exact hl.1.trans h
  | some data =>
    obtain ⟨r, hr, hdata⟩ := h
    refine ⟨r, hl.1.trans hr, ?_⟩
    rw [hl.2 r (by rw [hr]; exact List.mem_singleton_self r), hdata]

/-- The only row of a list is the one that is returned, wherever the scan starts. -/
theorem limitOne_singleton (scan : ℕ) (r : FileEntry) : limitOne scan [r] = some r := by
  cases scan with
  | zero => rfl
  | succ n => rw [limitOne, List.drop_succ_cons, List.drop_nil]; rfl

theorem HoldsObject.serves (h : HoldsObject s.world user (lastSegment key.toList) s.object) :
    Serves user key s := by
  rintro c rfl
  rw [getObjectResponse]
  cases hobject : s.object with
  | none =>
    rw [hobject] at h
    rw [show liveFiles s.world c.user (lastSegment key.toList) = [] from h]
    cases c.scan <;> rfl
  | some data =>
    rw [hobject] at h
    obtain ⟨r, hr, hdata⟩ := h
    have htype : r.entryType = .file :=
      (mem_liveFiles.mp (hr ▸ List.mem_singleton_self r)).2.2.2.2
    rw [contentOf, htype] at hdata
    obtain ⟨path, hpath, hblob⟩ := Option.bind_eq_some_iff.mp hdata
    rw [hr, limitOne_singleton]
    simp only [hpath, hblob]

end Holds

/-! ## What requests do to the files of a name -/

section Effects

variable {env : Env} {w : World} {c : Call} {user : Uuid} {name key : String}
  {contentType : Option String} {data : Bytes}

/-- Slashes in front do not change the last segment. -/
theorem lastSegment_dropWhile (cs : List Char) :
    lastSegment (cs.dropWhile (· = '/')) = lastSegment cs := by
  induction cs with
  | nil => rfl
  | cons d ds ih =>
    by_cases hd : d = '/'
    · subst hd
      have hsplit := List.splitOn_append_cons_self (a := '/') [] ds
      rw [List.nil_append, List.splitOn_nil] at hsplit
      rw [List.dropWhile_cons_of_pos (by simp), ih, lastSegment, lastSegment, hsplit,
        List.singleton_append]
      cases ds.splitOn '/' <;> rfl
    · rw [List.dropWhile_cons_of_neg (by simpa using hd)]

/-- A key whose last segment is not empty is written under the name it is read under. -/
theorem entryName_eq_lastSegment (h : lastSegment key.toList ≠ "") :
    entryName key = lastSegment key.toList := by
  rw [← lastSegment_dropWhile] at h ⊢
  rw [entryName, trimSlashes]
  generalize key.toList.dropWhile (· = '/') = cs at h ⊢
  rcases List.eq_nil_or_concat cs with rfl | ⟨ds, d, rfl⟩
  · rfl
  · rw [List.concat_eq_append] at h ⊢
    have hd : d ≠ '/' := by
      rintro rfl
      refine h ?_
      rw [lastSegment, List.splitOn_append_cons_self, List.splitOn_nil, List.getLastD_concat]
    rw [List.reverse_append, List.reverse_singleton, List.singleton_append,
      List.dropWhile_cons_of_neg (by simpa using hd), List.reverse_cons, List.reverse_reverse]

/-- What a `PUT` comes to. -/
theorem wp_putObject {Q : DavResponse → World → Prop} {E : World → Prop} :
    wp (putObject env c key contentType data) Q (fun _ => E) w ↔
      (maxBody < data.length → E w) ∧ (data.length ≤ maxBody →
        match limitOne c.scan (liveFiles w c.user (entryName key)) with
        | none =>
          let r := putRow env c none (entryName key) (putMime env contentType (entryName key)) data
          (∀ t, w.Accepts fileColumns r → w.entries.insert r = some t →
            Q ⟨200, some (env.sha256 data)⟩
              { w.putBlob (filePath c.user c.newId) data with entries := t }) ∧
          (¬ w.Accepts fileColumns r → E (w.putBlob (filePath c.user c.newId) data))
        | some r =>
          (∀ t, w.entries.update (fun r' => r'.id = r.id && r'.userId = c.user)
              (overwritten env c r.target (putMime env contentType (entryName key)) data) = some t →
            Q ⟨200, some (env.sha256 data)⟩ { w.putBlob r.target data with entries := t }) ∧
          (w.entries.update (fun r' => r'.id = r.id && r'.userId = c.user)
              (overwritten env c r.target (putMime env contentType (entryName key)) data) = none →
            E (w.putBlob r.target data))) := by
  simp only [putObject, wp_bind, wp_ensure, wp_get, decide_eq_true_eq, decide_eq_false_iff_not,
    Nat.not_le]
  rw [and_comm]
  refine and_congr_right' (imp_congr_right fun _ => ?_)
  cases limitOne c.scan (liveFiles w c.user (entryName key)) with
  | none => simp only [createEntry, wp_bind, wp_modify, wp_insertEntry, wp_pure]; rfl
  | some r => simp only [overwriteEntry, wp_bind, wp_modify, wp_updateEntries, wp_pure]; rfl

/-- A new row is the last of the files of its name. -/
theorem liveFiles_insert {w' : World} {x : FileEntry}
    (ht : w.entries.insert x = some w'.entries) : liveFiles w' user name =
      liveFiles w user name ++ if (x.userId = user && x.name = name && !x.isTrashed &&
        x.entryType = .file) = true then [x] else [] := by
  rw [liveFiles, FileTable.rows_of_insert ht, List.filter_append, List.filter_cons, List.filter_nil]
  rfl

/-- Overwriting keeps the names. -/
theorem liveFiles_overwrite {w' : World} {r : FileEntry} {mime : Option String}
    (ht : w.entries.update (fun r' => r'.id = r.id && r'.userId = c.user)
      (overwritten env c r.target mime data) = some w'.entries) :
    liveFiles w' user name = (liveFiles w user name).map fun r' =>
      if (r'.id = r.id && r'.userId = c.user) = true then
        overwritten env c r.target mime data r' else r' := by
  have h := rewrites_of_update w' ht
  rw [liveFiles, h.rows, List.filter_map, liveFiles]
  refine congrArg _ (List.filter_congr fun r' _ => ?_)
  simp only [Function.comp_def, h.userId, h.name, h.isTrashed, h.entryType]

/-- **A `PUT` of another user, or of a key with another last segment**, leaves the name alone. -/
theorem leavesName_put (hs : Shaped w) (hcol : .isFavorite ∉ w.columns)
    (hfresh : ∀ r ∈ w.entries.rows, r.id ≠ c.newId)
    (hother : c.user = user → maxBody < data.length ∨ entryName key ≠ name) :
    wp (putObject env c key contentType data) (fun _ w' => LeavesName w w' user name)
      (fun _ w' => LeavesName w w' user name) w := by
  have hsame : LeavesName w w user name := ⟨rfl, fun _ _ => rfl⟩
  have hnew : ∀ t : FileTable, ∀ r ∈ liveFiles w user name,
      contentOf { w.putBlob (filePath c.user c.newId) data with entries := t } r = contentOf w r :=
    fun t r hr => by
      have hmem := (mem_liveFiles.mp hr).1
      exact contentOf_congr fun path hpath =>
        if_neg (hs.ne_filePath hcol hmem (hfresh r hmem) path hpath)
  rw [wp_putObject]
  refine ⟨fun _ => hsame, fun hle => ?_⟩
  have hname : c.user = user → entryName key ≠ name := fun huser =>
    (hother huser).resolve_left (Nat.not_lt.mpr hle)
  cases hfound : limitOne c.scan (liveFiles w c.user (entryName key)) with
  | none =>
    refine ⟨fun t _ ht => ⟨?_, hnew t⟩, fun _ => ⟨rfl, hnew w.entries⟩⟩
    rw [liveFiles_insert ht, if_neg, List.append_nil]
    simp only [Bool.and_eq_true, decide_eq_true_eq]
    exact fun h => hname h.1.1.1 h.1.1.2
  | some r =>
    obtain ⟨hmem, huser, hrname, -⟩ := mem_liveFiles.mp (mem_of_limitOne hfound)
    have hne : ∀ r' ∈ liveFiles w user name, r'.id ≠ r.id := fun r' hr' hid => by
      obtain ⟨hmem', huser', hname', -⟩ := mem_liveFiles.mp hr'
      have heq := FileTable.eq_of_id hmem' hmem hid
      exact hname (huser.symm.trans (heq ▸ huser')) (hrname.symm.trans (heq ▸ hname'))
    have hold : ∀ t : FileTable, ∀ r' ∈ liveFiles w user name,
        contentOf { w.putBlob r.target data with entries := t } r' = contentOf w r' :=
      fun t r' hr' => contentOf_congr fun path hpath => if_neg fun heq => by
        refine hs.target_ne hcol (mem_liveFiles.mp hr').1 hmem (hne r' hr') ?_
        rw [← heq, FileEntry.target, hpath, Option.getD_some]
    refine ⟨fun t ht => ⟨?_, hold t⟩, fun _ => ⟨rfl, hold w.entries⟩⟩
    rw [liveFiles_overwrite ht]
    refine (List.map_congr_left fun r' hr' => ?_).trans (List.map_id _)
    exact if_neg (by simp [hne r' hr'])

/-- **A `PUT` of the key** that is answered makes it hold the content; one that is refused changes
nothing, unless it has overwritten the file by then. -/
theorem holdsObject_put {object : Option Bytes} (h : HoldsObject w c.user (entryName key) object)
    (hmime : maxBody < data.length ∨ liveFiles w c.user (entryName key) = [] ∨
      mimeTooLong (putMime env contentType (entryName key)) = false) :
    wp (putObject env c key contentType data)
      (fun _ w' => HoldsObject w' c.user (entryName key) (some data))
      (fun _ w' => HoldsObject w' c.user (entryName key) object) w := by
  rw [wp_putObject]
  cases object with
  | none =>
    have hnone : liveFiles w c.user (entryName key) = [] := h
    have hfound : limitOne c.scan (liveFiles w c.user (entryName key)) = none := by
      rw [hnone]
      cases c.scan <;> rfl
    rw [hfound]
    refine ⟨fun _ => h, fun _ => ⟨fun t _ ht => ?_, fun _ => h⟩⟩
    refine ⟨putRow env c none (entryName key) (putMime env contentType (entryName key)) data, ?_,
      contentOf_putBlob rfl rfl⟩
    rw [liveFiles_insert ht, hnone, if_pos (by simp [putRow, newFile])]
    rfl
  | some old =>
    obtain ⟨r, hr, hdata⟩ := h
    obtain ⟨hmem, huser, hname, hlive, htype⟩ := mem_liveFiles.mp (hr ▸ List.mem_singleton_self r)
    rw [hr, limitOne_singleton]
    refine ⟨fun _ => ⟨r, hr, hdata⟩, fun hle => ⟨fun t ht => ?_, fun hrefused => ?_⟩⟩
    · refine ⟨overwritten env c r.target (putMime env contentType (entryName key)) data r, ?_,
        contentOf_putBlob htype rfl⟩
      rw [liveFiles_overwrite ht, hr, List.map_singleton, if_pos (by simp [huser])]
    · have hlong := mimeTooLong_of_overwrite_eq_none hrefused
      rcases hmime with hlarge | hnone | hshort
      · exact absurd hle (Nat.not_le.mpr hlarge)
      · rw [hr] at hnone
        cases hnone
      · rw [hlong] at hshort
        cases hshort

/-- What a `DELETE` comes to. -/
theorem wp_deleteObject {Q : ℕ → World → Prop} {E : World → Prop} :
    wp (deleteObject c key) Q (fun _ => E) w ↔
      (∀ t, w.entries.update (objectRows c.user key)
          (fun r => { r with isTrashed := true, updatedAt := c.now }) = some t →
        Q 204 { w with entries := t }) ∧
      (w.entries.update (objectRows c.user key)
          (fun r => { r with isTrashed := true, updatedAt := c.now }) = none → E w) := by
  simp only [deleteObject, wp_bind, wp_updateEntries, wp_pure]

/-- The files of a name after a `DELETE`: those that it did not trash. -/
theorem liveFiles_delete {t : FileTable} (ht : w.entries.update (objectRows c.user key)
      (fun r => { r with isTrashed := true, updatedAt := c.now }) = some t) :
    liveFiles { w with entries := t } user name =
      (liveFiles w user name).filter fun r => !objectRows c.user key r := by
  rw [liveFiles, FileTable.rows_of_update ht, liveFiles, List.filter_filter]
  induction w.entries.rows with
  | nil => rfl
  | cons r rows ih =>
    rw [List.map_cons, List.filter_cons, List.filter_cons, ih]
    by_cases hrow : objectRows c.user key r = true
    · simp [hrow]
    · simp [hrow]

/-- **A `DELETE` of the key** that is answered leaves it holding nothing; refused, it changes
nothing. -/
theorem holdsObject_delete {object : Option Bytes}
    (h : HoldsObject w c.user (lastSegment key.toList) object) :
    wp (deleteObject c key) (fun _ w' => HoldsObject w' c.user (lastSegment key.toList) none)
      (fun _ w' => HoldsObject w' c.user (lastSegment key.toList) object) w := by
  rw [wp_deleteObject]
  refine ⟨fun t ht => ?_, fun _ => h⟩
  refine (liveFiles_delete ht).trans (List.filter_eq_nil_iff.mpr fun r hr => ?_)
  obtain ⟨-, huser, hname, hlive, -⟩ := mem_liveFiles.mp hr
  simp [objectRows, huser, hname, hlive]

/-- A `DELETE` of another user, of a key with another last segment, or with nothing to delete. -/
theorem leavesName_delete (hother : c.user = user → lastSegment key.toList ≠ name ∨
      liveFiles w user name = []) :
    wp (deleteObject c key) (fun _ w' => LeavesName w w' user name)
      (fun _ w' => LeavesName w w' user name) w := by
  rw [wp_deleteObject]
  refine ⟨fun t ht => ⟨?_, fun r _ => rfl⟩, fun _ => ⟨rfl, fun _ _ => rfl⟩⟩
  rw [liveFiles_delete ht]
  refine List.filter_eq_self.mpr fun r hr => ?_
  obtain ⟨-, huser, hname, -⟩ := mem_liveFiles.mp hr
  by_cases hsame : c.user = user
  · rcases hother hsame with hne | hnil
    · simp [objectRows, hname, Ne.symm hne]
    · rw [hnil] at hr
      exact absurd hr List.not_mem_nil
  · simp [objectRows, huser, Ne.symm hsame]

end Effects

/-! ## Runs -/

section Runs

variable {env : Env} {user : Uuid} {key : String} {s : ObjectRun}

theorem ObjectRun.settle_world {α : Type} (x : Handler α) (mine : Bool) (object : Option Bytes) :
    (s.settle (x s.world) mine object).world = leaves x s.world := by
  unfold ObjectRun.settle leaves
  cases x s.world <;> rfl

/-- What holds on either exit holds of the run after it. -/
theorem ObjectRun.settle_of_wp {α : Type} {x : Handler α} {mine : Bool} {object : Option Bytes}
    {P : World → Option Bytes → Prop}
    (h : wp x (fun _ w => P w (if mine then object else s.object)) (fun _ w => P w s.object) s.world) :
    P (s.settle (x s.world) mine object).world (s.settle (x s.world) mine object).object := by
  unfold wp at h
  unfold ObjectRun.settle
  cases hx : x s.world <;> simpa only [hx] using h

/-- The request that a step of the run is for the world. -/
theorem world_objectStep (env : Env) (user : Uuid) (key : String) (s : ObjectRun) (e : ObjectEvent) :
    (objectStep env user key s e).world = s.world ∨
      ∃ e', (objectStep env user key s e).world = step env s.world e' := by
  cases e with
  | put c key' contentType data =>
    exact Or.inr ⟨⟨c, .putObject key' contentType data⟩, ObjectRun.settle_world _ _ _⟩
  | delete c key' => exact Or.inr ⟨⟨c, .deleteObject key'⟩, ObjectRun.settle_world _ _ _⟩
  | get c key' => exact Or.inl rfl
  | head c key' => exact Or.inl rfl
  | outside e' => exact Or.inr ⟨e', rfl⟩

/-- Paths are the rows' own, on the migrated schema, and the key holds what it should. -/
structure ObjectInv (user : Uuid) (key : String) (s : ObjectRun) : Prop where
  shaped : Shaped s.world
  columns : .isFavorite ∉ s.world.columns
  holds : HoldsObject s.world user (lastSegment key.toList) s.object

/-- **A step that keeps apart from the key** keeps what it holds, and its own requests change it as
they should. -/
theorem ObjectInv.step (hkey : lastSegment key.toList ≠ "") {e : ObjectEvent}
    (h : ObjectInv user key s) (hfresh : FreshObject s e) (hok : Apart env user key s e) :
    ObjectInv user key (objectStep env user key s e) := by
  have hworld : Shaped (objectStep env user key s e).world ∧
      .isFavorite ∉ (objectStep env user key s e).world.columns := by
    rcases world_objectStep env user key s e with heq | ⟨e', heq⟩
    · rw [heq]
      exact ⟨h.shaped, h.columns⟩
    · rw [heq]
      have hc := step_change env s.world e'
      exact ⟨h.shaped.change hc, by rw [hc.columns]; exact h.columns⟩
  refine ⟨hworld.1, hworld.2, ?_⟩
  cases e with
  | put c key' contentType data =>
    refine ObjectRun.settle_of_wp (P := fun w o => HoldsObject w user (lastSegment key.toList) o) ?_
    by_cases hmine : c.user = user ∧ key' = key
    · obtain ⟨rfl, rfl⟩ := hmine
      rw [if_pos (by simp), ← entryName_eq_lastSegment hkey]
      refine holdsObject_put (by rw [entryName_eq_lastSegment hkey]; exact h.holds) ?_
      have hput := hok rfl
      rw [if_pos rfl, ← entryName_eq_lastSegment hkey] at hput
      exact hput
    · rw [if_neg (by simpa using hmine)]
      have hother : c.user = user → maxBody < data.length ∨
          entryName key' ≠ lastSegment key.toList := fun huser => by
        have hput := hok huser
        rwa [if_neg fun heq => hmine ⟨huser, heq⟩] at hput
      exact wp_mono (leavesName_put h.shaped h.columns hfresh hother)
        (fun _ _ hl => h.holds.leaves hl) (fun _ _ hl => h.holds.leaves hl)
  | delete c key' =>
    refine ObjectRun.settle_of_wp (P := fun w o => HoldsObject w user (lastSegment key.toList) o) ?_
    by_cases hmine : c.user = user ∧ key' = key
    · obtain ⟨rfl, rfl⟩ := hmine
      rw [if_pos (by simp)]
      exact holdsObject_delete h.holds
    · rw [if_neg (by simpa using hmine)]
      have hother : c.user = user → lastSegment key'.toList ≠ lastSegment key.toList ∨
          liveFiles s.world user (lastSegment key.toList) = [] := fun huser =>
        (hok huser).resolve_left fun heq => hmine ⟨huser, heq⟩
      exact wp_mono (leavesName_delete hother) (fun _ _ hl => h.holds.leaves hl)
        (fun _ _ hl => h.holds.leaves hl)
  | get c key' => exact h.holds
  | head c key' => exact h.holds
  | outside e' => exact h.holds.leaves hok

instance {w w' : World} {name : String} : Decidable (LeavesName w w' user name) :=
  inferInstanceAs (Decidable (_ ∧ _))

instance (e : ObjectEvent) : Decidable (Apart env user key s e) := by
  cases e <;> (unfold Apart; infer_instance)

instance (e : ObjectEvent) : Decidable (FreshObject s e) := by
  cases e <;> (unfold FreshObject; infer_instance)

end Runs

namespace Sample

def emptyRun : ObjectRun := ⟨start, none⟩

def atTime (now : ℤ) (newId : Uuid) : Call := ⟨alice, now, newId, tmp, 0⟩

/-- The object is put, deleted and put again, with another object in between. -/
def putAgain : List ObjectEvent :=
  [.put (atTime 0 id1) "a/x" none [0x61], .outside (sent alice 1 id2 (.createFolder none "docs")),
    .delete (atTime 2 id3) "a/x", .put (atTime 3 id3) "docs/y" none [0x62],
    .put (atTime 4 ⟨"00000000-0000-4000-8000-000000000004", by decide⟩) "a/x" none [0x62]]

end Sample

open Sample

end Pcos
