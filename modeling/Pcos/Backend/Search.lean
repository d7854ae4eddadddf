import Mathlib.Data.List.Sort
import Pcos.Backend.Change

/-!
# Backend/Search — whose entries a search finds (`search/src`)

The index is fed by requests of its own and never told what becomes of an entry.  A search splices
its text into `user_id:… AND (…)`; when the parser refuses that, it drops the user's part, and when
it refuses the text alone, it asks for every document there is.

    reindex, extract_text ──▸ in flight ──▸ writer ──▸ committed ──▸ loaded by the reader

Documents keep their owner all the way.  So a search answers with the caller's own live entries as
long as the parser reads the spliced text as what it says, and nothing of the caller's that is loaded
has been trashed or deleted since.
-/

namespace Pcos.Search

open Foundations

/-! ## The index -/

structure Document where
  id : String
  userId : String
  name : String
  content : String
  mimeType : String
  entryType : String
  deriving DecidableEq

/-- A parsed query, as far as the code relies on it: a term in `user_id`, `AND`, `OR`, `AllQuery`,
and anything else. -/
inductive Query
  | user (text : String)
  | and (a b : Query)
  | or (a b : Query)
  | all
  | other (holds : Document → Bool)

def Query.holds : Query → Document → Bool
  | .user text, d => d.userId = text
  | .and a b, d => a.holds d && b.holds d
  | .or a b, d => a.holds d || b.holds d
  | .all, _ => true
  | .other holds, d => holds d

/-- Tantivy: the parser, which refuses malformed text, and the best documents for a query. -/
structure Tantivy where
  parseQuery : String → Option Query
  topDocs : Query → ℕ → List Document → Option (List Document)
  mem_topDocs : ∀ query limit docs hits, topDocs query limit docs = some hits →
    ∀ d ∈ hits, d ∈ docs ∧ query.holds d = true

/-- `user_id:{} AND ({})` -/
def fullQuery (user : Uuid) (queryStr : String) : String :=
  "user_id:" ++ user.text ++ " AND (" ++ queryStr ++ ")"

/-- The query that is run: the spliced one, the text alone, or all. -/
def parsedQuery (t : Tantivy) (user : Uuid) (queryStr : String) : Query :=
  match t.parseQuery (fullQuery user queryStr) with
  | some query => query
  | none => (t.parseQuery queryStr).getD .all

/-- `SearchIndex::search`, on the documents the reader has loaded. -/
def searchIndex (t : Tantivy) (docs : List Document) (user : Uuid) (queryStr : String) (limit : ℕ) :
    Option (List Document) :=
  t.topDocs (parsedQuery t user queryStr) limit docs

/-! ## `GET /api/v1/search` -/

inductive Engine
  | tantivy
  | database
  deriving DecidableEq

/-- A result, without its score or size. -/
structure SearchResult where
  id : String
  name : String
  mimeType : Option String
  entryType : String
  source : Engine
  deriving DecidableEq

/-- `entry_type` as text. -/
def entryTypeText : EntryType → String
  | .file => "file"
  | .folder => "folder"

def ofDocument (d : Document) : SearchResult := ⟨d.id, d.name, some d.mimeType, d.entryType, .tantivy⟩

def ofRow (r : FileEntry) : SearchResult :=
  ⟨r.id.text, r.name, r.mimeType, entryTypeText r.entryType, .database⟩

/-- `… WHERE user_id = $1 AND is_trashed = false AND name ILIKE $2 ORDER BY updated_at DESC LIMIT $3`;
a limit that is negative as an `i64` is refused. -/
def databaseSearch (ilike : String → String → Bool) (w : World) (user : Uuid) (q : String)
    (limit : ℕ) : Option (List SearchResult) :=
  if 2 ^ 63 ≤ limit then none
  else
    let rows := w.entries.rows.filter fun r =>
      r.userId = user && !r.isTrashed && ilike ("%" ++ q ++ "%") r.name
    some (((rows.mergeSort fun a b => b.updatedAt ≤ a.updatedAt).take limit).map ofRow)

/-- The database, what requests have read to be indexed, what the writer has not committed, the last
commit, and what the reader has loaded of the commits. -/
structure Searched where
  world : World
  flight : List Document
  pending : List Document
  committed : List Document
  loaded : List Document

/-- The answer of a search, from the index if there is one and it does not fail. -/
def search (t : Tantivy) (ilike : String → String → Bool) (hasIndex : Bool) (s : Searched)
    (user : Uuid) (q : String) (limit : Option ℕ) : Option (List SearchResult) :=
  match if hasIndex then searchIndex t s.loaded user q (limit.getD 50) else none with
  | some docs => some (docs.map ofDocument)
  | none => databaseSearch ilike s.world user q (limit.getD 50)

/-! ## Indexing -/

/-- The document of a row. -/
def document (user : Uuid) (content : String) (r : FileEntry) : Document where
  id := r.id.text
  userId := user.text
  name := r.name
  content := content
  mimeType := r.mimeType.getD ""
  entryType := entryTypeText r.entryType

inductive SearchEvent
  /-- `reindex` reads the rows of a user that are not trashed. -/
  | reindex (user : Uuid)
  /-- `extract_text` reads a row and the text of its file. -/
  | extractText (user fileId : Uuid) (text : String)
  /-- `index_document` of one of these, which commits or fails to. -/
  | indexDocument (d : Document) (commits : Bool)
  /-- The reader loads the last commit. -/
  | reload
  /-- A file operation of any user. -/
  | file (e : Event)

/-- Delete what has the id, and add. -/
def upsert (docs : List Document) (d : Document) : List Document :=
  (docs.filter fun d' => d'.id ≠ d.id) ++ [d]

def searchStep (env : Env) (s : Searched) : SearchEvent → Searched
  | .reindex user =>
    let rows := s.world.entries.rows.filter fun r => r.userId = user && !r.isTrashed
    { s with flight := s.flight ++ rows.map (document user "") }
  | .extractText user fileId text =>
    match s.world.entries.rows.find? fun r => r.id = fileId && r.userId = user && !r.isTrashed with
    | none => s
    | some r =>
      if r.storagePath.isNone then s
      else
        let d := { document user text r with
          mimeType := r.mimeType.getD "application/octet-stream", entryType := "file" }
        { s with flight := s.flight ++ [d] }
  | .indexDocument d commits =>
    if d ∉ s.flight then s
    else if commits then
      { s with
        flight := s.flight.erase d
        pending := []
        committed := (s.pending ++ [d]).foldl upsert s.committed }
    else { s with flight := s.flight.erase d, pending := s.pending ++ [d] }
  | .reload => { s with loaded := s.committed }
  | .file e => { s with world := step env s.world e }

/-- Nothing stored and nothing indexed. -/
def Searched.empty (users : Uuid → Option ℤ) : Searched :=
  ⟨.empty migratedColumns users, [], [], [], []⟩

/-! ## Documents keep their owner -/

/-- All documents there are, indexed or on the way. -/
def Searched.documents (s : Searched) : List Document :=
  s.flight ++ s.pending ++ s.committed ++ s.loaded

/-- An entry with the id of a document is of the document's user. -/
def Owned (s : Searched) : Prop :=
  ∀ d ∈ s.documents, ∀ r ∈ s.world.entries.rows, r.id.text = d.id → r.userId.text = d.userId

/-- **What `Uuid::new_v4` promises**: the id of a new entry is no row's and no document's. -/
def NewEntryId (s : Searched) : SearchEvent → Prop
  | .file e => Fresh s.world e ∧ ∀ d ∈ s.documents, d.id ≠ e.call.newId.text
  | _ => True

section Steps

variable {env : Env} {s : Searched} {d : Document} {docs docs' : List Document}

theorem mem_upsert {d' : Document} (h : d' ∈ upsert docs d) : d' ∈ docs ∨ d' = d := by
  rw [upsert, List.mem_append, List.mem_singleton] at h
  exact h.imp_left fun hd => (List.mem_filter.mp hd).1

/-- A commit has documents of before, and those that were pending. -/
theorem mem_foldl_upsert (h : d ∈ docs'.foldl upsert docs) : d ∈ docs ∨ d ∈ docs' := by
  induction docs' generalizing docs with
  | nil => exact Or.inl h
  | cons e rest ih =>
    rcases ih h with hd | hd
    · rcases mem_upsert hd with hd | rfl
      · exact Or.inl hd
      · exact Or.inr List.mem_cons_self
    · exact Or.inr (List.mem_cons_of_mem e hd)

/-- A step of the table keeps ids and owners, but for the row it adds. -/
theorem mem_rows_change {w : World} {e : Event} {t : FileTable} (h : RowChange env w e t)
    {r : FileEntry} (hr : r ∈ t.rows) :
    (∃ r' ∈ w.entries.rows, r'.id = r.id ∧ r'.userId = r.userId) ∨ r.id = e.call.newId := by
  have hupdate : ∀ {p : FileEntry → Bool} {f : FileEntry → FileEntry}, w.entries.update p f = some t →
      (∀ r, (f r).id = r.id) → (∀ r, (f r).userId = r.userId) →
      ∃ r' ∈ w.entries.rows, r'.id = r.id ∧ r'.userId = r.userId := fun {p} {f} ht hid huser => by
    obtain ⟨r', hr', rfl⟩ := (FileTable.mem_update ht).mp hr
    refine ⟨r', hr', ?_⟩
    split
    · exact ⟨(hid r').symm, (huser r').symm⟩
    · exact ⟨rfl, rfl⟩
  cases h with
  | same => exact Or.inl ⟨r, hr, rfl, rfl⟩
  | insert hnew ht =>
    rcases (FileTable.mem_insert ht).mp hr with hr | rfl
    · exact Or.inl ⟨r, hr, rfl, rfl⟩
    · exact Or.inr hnew.spec.1
  | rewrite hf ht => exact Or.inl (hupdate ht hf.id hf.userId)
  | move hreq hown htarget hne ht => exact Or.inl (hupdate ht (fun _ => rfl) fun _ => rfl)
  | trash hp time ht => exact Or.inl (hupdate ht (fun _ => rfl) fun _ => rfl)
  | restore hreq hown hids ht => exact Or.inl (hupdate ht (fun _ => rfl) fun _ => rfl)
  | delete hp => exact Or.inl ⟨r, (FileTable.mem_delete.mp hr).1, rfl, rfl⟩

/-- No documents are added but of the rows they are made of. -/
theorem Owned.of_documents {s' : Searched} (h : Owned s) (hworld : s'.world = s.world)
    (hdocs : ∀ d ∈ s'.documents, d ∈ s.documents ∨
      ∃ r ∈ s.world.entries.rows, d.id = r.id.text ∧ d.userId = r.userId.text) : Owned s' := by
  intro d hd r hr hid
  rw [hworld] at hr
  rcases hdocs d hd with hd | ⟨r', hr', hid', huser⟩
  · exact h d hd r hr hid
  · rw [FileTable.eq_of_id hr hr' (Uuid.text_injective (hid.trans hid'))]
    exact huser.symm

/-- **Every step keeps the owners**, with new ids. -/
theorem Owned.step (h : Owned s) {e : SearchEvent} (hnew : NewEntryId s e) :
    Owned (searchStep env s e) := by
  cases e with
  | reindex user =>
    refine h.of_documents rfl fun d hd => ?_
    simp only [Searched.documents, searchStep, List.mem_append] at hd ⊢
    rcases hd with (((hd | hd) | hd) | hd) | hd
    · tauto
    · obtain ⟨r, hr, rfl⟩ := List.mem_map.mp hd
      obtain ⟨hmem, hrow⟩ := List.mem_filter.mp hr
      rw [Bool.and_eq_true, decide_eq_true_eq] at hrow
      exact Or.inr ⟨r, hmem, rfl, congrArg Uuid.text hrow.1.symm⟩
    all_goals tauto
  | extractText user fileId text =>
    rw [searchStep]
    cases hfind : s.world.entries.rows.find? fun r => r.id = fileId && r.userId = user &&
        !r.isTrashed with
    | none => exact h
    | some r =>
      dsimp only
      split
      · exact h
      · have hrow := List.find?_some hfind
        simp only [Bool.and_eq_true, decide_eq_true_eq] at hrow
        refine h.of_documents rfl fun d hd => ?_
        simp only [Searched.documents, List.mem_append, List.mem_singleton] at hd ⊢
        rcases hd with (((hd | hd) | hd) | hd) | hd
        · tauto
        · rw [hd]
          exact Or.inr ⟨r, List.mem_of_find?_eq_some hfind, rfl, congrArg Uuid.text hrow.1.2.symm⟩
        all_goals tauto
  | indexDocument d commits =>
    rw [searchStep]
    split
    · exact h
    · rename_i hflight
      have hmem : d ∈ s.flight := not_not.mp hflight
      have hflight' : ∀ d' ∈ s.flight.erase d, d' ∈ s.flight := fun d' hd' => List.mem_of_mem_erase hd'
      split
      · refine h.of_documents rfl fun d' hd' => Or.inl ?_
        simp only [Searched.documents, List.mem_append, List.not_mem_nil, or_false] at hd' ⊢
        rcases hd' with (hd' | hd') | hd'
        · exact Or.inl (Or.inl (Or.inl (hflight' d' hd')))
        · rcases mem_foldl_upsert hd' with hd' | hd'
          · tauto
          · rw [List.mem_append, List.mem_singleton] at hd'
            rcases hd' with hd' | rfl <;> tauto
        · tauto
      · refine h.of_documents rfl fun d' hd' => Or.inl ?_
        simp only [Searched.documents, List.mem_append, List.mem_singleton] at hd' ⊢
        rcases hd' with ((hd' | (hd' | rfl)) | hd') | hd'
        · exact Or.inl (Or.inl (Or.inl (hflight' d' hd')))
        all_goals tauto
  | reload =>
    refine h.of_documents rfl fun d hd => Or.inl ?_
    simp only [Searched.documents, searchStep, List.mem_append] at hd ⊢
    tauto
  | file e =>
    intro d hd r hr hid
    rcases mem_rows_change (step_change env s.world e).rows hr with ⟨r', hr', hid', huser⟩ | hrid
    · rw [← huser]
      exact h d hd r' hr' ((congrArg Uuid.text hid').trans hid)
    · exact absurd (hid.symm.trans (congrArg Uuid.text hrid)) (hnew.2 d hd)

theorem owned_empty (users : Uuid → Option ℤ) : Owned (.empty users) :=
  fun d hd => absurd hd List.not_mem_nil

end Steps

/-! ## Searches -/

/-- Every result names a live entry of the user. -/
def Isolated (s : Searched) (user : Uuid) (results : Option (List SearchResult)) : Prop :=
  ∀ found ∈ results, ∀ x ∈ found, ∃ r ∈ s.world.entries.rows,
    r.id.text = x.id ∧ r.userId = user ∧ r.isTrashed = false

/-- The parser reads the spliced text as the user's term and something else. -/
def Filtered (t : Tantivy) (user : Uuid) (q : String) : Prop :=
  ∃ query, t.parseQuery (fullQuery user q) = some (.and (.user user.text) query)

/-- The user's documents that are loaded are of entries that are there and not trashed. -/
def Current (s : Searched) (user : Uuid) : Prop :=
  ∀ d ∈ s.loaded, d.userId = user.text → ∃ r ∈ s.world.entries.rows,
    r.id.text = d.id ∧ r.isTrashed = false

section Searches

variable {t : Tantivy} {ilike : String → String → Bool} {s : Searched} {user : Uuid} {q : String}
  {limit : ℕ}

/-- **The database answers with the user's own live entries**, whatever the text is. -/
theorem isolated_databaseSearch : Isolated s user (databaseSearch ilike s.world user q limit) := by
  intro found hfound x hx
  unfold databaseSearch at hfound
  split at hfound
  · cases hfound
  · obtain rfl := Option.some.inj hfound
    obtain ⟨r, hr, rfl⟩ := List.mem_map.mp hx
    obtain ⟨hmem, hrow⟩ := List.mem_filter.mp (List.mem_mergeSort.mp (List.mem_of_mem_take hr))
    simp only [Bool.and_eq_true, decide_eq_true_eq, Bool.not_eq_true'] at hrow
    exact ⟨r, hmem, rfl, hrow.1.1, hrow.1.2⟩

/-- **The index answers with the user's own documents**, if the parser reads the text as spliced. -/
theorem userId_of_searchIndex (hf : Filtered t user q) {hits : List Document}
    (h : searchIndex t s.loaded user q limit = some hits) :
    ∀ d ∈ hits, d ∈ s.loaded ∧ d.userId = user.text := by
  obtain ⟨query, hquery⟩ := hf
  intro d hd
  rw [searchIndex, parsedQuery, hquery] at h
  obtain ⟨hmem, hholds⟩ := t.mem_topDocs _ _ _ _ h d hd
  rw [Query.holds, Bool.and_eq_true, Query.holds, decide_eq_true_eq] at hholds
  exact ⟨hmem, hholds.1⟩

/-- …and these are of entries of the user's own. -/
theorem isolated_search (howned : Owned s) {hasIndex : Bool} {limit : Option ℕ}
    (hok : hasIndex = true → Filtered t user q ∧ Current s user) :
    Isolated s user (search t ilike hasIndex s user q limit) := by
  unfold search
  cases hasIndex with
  | false => exact isolated_databaseSearch
  | true =>
    obtain ⟨hfiltered, hcurrent⟩ := hok rfl
    rw [if_pos rfl]
    cases hhits : searchIndex t s.loaded user q (limit.getD 50) with
    | none => exact isolated_databaseSearch
    | some hits =>
      intro found hfound x hx
      obtain rfl := Option.some.inj hfound
      obtain ⟨d, hd, rfl⟩ := List.mem_map.mp hx
      obtain ⟨hloaded, huser⟩ := userId_of_searchIndex hfiltered hhits d hd
      obtain ⟨r, hr, hid, hlive⟩ := hcurrent d hloaded huser
      have hdocument : d ∈ s.documents := List.mem_append_right _ hloaded
      exact ⟨r, hr, hid, Uuid.text_injective ((howned d hdocument r hr hid).trans huser), hlive⟩

end Searches

/-- **Searches are isolated**, wherever indexing and file operations have led, if the parser reads
the text as it is spliced and the user's loaded documents are current. -/
theorem isolated_of_run (env : Env) (t : Tantivy) (ilike : String → String → Bool)
    (users : Uuid → Option ℤ) (es : List SearchEvent)
    (hnew : Along NewEntryId (searchStep env) (.empty users) es) (hasIndex : Bool) (user : Uuid)
    (q : String) (limit : Option ℕ)
    (hok : hasIndex = true → Filtered t user q ∧
      Current (run (searchStep env) (.empty users) es) user) :
    Isolated (run (searchStep env) (.empty users) es) user
      (search t ilike hasIndex (run (searchStep env) (.empty users) es) user q limit) :=
  isolated_search
    (hnew.invariant (P := Owned) (fun _ _ hs he => hs.step he) (owned_empty users)) hok

instance (s : Searched) (e : SearchEvent) : Decidable (NewEntryId s e) := by
  cases e <;> (unfold NewEntryId; infer_instance)

instance (s : Searched) (user : Uuid) : Decidable (Current s user) :=
  inferInstanceAs (Decidable (∀ d ∈ s.loaded, d.userId = user.text →
    ∃ r ∈ s.world.entries.rows, r.id.text = d.id ∧ r.isTrashed = false))

namespace Sample

open Pcos.Sample

/-- The word is the name. -/
def word (text : String) : Query := .other fun d => d.name = text

/-- The parser on a word, on a text that closes the parenthesis, and on a lone quote, for Alice. -/
def parse (text : String) : Option Query :=
  if text = "plans" then some (word "plans")
  else if text = fullQuery alice "plans" then some (.and (.user alice.text) (word "plans"))
  else if text = fullQuery alice "x) OR (plans" then
    some (.or (.and (.user alice.text) (word "x")) (word "plans"))
  else none

/-- The first documents that match. -/
def engine : Tantivy where
  parseQuery := parse
  topDocs query limit docs := some ((docs.filter query.holds).take limit)
  mem_topDocs query limit docs hits h d hd := by
    obtain rfl := Option.some.inj h
    exact List.mem_filter.mp (List.mem_of_mem_take hd)

def contains (pattern name : String) : Bool := pattern = "%" ++ name ++ "%"

/-- The document of the folder of Bob's, and of Alice's. -/
def plansOf (user id : Uuid) : Document := ⟨id.text, user.text, "plans", "", "", "folder"⟩

/-- A folder of each is indexed. -/
def indexed : List SearchEvent :=
  [.file (sent alice 0 id1 (.createFolder none "plans")),
    .file (sent bob 1 id2 (.createFolder none "plans")), .reindex alice, .reindex bob,
    .indexDocument (plansOf alice id1) true, .indexDocument (plansOf bob id2) true, .reload]

def start : Searched := .empty users

end Sample

open Pcos.Sample Sample

theorem filtered_plans : Filtered engine alice "plans" := by
  refine ⟨word "plans", ?_⟩
  change parse (fullQuery alice "plans") = _
  rw [parse, if_neg (by decide), if_pos rfl]

theorem isolated_plans : Isolated (run (searchStep env) Sample.start indexed) alice
      (search engine contains true (run (searchStep env) Sample.start indexed) alice "plans" none) ∧
    ((search engine contains true (run (searchStep env) Sample.start indexed) alice "plans"
      none).map fun found => found.map SearchResult.id) = some [id1.text] :=
  ⟨isolated_of_run env engine contains Pcos.Sample.users indexed (by decide) true alice "plans" none
    fun _ => ⟨filtered_plans, by decide⟩, by decide⟩

/-- **A closed parenthesis and a lone quote both find Bob's folder, and a trashed folder of Alice's
own is found as before.** -/
theorem not_isolated_search :
    ¬ Isolated (run (searchStep env) Sample.start indexed) alice
        (search engine contains true (run (searchStep env) Sample.start indexed) alice
          "x) OR (plans" none) ∧
      ¬ Isolated (run (searchStep env) Sample.start indexed) alice
        (search engine contains true (run (searchStep env) Sample.start indexed) alice "\"" none) ∧
      ¬ Isolated (run (searchStep env) Sample.start
          (indexed ++ [.file (sent alice 2 id3 (.deleteItem id1))])) alice
        (search engine contains true (run (searchStep env) Sample.start
          (indexed ++ [.file (sent alice 2 id3 (.deleteItem id1))])) alice "plans" none) := by
  refine ⟨fun h => ?_, fun h => ?_, fun h => ?_⟩
  · exact absurd (h _ rfl (ofDocument (plansOf bob id2)) (by decide)) (by decide)
  · exact absurd (h _ rfl (ofDocument (plansOf bob id2)) (by decide)) (by decide)
  · exact absurd (h _ rfl (ofDocument (plansOf alice id1)) (by decide)) (by decide)

end Pcos.Search
