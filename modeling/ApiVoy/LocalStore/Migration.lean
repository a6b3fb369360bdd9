/-
# Databases of the older schema

A database that was created before the present version lacks columns. Opening it adds
them, each with its default and without the reference a new database declares: the parent
of a collection and the workspace of a project are plain texts there. The deletion of a
collection then leaves what is below it behind. Here every sequence of calls is followed
in both databases at once, and the one call that tells them apart is found.
-/

import ApiVoy.LocalStore.HistoryCover
import ApiVoy.LocalStore.SchemaBlind

namespace ApiVoy.LocalStore

open Foundation Domain

variable {hexSha256 : Bytes → String} {s s' : Store} {id : String}

/-! ## Rows without the later columns -/

structure OldWorkspaceRow where
  id : String
  name : String
  rootPath : Option String
  settings : Json
  createdAt : Timestamp
  updatedAt : Timestamp

structure OldProjectRow where
  id : String
  name : String
  createdAt : Timestamp

structure OldCollectionRow where
  id : String
  projectId : String
  name : String
  createdAt : Timestamp

structure OldRequestRow where
  id : String
  projectId : String
  collectionId : String
  name : String
  protocolId : String
  target : String
  envelope : Json
  updatedAt : Timestamp

structure OldExecutionRow where
  id : String
  requestId : Option String
  protocolId : String
  state : String
  status : Option UInt16
  durationMs : UInt64
  bytesReceived : UInt64
  startedAt : Timestamp
  finishedAt : Timestamp

instance : Keyed OldWorkspaceRow := ⟨OldWorkspaceRow.id⟩
instance : Keyed OldProjectRow := ⟨OldProjectRow.id⟩
instance : Keyed OldCollectionRow := ⟨OldCollectionRow.id⟩
instance : Keyed OldRequestRow := ⟨OldRequestRow.id⟩
instance : Keyed OldExecutionRow := ⟨OldExecutionRow.id⟩

/-- A database whose tables lack the columns that `migrate` adds. -/
structure OldDatabase where
  workspaces : Table OldWorkspaceRow
  projects : Table OldProjectRow
  modules : Table ModuleRow
  collections : Table OldCollectionRow
  requests : Table OldRequestRow
  executions : Table OldExecutionRow
  environments : Table EnvironmentRow
  scripts : Table ScriptRow
  apiDefinitions : Table ApiDefinitionRow
  bindings : Table BindingRow
  blobIndex : Table BlobRow
  files : Table BlobFile

/-! ## Migration -/

/-- `archived INTEGER NOT NULL DEFAULT 0`. -/
def OldWorkspaceRow.migrate (row : OldWorkspaceRow) : WorkspaceRow where
  id := row.id
  name := row.name
  rootPath := row.rootPath
  settings := row.settings
  createdAt := row.createdAt
  updatedAt := row.updatedAt
  archived := false

/-- `workspace_id TEXT`. -/
def OldProjectRow.migrate (row : OldProjectRow) : ProjectRow where
  id := row.id
  name := row.name
  createdAt := row.createdAt
  workspaceId := none

/-- `parent_id TEXT`, `sort_order INTEGER NOT NULL DEFAULT 0`,
`tags_json TEXT NOT NULL DEFAULT '[]'` and `module_id TEXT`. -/
def OldCollectionRow.migrate (row : OldCollectionRow) : CollectionRow where
  id := row.id
  projectId := row.projectId
  moduleId := none
  name := row.name
  createdAt := row.createdAt
  parentId := none
  sortOrder := 0
  tags := []

/-- `body_blob_id TEXT`. -/
def OldRequestRow.migrate (row : OldRequestRow) : RequestRow where
  id := row.id
  projectId := row.projectId
  collectionId := row.collectionId
  name := row.name
  protocolId := row.protocolId
  target := row.target
  envelope := row.envelope
  updatedAt := row.updatedAt
  bodyBlobId := none

/-- `request_snapshot_json TEXT`, `preview TEXT` and `response_blob_id TEXT`. -/
def OldExecutionRow.migrate (row : OldExecutionRow) : ExecutionRow where
  id := row.id
  requestId := row.requestId
  protocolId := row.protocolId
  state := row.state
  status := row.status
  durationMs := row.durationMs
  bytesReceived := row.bytesReceived
  startedAt := row.startedAt
  finishedAt := row.finishedAt
  requestSnapshot := none
  preview := none
  responseBlobId := none

/-- Columns that are added later declare no reference. -/
def Schema.migrated : Schema := ⟨false, false⟩

/-- Every missing column is added. -/
def migrate (db : OldDatabase) : Store where
  schema := Schema.migrated
  workspaces := db.workspaces.convert OldWorkspaceRow.migrate fun _ => rfl
  projects := db.projects.convert OldProjectRow.migrate fun _ => rfl
  modules := db.modules
  collections := db.collections.convert OldCollectionRow.migrate fun _ => rfl
  requests := db.requests.convert OldRequestRow.migrate fun _ => rfl
  executions := db.executions.convert OldExecutionRow.migrate fun _ => rfl
  environments := db.environments
  scripts := db.scripts
  apiDefinitions := db.apiDefinitions
  bindings := db.bindings
  blobIndex := db.blobIndex
  files := db.files

/-! ## Calls and their answers -/

/-- What a call returns. -/
inductive Answer where
  | done
  | workspace (row : WorkspaceRow)
  | project (row : ProjectRow)
  | module (row : ModuleRow)
  | collection (row : CollectionRow)
  | request (stored : StoredRequest)
  | blob (row : BlobRow)
  | foundWorkspace (row : Option WorkspaceRow)
  | foundEnvironment (row : Option EnvironmentRow)
  | foundRequest (stored : Option StoredRequest)
  | foundExecution (record : Option ExecutionRecord)
  | projects (rows : List ProjectRow)
  | requests (stored : List StoredRequest)
  | executions (records : List ExecutionRecord)

/-- A call of the store: an operation, or one that reads. -/
inductive Call where
  | change (op : Op)
  | getWorkspace (id : String)
  | listProjects (workspaceId : String)
  | getRequest (id : RequestId)
  | listRequests (collectionId : Option String)
  | getExecution (id : String)
  | listExecutions (limit : Nat) (filter : ExecutionFilter)
  | getEnvironment (id : String)

/-- Return what a program returns, as an answer. -/
def answering {α : Type} (answer : α → Answer) (m : StoreM α) : StoreM Answer := do
  let a ← m
  pure (answer a)

def Op.answer (hexSha256 : Bytes → String) : Op → StoreM Answer
  | .createWorkspace id now name rootPath =>
    answering .workspace (LocalStore.createWorkspace id now name rootPath)
  | .createProject id now workspaceId name =>
    answering .project (LocalStore.createProject id now workspaceId name)
  | .createModule id now projectId name =>
    answering .module (LocalStore.createModule id now projectId name)
  | .createCollectionInModule id now projectId requestedModuleId parentId name =>
    answering .collection (LocalStore.createCollectionInModule id now projectId
      requestedModuleId parentId name)
  | .saveRequest blobId now request projectId collectionId =>
    answering .request (LocalStore.saveRequest hexSha256 blobId now request projectId
      collectionId)
  | .putBlob blobId now data contentType =>
    answering .blob (LocalStore.putBlob hexSha256 blobId now data contentType)
  | op => answering (fun _ => .done) (op.program hexSha256)

def Call.program (hexSha256 : Bytes → String) : Call → StoreM Answer
  | .change op => op.answer hexSha256
  | .getWorkspace id => answering .foundWorkspace (LocalStore.getWorkspace id)
  | .listProjects workspaceId => answering .projects (LocalStore.listProjects workspaceId)
  | .getRequest id => answering .foundRequest (LocalStore.getRequest id)
  | .listRequests collectionId => answering .requests (LocalStore.listRequests collectionId)
  | .getExecution id => answering .foundExecution (LocalStore.getExecution id)
  | .listExecutions limit filter =>
    answering .executions (LocalStore.listExecutionsFiltered limit filter)
  | .getEnvironment id => answering .foundEnvironment (LocalStore.getEnvironment id)

theorem Op.discard_answer (hexSha256 : Bytes → String) (op : Op) :
    discard (op.answer hexSha256) = op.program hexSha256 := by
  have hdiscard {α : Type} (answer : α → Answer) (m : StoreM α) :
      discard (answering answer m) = discard m := by
    simp only [discard, answering, bind_assoc, pure_bind]
  have hunit (m : StoreM Unit) : discard m = m := bind_pure_unit
  cases op with
  | createWorkspace id now name rootPath => exact hdiscard _ _
  | createProject id now workspaceId name => exact hdiscard _ _
  | createModule id now projectId name => exact hdiscard _ _
  | createCollectionInModule id now projectId requestedModuleId parentId name =>
    exact hdiscard _ _
  | saveRequest blobId now request projectId collectionId => exact hdiscard _ _
  | putBlob blobId now data contentType => exact hdiscard _ _
  | _ => exact (hdiscard _ _).trans (hunit _)

/-- The answer changes nothing in what an operation does. -/
theorem Op.run_answer (hexSha256 : Bytes → String) (op : Op) (w : Scheduled Store) :
    ((op.answer hexSha256).run w).2 = ((op.program hexSha256).run w).2 := by
  rw [← op.discard_answer, discard, Fallible.run_bind]
  rcases (op.answer hexSha256).run w with ⟨_ | _, _⟩ <;> rfl

/-! ## Both databases at once -/

/-- A call that both databases answer alike: it does not delete a collection with children,
unless a failure stops it before. -/
def Call.SameUnderBoth (s : Store) (call : Call) (faults : List Bool) : Prop :=
  match call with
  | .change (.deleteCollection id) =>
    id = "default-collection" ∨ s.Childless id ∨ ¬ Spared faults 2
  | _ => True

variable {schema : Schema}

theorem schemaBlind_answering {α : Type} {P : Store → Prop} {m : StoreM α} (answer : α → Answer)
    (hm : SchemaBlind schema P m) : SchemaBlind schema P (answering answer m) :=
  SchemaBlind.bind hm fun _ => .pure _

theorem sameStatement_ite {c : Bool} {t t' : Store} {n : Nat} (h : t' = t.withSchema schema) :
    (if c then some (t', n) else none) =
      (if c then some (t, n) else none).map fun result => (result.1.withSchema schema, result.2) := by
  subst h
  split <;> rfl

/-- All operations but the deletion of a collection. -/
theorem schemaBlind_answer (schema : Schema) (hexSha256 : Bytes → String) {op : Op}
    (hop : ∀ id, op ≠ .deleteCollection id) :
    SchemaBlind schema Store.TreeWithin (op.answer hexSha256) := by
  have hunit {m : StoreM Unit} (hm : SchemaBlind schema Store.TreeWithin m) :
      SchemaBlind schema Store.TreeWithin (answering (fun _ => .done) m) :=
    schemaBlind_answering _ hm
  have hstatement {statement : Store → Option (Store × Nat)}
      (h : SameStatement schema Store.TreeWithin statement) :
      SchemaBlind schema Store.TreeWithin
        (do let _ ← execute statement; pure () : StoreM Unit) :=
    SchemaBlind.bind (.execute h) fun _ => .pure ()
  cases op with
  | saveWorkspace ws => exact hunit (hstatement fun _ _ => rfl)
  | createWorkspace id now name rootPath =>
    apply schemaBlind_answering
    simp only [createWorkspace]
    split
    · exact .fail _
    · exact .bind (hstatement fun _ _ => rfl) fun _ => .pure _
  | renameWorkspace id now name =>
    apply hunit
    simp only [Op.program, renameWorkspace]
    split
    · exact .fail _
    · exact .updateWorkspace _ _
  | touchWorkspace id now => exact hunit (.updateWorkspace _ _)
  | archiveWorkspace id now archived =>
    apply hunit
    simp only [Op.program, archiveWorkspace]
    split
    · exact .fail _
    · exact .updateWorkspace _ _
  | deleteWorkspace id => exact hunit (.deleteWorkspace id)
  | createProject id now workspaceId name =>
    exact schemaBlind_answering _ (.createProject _ _ _ _)
  | renameProject id name =>
    apply hunit
    simp only [Op.program, renameProject]
    split
    · exact .fail _
    · exact .bind (.execute fun _ _ => rfl) fun changed =>
        SchemaBlind.changedOrNotFound _ changed
  | deleteProject id => exact hunit (.deleteProject id)
  | createModule id now projectId name =>
    apply schemaBlind_answering
    simp only [createModule]
    split
    · exact .fail _
    · exact .bind (.insertModule _) fun _ => .pure _
  | createCollectionInModule id now projectId requestedModuleId parentId name =>
    exact schemaBlind_answering _ (.createCollectionInModule _ _ _ _ _ _)
  | updateCollection id name parentId sortOrder =>
    exact hunit (.updateCollection _ _ _ _)
  | updateCollectionTags id tags =>
    exact hunit (.bind (.execute fun _ _ => rfl) fun changed =>
      SchemaBlind.changedOrNotFound _ changed)
  | deleteCollection id => exact absurd rfl (hop id)
  | saveRequest blobId now request projectId collectionId =>
    exact schemaBlind_answering _ (.saveRequest _ _ _ _ _ _)
  | deleteRequest id => exact hunit (.deleteRequest id)
  | moveRequest id projectId collectionId now => exact hunit (.moveRequest _ _ _ _)
  | putBlob blobId now data contentType =>
    exact schemaBlind_answering _ (.putBlob _ _ _ _ _)
  | recordExecution bodyBlobNew previewBlobNew now record =>
    exact hunit (.recordExecution _ _ _ _ _)
  | recordWithResponse responseBlobNew data contentType bodyBlobNew previewBlobNew now record =>
    exact hunit (.recordWithResponse _ _ _ _ _ _ _ _)
  | saveEnvironment env => exact hunit (hstatement fun s _ => sameStatement_ite rfl)
  | deleteEnvironment id =>
    apply hunit
    simp only [Op.program, deleteEnvironment]
    split
    · exact .fail _
    · exact hstatement fun _ _ => rfl
  | saveScript item => exact hunit (hstatement fun s _ => sameStatement_ite rfl)
  | deleteScript id => exact hunit (hstatement fun _ _ => rfl)
  | saveApiDefinition definition => exact hunit (hstatement fun s _ => sameStatement_ite rfl)
  | deleteApiDefinition id =>
    exact hunit (.bind (.execute fun _ _ => rfl) fun changed =>
      SchemaBlind.changedOrNotFound _ changed)
  | bindRequestDefinition binding => exact hunit (hstatement fun s _ => sameStatement_ite rfl)
  | unbindRequestDefinition requestId => exact hunit (hstatement fun _ _ => rfl)

theorem run_execute_bind_of_struck {β : Type} {statement : Store → Option (Store × Nat)}
    {f : Nat → StoreM β} {w : Scheduled Store} (hstruck : w.faults.head? = some true) :
    (execute statement >>= f).run w = (.error (.sqlite .failed), ⟨w.state, w.faults.tail⟩) :=
  Fallible.run_bind_of_error (Fallible.run_attempt_of_struck hstruck)

variable {faults : List Bool}

/-- Stopped before its deletion, the deletion of a collection does nothing. -/
theorem run_deleteCollection_of_struck (schema : Schema) (hstruck : ¬ Spared faults 2) :
    (deleteCollection id).run ⟨s.withSchema schema, faults⟩ =
      (((deleteCollection id).run ⟨s, faults⟩).1,
        ((deleteCollection id).run ⟨s, faults⟩).2.map (Store.withSchema schema)) := by
  unfold deleteCollection
  split
  · rfl
  · have hblind : SchemaBlind schema (fun _ => True) (requestBlobIdsForCollectionSubtree id) :=
      SchemaBlind.requestBlobIds id
    have hids := hblind s faults trivial
    rcases hrun : (requestBlobIdsForCollectionSubtree id).run ⟨s, faults⟩ with ⟨e | ids, w⟩
    · rw [hrun] at hids
      rw [Fallible.run_bind_of_error hrun, Fallible.run_bind_of_error hids]
    · rw [hrun] at hids
      obtain ⟨hfirst, -, hrest⟩ := Fallible.run_attempt_eq_ok_iff.mp hrun
      have hsecond : w.faults.head? = some true := by
        rw [hrest]
        by_contra hne
        apply hstruck
        have hone : Spared (faults.drop 1) 1 := by
          rw [List.drop_one]
          exact spared_one.mpr hne
        exact spared_add.mpr ⟨spared_one.mpr hfirst, hone⟩
      have hmapped : (w.map (Store.withSchema schema)).faults.head? = some true := hsecond
      rw [Fallible.run_bind_of_ok hrun, Fallible.run_bind_of_ok hids,
        run_execute_bind_of_struck hsecond, run_execute_bind_of_struck hmapped]
      rfl

/-- A call that both databases answer alike is answered alike, and leaves the same rows. -/
theorem run_call (schema : Schema) (hexSha256 : Bytes → String) {call : Call}
    (hs : s.TreeWithin) (hcall : call.SameUnderBoth s faults) :
    (call.program hexSha256).run ⟨s.withSchema schema, faults⟩ =
      (((call.program hexSha256).run ⟨s, faults⟩).1,
        ((call.program hexSha256).run ⟨s, faults⟩).2.map (Store.withSchema schema)) := by
  have hread {α : Type} {answer : α → Answer} {m : StoreM α}
      (hm : SchemaBlind schema (fun _ => True) m) :
      (answering answer m).run ⟨s.withSchema schema, faults⟩ =
        (((answering answer m).run ⟨s, faults⟩).1,
          ((answering answer m).run ⟨s, faults⟩).2.map (Store.withSchema schema)) :=
    schemaBlind_answering answer hm s faults trivial
  cases call with
  | change op =>
    by_cases hop : ∃ id, op = .deleteCollection id
    · obtain ⟨id, rfl⟩ := hop
      have hdelete : (deleteCollection id).run ⟨s.withSchema schema, faults⟩ =
          (((deleteCollection id).run ⟨s, faults⟩).1,
            ((deleteCollection id).run ⟨s, faults⟩).2.map (Store.withSchema schema)) := by
        rcases hcall with hdefault | hchildless | hstruck
        · rw [deleteCollection, if_pos hdefault]
          rfl
        · exact SchemaBlind.deleteCollection id s faults ⟨hs.1, hchildless⟩
        · exact run_deleteCollection_of_struck schema hstruck
      show (answering (fun _ => Answer.done) (deleteCollection id)).run _ = _
      rw [answering, Fallible.run_bind, hdelete]
      show _ = (((answering (fun _ => Answer.done) (deleteCollection id)).run ⟨s, faults⟩).1,
        ((answering (fun _ => Answer.done) (deleteCollection id)).run ⟨s, faults⟩).2.map _)
      rw [answering, Fallible.run_bind]
      rcases (deleteCollection id).run ⟨s, faults⟩ with ⟨_ | _, _⟩ <;> rfl
    · exact schemaBlind_answer schema hexSha256 (fun id hid => hop ⟨id, hid⟩) s faults hs
  | getWorkspace id => exact hread (SchemaBlind.query fun _ => rfl)
  | listProjects workspaceId => exact hread (SchemaBlind.query fun _ => rfl)
  | getRequest id => exact hread (SchemaBlind.getRequest id)
  | listRequests collectionId => exact hread (SchemaBlind.listRequests collectionId)
  | getExecution id => exact hread (SchemaBlind.getExecution id)
  | listExecutions limit filter => exact hread (SchemaBlind.listExecutionsFiltered limit filter)
  | getEnvironment id => exact hread (SchemaBlind.query fun _ => rfl)

/-! ## What calls keep -/

/-- An invariant that operations keep is kept by calls. -/
theorem keeps_call {I : Store → Prop} (hexSha256 : Bytes → String) (call : Call)
    (hop : ∀ op, call = .change op → Keeps I (op.program hexSha256)) :
    Keeps I (call.program hexSha256) := by
  have hread {α : Type} {answer : α → Answer} {m : StoreM α} (hm : ReadOnly m) :
      Keeps I (answering answer m) :=
    Keeps.bind (.of_readOnly hm) fun _ => .pure _
  cases call with
  | change op =>
    intro w hw
    show I ((op.answer hexSha256).run w).2.state
    rw [op.run_answer]
    exact hop op rfl w hw
  | getWorkspace id => exact hread (.query _)
  | listProjects workspaceId => exact hread (.query _)
  | getRequest id => exact hread (.getRequest id)
  | listRequests collectionId => exact hread (.listRequests collectionId)
  | getExecution id => exact hread (.getExecution id)
  | listExecutions limit filter => exact hread (.listExecutionsFiltered limit filter)
  | getEnvironment id => exact hread (.query _)

/-! ## Opening an older database -/

/-- An older database, migrated and with its default rows. -/
def openOld (db : OldDatabase) (now : Timestamp) (faults : List Bool) : Store :=
  ((ensureDefaults now).run ⟨migrate db, faults⟩).2.state

/-- No collection has a parent yet, and no row refers to a blob. -/
structure Store.JustMigrated (db : OldDatabase) (s : Store) : Prop where
  schema : s.schema = Schema.migrated
  parents : ∀ c ∈ s.collections.rows, c.parentId = none
  requests : s.requests = (migrate db).requests
  executions : s.executions = (migrate db).executions
  blobIndex : s.blobIndex = db.blobIndex

theorem justMigrated_migrate (db : OldDatabase) : (migrate db).JustMigrated db where
  schema := rfl
  parents c hc := by
    obtain ⟨row, -, rfl⟩ := List.mem_map.mp hc
    rfl
  requests := rfl
  executions := rfl
  blobIndex := rfl

variable {db : OldDatabase}

theorem justMigrated_updateWhere (h : s.JustMigrated db) (p : CollectionRow → Bool)
    {f : CollectionRow → CollectionRow} {hf : ∀ c, (f c).id = c.id}
    (hparent : ∀ c, (f c).parentId = c.parentId) :
    Store.JustMigrated db { s with collections := s.collections.updateWhere p f hf } where
  schema := h.schema
  parents c hc := by
    simp only [Table.mem_updateWhere] at hc
    obtain ⟨old, hold, rfl⟩ := hc
    split
    · rw [hparent, h.parents old hold]
    · exact h.parents old hold
  requests := h.requests
  executions := h.executions
  blobIndex := h.blobIndex

theorem keeps_justMigrated (db : OldDatabase) (now : Timestamp) :
    Keeps (Store.JustMigrated db) (ensureDefaults now) := by
  have hother {statement : Store → Option (Store × Nat)}
      (h : ∀ s s' n, statement s = some (s', n) → s'.schema = s.schema ∧
        s'.collections = s.collections ∧ s'.requests = s.requests ∧
        s'.executions = s.executions ∧ s'.blobIndex = s.blobIndex) :
      Keeps (Store.JustMigrated db) (execute statement) := by
    apply Keeps.execute
    intro s s' n hs hresult
    obtain ⟨hschema, hcollections, hrequests, hexecutions, hindex⟩ := h s s' n hresult
    exact {
      schema := hschema.trans hs.schema
      parents := by rw [hcollections]; exact hs.parents
      requests := hrequests.trans hs.requests
      executions := hexecutions.trans hs.executions
      blobIndex := hindex.trans hs.blobIndex }
  have hmodules (projectId moduleId : String) :
      Keeps (Store.JustMigrated db) (execute (Sql.backfillModule projectId moduleId)) := by
    apply Keeps.execute_some (I := Store.JustMigrated db) (fun _ => rfl)
    exact fun s hs => justMigrated_updateWhere hs _ fun _ => rfl
  unfold ensureDefaults
  apply Keeps.bind
  · apply hother
    intro s s' n hresult
    unfold Sql.insertWorkspaceOrIgnore at hresult
    split at hresult <;> cases hresult <;> exact ⟨rfl, rfl, rfl, rfl, rfl⟩
  intro _
  apply Keeps.bind
  · apply hother
    intro s s' n hresult
    unfold Sql.insertProjectOrIgnore at hresult
    split at hresult
    · cases hresult
      exact ⟨rfl, rfl, rfl, rfl, rfl⟩
    · obtain ⟨projects, -, rfl, -⟩ := Sql.insertProject_eq_some hresult
      exact ⟨rfl, rfl, rfl, rfl, rfl⟩
  intro _
  apply Keeps.bind
  · apply Keeps.bind (.query _)
    intro projectIds
    apply Keeps.each
    intro projectId
    apply Keeps.bind
    · apply hother
      intro s s' n hresult
      unfold Sql.insertModuleOrIgnore at hresult
      split at hresult
      · cases hresult
        exact ⟨rfl, rfl, rfl, rfl, rfl⟩
      · obtain ⟨modules, -, rfl, -⟩ := Sql.insertModule_eq_some hresult
        exact ⟨rfl, rfl, rfl, rfl, rfl⟩
    · exact fun _ => .bind (hmodules _ _) fun _ => .pure ()
  intro _
  apply Keeps.bind
  · apply Keeps.ignore
    apply hother
    intro s s' n hresult
    unfold Sql.backfillWorkspace at hresult
    split at hresult <;> cases hresult
    exact ⟨rfl, rfl, rfl, rfl, rfl⟩
  intro _
  apply Keeps.bind
  · apply Keeps.execute
    intro s s' n hs hresult
    unfold Sql.insertCollectionOrIgnore at hresult
    split at hresult
    · cases hresult
      exact hs
    · obtain ⟨collections, hinsert, rfl, -⟩ := Sql.insertCollection_eq_some hresult
      exact {
        schema := hs.schema
        parents := by
          intro c hc
          rw [(Table.insert?_eq_some_iff.mp hinsert).2, List.mem_append, List.mem_singleton] at hc
          rcases hc with hold | rfl
          · exact hs.parents c hold
          · rfl
        requests := hs.requests
        executions := hs.executions
        blobIndex := hs.blobIndex }
  intro _
  apply Keeps.bind (.ignore (hmodules _ _))
  intro _
  apply Keeps.bind
  · apply hother
    intro s s' n hresult
    unfold Sql.insertEnvironmentOrIgnore at hresult
    split at hresult
    · cases hresult
      exact ⟨rfl, rfl, rfl, rfl, rfl⟩
    · unfold Sql.upsertEnvironment at hresult
      split at hresult <;> cases hresult
      exact ⟨rfl, rfl, rfl, rfl, rfl⟩
  · exact fun _ => .pure ()

theorem justMigrated_openOld (db : OldDatabase) (now : Timestamp) (faults : List Bool) :
    (openOld db now faults).JustMigrated db :=
  (keeps_justMigrated db now).state (justMigrated_migrate db) faults

/-- Without parents the collections are a tree within their projects. -/
theorem Store.JustMigrated.treeWithin (h : s.JustMigrated db) :
    (s.withSchema Schema.current).TreeWithin := by
  have hlink (a : String) : parentLink s.collections a = none := by
    cases hfind : s.collections.find? a with
    | none => rw [parentLink, hfind, Option.bind_none]
    | some c => rw [parentLink, hfind, Option.bind_some, h.parents c (Table.mem_of_find? hfind)]
  constructor
  · refine ⟨rfl, fun a => .root (hlink a), ?_⟩
    intro a p hp
    rw [show parentLink (s.withSchema Schema.current).collections a = none from hlink a] at hp
    cases hp
  · intro c hc p hp
    rw [h.parents c hc] at hp
    cases hp

/-- No row refers to a blob, so the counters are large enough. -/
theorem Store.JustMigrated.backs (h : s.JustMigrated db)
    (hcounts : ∀ b ∈ db.blobIndex.rows, 0 ≤ b.refCount) :
    (s.withSchema Schema.current).Backs [] [] := by
  have hrequests : s.requests.rows.flatMap RequestRow.references = [] := by
    rw [h.requests, List.flatMap_eq_nil_iff]
    intro row hrow
    obtain ⟨old, -, rfl⟩ := List.mem_map.mp hrow
    rfl
  have hexecutions : s.executions.rows.flatMap ExecutionRow.references = [] := by
    rw [h.executions, List.flatMap_eq_nil_iff]
    intro row hrow
    obtain ⟨old, -, rfl⟩ := List.mem_map.mp hrow
    rfl
  have hreferences : (s.withSchema Schema.current).references = [] := by
    show s.requests.rows.flatMap _ ++ s.executions.rows.flatMap _ = []
    rw [hrequests, hexecutions, List.append_nil]
  constructor
  · rw [hreferences]
    constructor
    · intro k
      show _ ≤ ((s.blobIndex.find? k).map BlobRow.refCount).getD 0
      rw [h.blobIndex]
      cases hblob : db.blobIndex.find? k with
      | none => exact Int.le_refl 0
      | some b => exact hcounts b (Table.mem_of_find? hblob)
    · intro k sha hk
      cases hk
  · intro k sha hk
    cases hk
  · intro row hrow json hjson
    rw [show (s.withSchema Schema.current).executions.rows = s.executions.rows from rfl,
      h.executions] at hrow
    obtain ⟨old, -, rfl⟩ := List.mem_map.mp hrow
    cases hjson

/-! ## Sequences of calls -/

/-- The calls that keep the references of all rows, as in the history of executions. -/
def Call.KeepsHistory : Call → Prop
  | .change op => op.KeepsHistory
  | _ => True

/-- Each call of a sequence is one that both databases answer alike. -/
abbrev SameUnderBoth (hexSha256 : Bytes → String) (calls : List (Call × List Bool)) (s : Store) :
    Prop :=
  Fallible.AllSteps (Call.program hexSha256) (fun s call faults => call.SameUnderBoth s faults)
    calls s

/-- Such calls leave every row with its blobs. -/
theorem backs_of_calls {calls : List (Call × List Bool)}
    (hhistory : ∀ step ∈ calls, step.1.KeepsHistory) (hbacks : s.Backs [] []) (htree : s.HasTree) :
    (Fallible.runAll (Call.program hexSha256) calls s).2.Backs [] [] := by
  have hsteps : Fallible.AllSteps (Call.program hexSha256)
      (fun _ call _ => call.KeepsHistory) calls s :=
    .of_forall fun step hstep _ => hhistory step hstep
  have hboth : (Fallible.runAll (Call.program hexSha256) calls s).2.Backs [] [] ∧
      (Fallible.runAll (Call.program hexSha256) calls s).2.HasTree := by
    apply hsteps.invariant (I := fun s => s.Backs [] [] ∧ s.HasTree) _ ⟨hbacks, htree⟩
    intro s call faults hs hcall
    have hkeeps : Keeps (fun s => s.Backs [] [] ∧ s.HasTree) (call.program hexSha256) := by
      apply keeps_call
      rintro op rfl w hw
      exact ⟨backs_program hexSha256 hcall hw.1 hw.2 w.faults, keeps_program hexSha256 op w hw.2⟩
    exact hkeeps.state hs faults
  exact hboth.1

/-- A database with nothing in it but its tables. -/
def OldDatabase.empty : OldDatabase := ⟨∅, ∅, ∅, ∅, ∅, ∅, ∅, ∅, ∅, ∅, ∅, ∅⟩

/-- A collection and one below it. -/
def createNested : List (Call × List Bool) := [
  (.change (.createCollectionInModule "c" "t" "default-project" none none "upper"), []),
  (.change (.createCollectionInModule "d" "t" "default-project" none (some "c") "lower"), [])]

/-- The two are deleted again, the lower one first. -/
def deleteBottomUp : List (Call × List Bool) :=
  createNested ++ [(.change (.deleteCollection "d"), []), (.change (.deleteCollection "c"), [])]

theorem sameUnderBoth_deleteBottomUp : SameUnderBoth latin1 deleteBottomUp
    ((openOld OldDatabase.empty "t" []).withSchema Schema.current) :=
  ⟨trivial, trivial, Or.inr (Or.inl (by decide +kernel)), Or.inr (Or.inl (by decide +kernel)),
    trivial⟩

end ApiVoy.LocalStore
