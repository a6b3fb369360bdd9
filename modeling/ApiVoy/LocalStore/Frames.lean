/-
# What the operations leave alone

Each operation touches few tables. A view of the store that is blind to the
tables an operation touches is the same before and after it, whether it succeeds
or fails and wherever it is interrupted.
-/

import ApiVoy.Foundation.Triple
import ApiVoy.LocalStore.Rules

namespace ApiVoy.LocalStore

open Foundation Domain

variable {τ : Type} {view : Store → τ}

/-- The view shows neither the blob index nor the blob files. -/
structure BlobBlind (view : Store → τ) : Prop where
  index : ∀ s blobIndex, view { s with blobIndex } = view s
  files : ∀ s files, view { s with files } = view s

/-! ## Programs that only read -/

namespace Frames

variable (id : String)

theorem getBlob : Frames view (getBlob id) := query _

theorem requireBlob : Frames view (requireBlob id) := by
  refine bind (getBlob id) fun found => ?_
  cases found with
  | none => exact fail _
  | some blob => exact pure blob

theorem readBlob : Frames view (readBlob id) :=
  bind (requireBlob id) fun _ => readFile _

theorem hydrateHttpBody (envelope : RequestEnvelope) (bodyBlobId : Option String) :
    Frames view (hydrateHttpBody envelope bodyBlobId) := by
  cases bodyBlobId with
  | some id => exact bind (readBlob id) fun _ => pure _
  | none =>
    unfold LocalStore.hydrateHttpBody
    cases envelope.payload.body.bind stripMarker with
    | none => exact pure _
    | some id => exact bind (readBlob id) fun _ => pure _

theorem loadRequest (row : RequestRow) : Frames view (loadRequest row) := by
  unfold LocalStore.loadRequest
  cases RequestEnvelope.ofJson row.envelope with
  | none => exact fail _
  | some envelope => exact bind (hydrateHttpBody _ _) fun _ => pure _

theorem loadAll (rows : List RequestRow) : Frames view (loadAll rows) := by
  induction rows with
  | nil => exact pure _
  | cons row rest ih => exact bind (loadRequest row) fun _ => bind ih fun _ => pure _

theorem getRequest : Frames view (getRequest id) := by
  apply bind (query _)
  intro found
  cases found with
  | none => exact pure _
  | some row => exact bind (loadRequest row) fun _ => pure _

theorem listRequests (collectionId : Option String) : Frames view (listRequests collectionId) :=
  bind (query _) fun rows => loadAll rows

theorem loadSnapshot (snapshot : Option Json) : Frames view (loadSnapshot snapshot) := by
  cases snapshot with
  | none => exact pure _
  | some json =>
    cases hread : RequestEnvelope.ofJson json with
    | none =>
      rw [LocalStore.loadSnapshot, hread]
      exact fail _
    | some envelope =>
      rw [LocalStore.loadSnapshot, hread]
      exact bind (hydrateHttpBody _ _) fun _ => pure _

theorem loadExecution (row : ExecutionRow) : Frames view (loadExecution row) := by
  apply bind (loadSnapshot _)
  intro snapshot
  apply bind _ fun _ => pure _
  cases row.responseBlobId with
  | none => exact pure _
  | some id => exact recover (bind (readBlob id) fun _ => pure _) fun _ => pure _

theorem getExecution : Frames view (getExecution id) := by
  apply bind (query _)
  intro found
  cases found with
  | none => exact pure _
  | some row => exact bind (loadExecution row) fun _ => pure _

theorem loadExecutions (rows : List ExecutionRow) : Frames view (loadExecutions rows) := by
  induction rows with
  | nil => exact pure _
  | cons row rest ih => exact bind (loadExecution row) fun _ => bind ih fun _ => pure _

theorem listExecutionsFiltered (limit : Nat) (filter : ExecutionFilter) :
    Frames view (listExecutionsFiltered limit filter) :=
  bind (query _) fun rows => loadExecutions rows

/-! ## Blobs -/

theorem writeBlobFile (hfiles : ∀ s files, view { s with files } = view s) (path : String)
    (data : Bytes) : Frames view (writeBlobFile path data) :=
  bind (fileEffect fun s => hfiles s _) fun _ =>
    bind (fileEffect fun s => hfiles s _) fun _ => fileEffect fun _ => rfl

theorem putBlob (hview : BlobBlind view) (hexSha256 : Bytes → String) (blobId : String)
    (now : Timestamp) (data : Bytes) (contentType : Option String) :
    Frames view (putBlob hexSha256 blobId now data contentType) := by
  have hcleanup (e : StoreError) (path : String) {α : Type} :
      Frames view (do Fallible.ignore (LocalStore.removeFile path); Fallible.fail e : StoreM α) :=
    bind (ignore (removeFile path hview.files)) fun _ => fail e
  refine bind (query _) fun existing => ?_
  cases existing with
  | some existing =>
    exact bind (execute_some (fun _ => rfl) fun s => hview.index s _) fun _ => requireBlob _
  | none =>
    refine bind (fileEffect fun _ => rfl) fun _ => ?_
    refine bind (recover (writeBlobFile hview.files _ _) fun e => hcleanup e _) fun _ => ?_
    refine bind (recover ?_ fun e => hcleanup e _) fun _ => requireBlob _
    refine execute fun s s' n hinsert => ?_
    obtain ⟨-, blobIndex, -, rfl⟩ := Sql.insertBlob_eq_some hinsert
    exact hview.index s blobIndex

theorem removeIfPresent (hfiles : ∀ s files, view { s with files } = view s) (path : String) :
    Frames view (removeIfPresent path) := by
  refine recover (removeFile path hfiles) fun e => ?_
  split
  · exact pure ()
  · exact fail e

theorem releaseBlob (hview : BlobBlind view) (id : String) : Frames view (releaseBlob id) := by
  refine bind (getBlob id) fun found => ?_
  cases found with
  | none => exact pure ()
  | some blob =>
    simp only
    split
    · exact bind (execute_some (fun _ => rfl) fun s => hview.index s _) fun _ => pure ()
    · exact bind (execute_some (fun _ => rfl) fun s => hview.index s _) fun _ =>
        removeIfPresent hview.files _

end Frames

/-! ## Programs that store and release -/

/-- Storing bytes and releasing references keep an invariant. -/
structure KeepsBlobs (hexSha256 : Bytes → String) (I : Store → Prop) : Prop where
  put : ∀ blobId now data contentType, Keeps I (putBlob hexSha256 blobId now data contentType)
  release : ∀ id, Keeps I (releaseBlob id)

theorem BlobBlind.keepsBlobs (hview : BlobBlind view) (hexSha256 : Bytes → String)
    (I : τ → Prop) : KeepsBlobs hexSha256 fun s => I (view s) where
  put blobId now data contentType := (Frames.putBlob hview _ blobId now data contentType).keeps I
  release id := (Frames.releaseBlob hview id).keeps I

/-- The snapshot that goes into a row is that of the request, perhaps with another body. -/
def SnapshotOf (request stored : Option RequestEnvelope) : Prop :=
  stored = request.map RequestEnvelope.sanitizedForPersistence ∨
    ∃ text, stored = request.map fun request => { request.sanitizedForPersistence with
      payload := withBody text request.sanitizedForPersistence.payload }

theorem snapshotOf_externalized (hexSha256 : Bytes → String) (blobId : String) (now : Timestamp)
    (request : Option RequestEnvelope) :
    Fallible.Triple (fun _ => True) (externalizeSnapshot hexSha256 blobId now request)
      (fun stored _ => SnapshotOf request stored.1) fun _ => True := by
  cases request with
  | none => exact .pure _ fun _ _ => Or.inl rfl
  | some request =>
    have hbody : Fallible.Triple (fun _ => True)
        (externalizeHttpBody hexSha256 blobId now request.sanitizedForPersistence)
        (fun stored _ => SnapshotOf (some request) (some stored.1)) fun _ => True := by
      unfold externalizeHttpBody
      cases request.sanitizedForPersistence.payload.body with
      | none => exact .pure _ fun _ _ => Or.inl rfl
      | some body =>
        simp only
        split
        · exact .pure _ fun _ _ => Or.inl rfl
        · exact .bind (.trivial _) fun _ => .pure _ fun _ _ => Or.inr ⟨_, rfl⟩
    exact .bind hbody fun _ => .pure _ fun _ hs => hs

namespace KeepsBlobs

variable {α : Type} {hexSha256 : Bytes → String} {I : Store → Prop}

theorem releaseOptional (h : KeepsBlobs hexSha256 I) (id : Option String) :
    Keeps I (releaseOptional id) := by
  cases id with
  | none => exact .pure ()
  | some id => exact h.release id

theorem releaseEach (h : KeepsBlobs hexSha256 I) (ids : List String) :
    Keeps I (Fallible.each releaseBlob ids) :=
  Keeps.each h.release ids

theorem releaseAndFail (h : KeepsBlobs hexSha256 I) (id : Option String) (e : StoreError) :
    Keeps I (do LocalStore.releaseOptional id; Fallible.fail e : StoreM α) :=
  Keeps.bind (h.releaseOptional id) fun _ => .fail e

theorem externalizeHttpBody (h : KeepsBlobs hexSha256 I) (blobId : String) (now : Timestamp)
    (envelope : RequestEnvelope) :
    Keeps I (externalizeHttpBody hexSha256 blobId now envelope) := by
  unfold LocalStore.externalizeHttpBody
  cases envelope.payload.body with
  | none => exact .pure _
  | some body =>
    simp only
    split
    · exact .pure _
    · exact .bind (h.put _ _ _ _) fun _ => .pure _

/-- Beside its blobs, saving a request writes its row. -/
theorem saveRequest (h : KeepsBlobs hexSha256 I) (projectId collectionId : String)
    (hupsert : ∀ s s' n row, row.projectId = projectId → row.collectionId = collectionId →
      Sql.upsertRequest row s = some (s', n) → I s → I s')
    (blobId : String) (now : Timestamp) (request : RequestEnvelope) :
    Keeps I (saveRequest hexSha256 blobId now request projectId collectionId) := by
  apply Keeps.bind (.query _)
  intro previous
  apply Keeps.bind (h.externalizeHttpBody _ _ _)
  intro externalized
  obtain ⟨envelope, bodyBlobId⟩ := externalized
  simp only
  cases envelope.toJson with
  | none => exact h.releaseAndFail _ _
  | some json =>
    refine .bind (.recover ?_ fun e => h.releaseAndFail _ e) fun _ => ?_
    · apply Keeps.execute
      intro s s' n hs hexecute
      exact hupsert s s' n _ rfl rfl hexecute hs
    · apply Keeps.bind (h.releaseOptional _)
      intro _
      exact .bind (.of_readOnly (.hydrateHttpBody _ _)) fun _ => .pure _

theorem externalizeSnapshot (h : KeepsBlobs hexSha256 I) (blobId : String) (now : Timestamp)
    (snapshot : Option RequestEnvelope) :
    Keeps I (externalizeSnapshot hexSha256 blobId now snapshot) := by
  cases snapshot with
  | none => exact .pure _
  | some request => exact .bind (h.externalizeHttpBody _ _ _) fun _ => .pure _

theorem externalizePreview (h : KeepsBlobs hexSha256 I) (blobId : String) (now : Timestamp)
    (bodyBlobId preview responseBlobId : Option String) :
    Keeps I (externalizePreview hexSha256 blobId now bodyBlobId preview responseBlobId) := by
  unfold LocalStore.externalizePreview
  split
  · split
    · exact .pure _
    · exact .bind (.recover (h.put _ _ _ _) fun e => h.releaseAndFail _ e)
        fun _ => .pure _
  · exact .pure _

/-- Beside its blobs, recording an execution inserts a row with the snapshot of the record. -/
theorem recordExecution (h : KeepsBlobs hexSha256 I) (bodyBlobNew previewBlobNew : String)
    (now : Timestamp) (record : ExecutionRecord)
    (hinsert : ∀ s row executions stored, SnapshotOf record.requestSnapshot stored →
      snapshotJson stored = some row.requestSnapshot → s.executions.insert? row = some executions →
        I s → I { s with executions }) :
    Keeps I (recordExecution hexSha256 bodyBlobNew previewBlobNew now record) := by
  have hkeeps {β : Type} {m : StoreM β} (hm : Keeps I m) :
      Fallible.Triple I m (fun _ => I) I := .of_maintains hm
  apply Fallible.Triple.maintains
  apply Fallible.Triple.bind
  · exact ((hkeeps (h.externalizeSnapshot bodyBlobNew now record.requestSnapshot)).and
      (snapshotOf_externalized _ _ _ _)).weaken (fun _ hs => ⟨hs, trivial⟩) (fun _ _ hs => hs)
      fun _ hs => hs.1
  rintro ⟨snapshot, bodyBlobId⟩
  simp only
  rintro s faults ⟨hs, hsnapshot⟩
  revert s
  cases hjson : snapshotJson snapshot with
  | none => exact fun s hs => hkeeps (h.releaseAndFail _ _) s faults hs
  | some json =>
    refine fun s hs => hkeeps (Keeps.bind (h.externalizePreview _ _ _ _ _) ?_) s faults hs
    rintro ⟨preview, responseBlobId⟩
    refine .bind (.recover ?_ fun e =>
      Keeps.bind (h.releaseOptional _) fun _ => h.releaseAndFail _ e) fun _ => .pure ()
    apply Keeps.execute
    intro s s' n hs hexecute
    obtain ⟨executions, hrow, rfl⟩ := Sql.insertExecution_eq_some hexecute
    exact hinsert s _ executions snapshot hsnapshot hjson hrow hs

theorem recordWithResponse (h : KeepsBlobs hexSha256 I) (responseBlobNew : String)
    (data : Bytes) (contentType : Option String) (bodyBlobNew previewBlobNew : String)
    (now : Timestamp) (record : ExecutionRecord)
    (hinsert : ∀ s row executions stored, SnapshotOf record.requestSnapshot stored →
      snapshotJson stored = some row.requestSnapshot → s.executions.insert? row = some executions →
        I s → I { s with executions }) :
    Keeps I (recordWithResponse hexSha256 responseBlobNew data contentType bodyBlobNew
      previewBlobNew now record) :=
  Keeps.bind (h.put _ _ _ _) fun _ => h.recordExecution _ _ _ _ hinsert

theorem deleteRequest (h : KeepsBlobs hexSha256 I) (id : String)
    (hdrop : ∀ s, I s → I (Sql.dropRequests (fun r => r.id = id) s)) :
    Keeps I (deleteRequest id) := by
  apply Keeps.bind (.query _)
  intro blobId
  apply Keeps.bind (.execute_some (I := I) (fun _ => rfl) hdrop)
  intro changed
  split
  · exact .fail _
  · exact h.releaseOptional _

theorem deleteCollection (h : KeepsBlobs hexSha256 I) (id : String)
    (hdrop : ∀ s, I s → I (Sql.dropCollections (fun c => c.id = id) s)) :
    Keeps I (deleteCollection id) := by
  unfold LocalStore.deleteCollection
  split
  · exact .fail _
  apply Keeps.bind
  · apply Keeps.attempt
    intro s hs
    cases s.subtree id <;> exact hs
  intro blobIds
  apply Keeps.bind (.execute_some (I := I) (fun _ => rfl) hdrop)
  intro changed
  split
  · exact .fail _
  · exact h.releaseEach _

theorem deleteProject (h : KeepsBlobs hexSha256 I) (id : String)
    (hdrop : ∀ s, I s → I (Sql.dropProject id s)) : Keeps I (deleteProject id) := by
  unfold LocalStore.deleteProject
  split
  · exact .fail _
  apply Keeps.bind (.query _)
  intro blobIds
  apply Keeps.bind (.execute_some (I := I) (fun _ => rfl) hdrop)
  intro changed
  split
  · exact .fail _
  · exact h.releaseEach _

theorem deleteWorkspace (h : KeepsBlobs hexSha256 I) (id : String)
    (hdrop : ∀ id s, I s → I (Sql.dropProject id s))
    (hrow : ∀ s workspaces, I s → I { s with workspaces }) : Keeps I (deleteWorkspace id) := by
  unfold LocalStore.deleteWorkspace
  split
  · exact .fail _
  apply Keeps.bind (.query _)
  intro projects
  have hprojects : Keeps I (Fallible.each (fun p : ProjectRow => LocalStore.deleteProject p.id)
      projects) :=
    Keeps.each (fun p : ProjectRow => h.deleteProject p.id (hdrop p.id)) projects
  have hworkspace : Keeps I (execute (Sql.deleteWorkspace id)) := by
    apply Keeps.execute
    intro s s' n hs hdelete
    obtain ⟨rfl, -⟩ := Sql.deleteWorkspace_eq_some hdelete
    exact hrow s _ hs
  exact .bind hprojects fun _ => .bind hworkspace fun _ =>
    Keeps.of_readOnly (.changedOrNotFound _ _)

end KeepsBlobs

/-! ## Views without blobs -/

namespace Frames

theorem releaseOptional (hview : BlobBlind view) (id : Option String) :
    Frames view (releaseOptional id) := by
  cases id with
  | none => exact pure ()
  | some id => exact releaseBlob hview id

theorem externalizeHttpBody (hview : BlobBlind view) (hexSha256 : Bytes → String)
    (blobId : String) (now : Timestamp) (envelope : RequestEnvelope) :
    Frames view (externalizeHttpBody hexSha256 blobId now envelope) :=
  fun shown => (hview.keepsBlobs hexSha256 fun t => t = shown).externalizeHttpBody _ _ _

theorem saveRequest (hview : BlobBlind view)
    (hrequests : ∀ s requests, view { s with requests } = view s) (hexSha256 : Bytes → String)
    (blobId : String) (now : Timestamp) (request : RequestEnvelope)
    (projectId collectionId : String) :
    Frames view (saveRequest hexSha256 blobId now request projectId collectionId) := by
  intro shown
  have hrow (s s' : Store) (n : Nat) (row : RequestRow) (_ : row.projectId = projectId)
      (_ : row.collectionId = collectionId) (hupsert : Sql.upsertRequest row s = some (s', n))
      (hs : view s = shown) : view s' = shown := by
    obtain ⟨-, -, rfl⟩ := Sql.upsertRequest_eq_some hupsert
    exact (hrequests s _).trans hs
  exact (hview.keepsBlobs hexSha256 fun t => t = shown).saveRequest projectId collectionId hrow
    blobId now request

theorem externalizeSnapshot (hview : BlobBlind view) (hexSha256 : Bytes → String)
    (blobId : String) (now : Timestamp) (snapshot : Option RequestEnvelope) :
    Frames view (externalizeSnapshot hexSha256 blobId now snapshot) :=
  fun shown => (hview.keepsBlobs hexSha256 fun t => t = shown).externalizeSnapshot _ _ _

theorem externalizePreview (hview : BlobBlind view) (hexSha256 : Bytes → String)
    (blobId : String) (now : Timestamp) (bodyBlobId preview responseBlobId : Option String) :
    Frames view
      (externalizePreview hexSha256 blobId now bodyBlobId preview responseBlobId) :=
  fun shown => (hview.keepsBlobs hexSha256 fun t => t = shown).externalizePreview _ _ _ _ _

theorem recordExecution (hview : BlobBlind view)
    (hexecutions : ∀ s executions, view { s with executions } = view s)
    (hexSha256 : Bytes → String) (bodyBlobNew previewBlobNew : String) (now : Timestamp)
    (record : ExecutionRecord) :
    Frames view (recordExecution hexSha256 bodyBlobNew previewBlobNew now record) :=
  fun shown => (hview.keepsBlobs hexSha256 fun t => t = shown).recordExecution _ _ _ _
    fun s _ executions _ _ _ _ hs => (hexecutions s executions).trans hs

theorem recordWithResponse (hview : BlobBlind view)
    (hexecutions : ∀ s executions, view { s with executions } = view s)
    (hexSha256 : Bytes → String) (responseBlobNew : String) (data : Bytes)
    (contentType : Option String) (bodyBlobNew previewBlobNew : String) (now : Timestamp)
    (record : ExecutionRecord) :
    Frames view (recordWithResponse hexSha256 responseBlobNew data contentType bodyBlobNew
      previewBlobNew now record) :=
  bind (putBlob hview _ _ _ _ _) fun _ => recordExecution hview hexecutions _ _ _ _ _

end Frames

/-- The operations that store a blob or an execution. -/
def Op.isRecording : Op → Bool
  | .putBlob .. | .recordExecution .. | .recordWithResponse .. => true
  | _ => false

/-- Storing a blob or an execution is invisible to a view without them. -/
theorem Frames.recording (hview : BlobBlind view)
    (hexecutions : ∀ s executions, view { s with executions } = view s)
    (hexSha256 : Bytes → String) (op : Op) (h : op.isRecording = true) :
    Frames view (op.program hexSha256) := by
  cases op with
  | putBlob blobId now data contentType => exact (Frames.putBlob hview _ _ _ _ _).discard
  | recordExecution bodyBlobNew previewBlobNew now record =>
    exact Frames.recordExecution hview hexecutions _ _ _ _ _
  | recordWithResponse responseBlobNew data contentType bodyBlobNew previewBlobNew now record =>
    exact Frames.recordWithResponse hview hexecutions _ _ _ _ _ _ _ _
  | _ => cases h

/-! ## Operations on one table -/

/-- The view shows none of the tables that only their own operations touch. -/
structure LeafBlind (view : Store → τ) : Prop where
  workspaces : ∀ s workspaces, view { s with workspaces } = view s
  environments : ∀ s environments, view { s with environments } = view s
  scripts : ∀ s scripts, view { s with scripts } = view s
  apiDefinitions : ∀ s apiDefinitions, view { s with apiDefinitions } = view s
  bindings : ∀ s bindings, view { s with bindings } = view s

/-- The view shows no scripts, no interface definitions and no bindings. -/
structure ResourceBlind (view : Store → τ) : Prop where
  scripts : ∀ s scripts, view { s with scripts } = view s
  apiDefinitions : ∀ s apiDefinitions, view { s with apiDefinitions } = view s
  bindings : ∀ s bindings, view { s with bindings } = view s

theorem LeafBlind.resources (hview : LeafBlind view) : ResourceBlind view :=
  ⟨hview.scripts, hview.apiDefinitions, hview.bindings⟩

theorem ResourceBlind.dropApiDefinitions (hview : ResourceBlind view)
    (gone : ApiDefinitionRow → Bool) (s : Store) :
    view (Sql.dropApiDefinitions gone s) = view s :=
  calc view (Sql.dropApiDefinitions gone s)
      = view { s with apiDefinitions := s.apiDefinitions.filter fun d => !gone d } :=
        hview.bindings { s with apiDefinitions := s.apiDefinitions.filter fun d => !gone d } _
    _ = view s := hview.apiDefinitions s _

/-- The operations on scripts, interface definitions and bindings. -/
def Op.isResource : Op → Bool
  | .saveScript .. | .deleteScript .. | .saveApiDefinition .. | .deleteApiDefinition ..
  | .bindRequestDefinition .. | .unbindRequestDefinition .. => true
  | _ => false

/-- The operations that touch no table but those. -/
def Op.isLeaf : Op → Bool
  | .saveWorkspace .. | .createWorkspace .. | .renameWorkspace .. | .touchWorkspace ..
  | .archiveWorkspace .. | .saveEnvironment .. | .deleteEnvironment .. | .saveScript ..
  | .deleteScript .. | .saveApiDefinition .. | .deleteApiDefinition ..
  | .bindRequestDefinition .. | .unbindRequestDefinition .. => true
  | _ => false

namespace Frames

theorem saveWorkspace (hview : LeafBlind view) (ws : WorkspaceRow) :
    Frames view (saveWorkspace ws) :=
  bind (execute_some (fun _ => rfl) fun s => hview.workspaces s _) fun _ => pure ()

theorem updateWorkspace (hview : LeafBlind view) (id : String) (f : WorkspaceRow → WorkspaceRow)
    (hf : ∀ row, (f row).id = row.id) :
    Frames view (LocalStore.execute (Sql.updateWorkspace id f hf)) :=
  execute_some (fun _ => rfl) fun s => hview.workspaces s _

/-- An operation on the resources of a project is invisible to a view without
them. -/
theorem resource (hview : ResourceBlind view) (hexSha256 : Bytes → String) (op : Op)
    (h : op.isResource = true) : Frames view (op.program hexSha256) := by
  have hupsert {statement : Store → Option (Store × Nat)}
      (hstatement : ∀ s s' n, statement s = some (s', n) → view s' = view s) :
      Frames view (do let _ ← LocalStore.execute statement; Pure.pure () : StoreM Unit) :=
    bind (execute hstatement) fun _ => pure ()
  cases op with
  | saveScript item =>
    refine hupsert fun s s' n hstatement => ?_
    unfold Sql.upsertScript at hstatement
    split at hstatement
    · cases hstatement
      exact hview.scripts s _
    · cases hstatement
  | deleteScript id =>
    exact bind (execute_some (fun _ => rfl) fun s => hview.scripts s _) fun _ => pure ()
  | saveApiDefinition definition =>
    refine hupsert fun s s' n hstatement => ?_
    unfold Sql.upsertApiDefinition at hstatement
    split at hstatement
    · cases hstatement
      exact hview.apiDefinitions s _
    · cases hstatement
  | deleteApiDefinition id =>
    refine bind (execute_some (fun _ => rfl) fun s => ?_) fun _ => changedOrNotFound _ _
    exact hview.dropApiDefinitions _ s
  | bindRequestDefinition binding =>
    refine hupsert fun s s' n hstatement => ?_
    unfold Sql.upsertBinding at hstatement
    split at hstatement
    · cases hstatement
      exact hview.bindings s _
    · cases hstatement
  | unbindRequestDefinition requestId =>
    exact bind (execute_some (fun _ => rfl) fun s => hview.bindings s _) fun _ => pure ()
  | _ => cases h

/-- An operation on a leaf table is invisible to a view of the others. -/
theorem leaf (hview : LeafBlind view) (hexSha256 : Bytes → String) (op : Op)
    (h : op.isLeaf = true) : Frames view (op.program hexSha256) := by
  have hupsert {statement : Store → Option (Store × Nat)}
      (hstatement : ∀ s s' n, statement s = some (s', n) → view s' = view s) :
      Frames view (do let _ ← LocalStore.execute statement; Pure.pure () : StoreM Unit) :=
    bind (execute hstatement) fun _ => pure ()
  cases op with
  | saveWorkspace ws => exact saveWorkspace hview ws
  | createWorkspace id now name rootPath =>
    refine discard ?_
    simp only [LocalStore.createWorkspace]
    split
    · exact fail _
    · exact bind (saveWorkspace hview _) fun _ => pure _
  | renameWorkspace id now name =>
    simp only [Op.program, LocalStore.renameWorkspace]
    split
    · exact fail _
    · exact bind (updateWorkspace hview _ _ _) fun _ => changedOrNotFound _ _
  | touchWorkspace id now =>
    exact bind (updateWorkspace hview _ _ _) fun _ => changedOrNotFound _ _
  | archiveWorkspace id now archived =>
    simp only [Op.program, LocalStore.archiveWorkspace]
    split
    · exact fail _
    · exact bind (updateWorkspace hview _ _ _) fun _ => changedOrNotFound _ _
  | saveEnvironment env =>
    refine hupsert fun s s' n hstatement => ?_
    unfold Sql.upsertEnvironment at hstatement
    split at hstatement
    · cases hstatement
      exact hview.environments s _
    · cases hstatement
  | deleteEnvironment id =>
    simp only [Op.program, LocalStore.deleteEnvironment]
    split
    · exact fail _
    · exact bind (execute_some (fun _ => rfl) fun s => hview.environments s _) fun _ => pure ()
  | saveScript _ | deleteScript _ | saveApiDefinition _ | deleteApiDefinition _
  | bindRequestDefinition _ | unbindRequestDefinition _ =>
    exact resource hview.resources hexSha256 _ rfl
  | _ => cases h

/-! ## Operations on the tree of projects -/

theorem deleteWorkspaceRow (hworkspaces : ∀ s workspaces, view { s with workspaces } = view s)
    (id : String) : Frames view (LocalStore.execute (Sql.deleteWorkspace id)) := by
  apply execute
  intro s s' n hdelete
  obtain ⟨rfl, -⟩ := Sql.deleteWorkspace_eq_some hdelete
  exact hworkspaces s _

theorem insertModule (hmodules : ∀ s modules, view { s with modules } = view s)
    (row : ModuleRow) : Frames view (LocalStore.execute (Sql.insertModule row)) := by
  apply execute
  intro s s' n hinsert
  obtain ⟨modules, -, rfl, -⟩ := Sql.insertModule_eq_some hinsert
  exact hmodules s modules

theorem createProject (hprojects : ∀ s projects, view { s with projects } = view s)
    (hmodules : ∀ s modules, view { s with modules } = view s) (id : String) (now : Timestamp)
    (workspaceId name : String) : Frames view (createProject id now workspaceId name) := by
  apply bind (query _)
  intro workspace
  cases workspace with
  | none => exact fail _
  | some _ =>
    simp only
    split
    · exact fail _
    · refine bind ?_ fun _ => bind (insertModule hmodules _) fun _ => pure _
      apply execute
      intro s s' n hinsert
      obtain ⟨projects, -, rfl, -⟩ := Sql.insertProject_eq_some hinsert
      exact hprojects s projects

theorem renameProject (hprojects : ∀ s projects, view { s with projects } = view s)
    (id name : String) : Frames view (renameProject id name) := by
  unfold LocalStore.renameProject
  split
  · exact fail _
  · exact bind (execute_some (fun _ => rfl) fun s => hprojects s _) fun _ => changedOrNotFound _ _

theorem createModule (hmodules : ∀ s modules, view { s with modules } = view s) (id : String)
    (now : Timestamp) (projectId name : String) :
    Frames view (createModule id now projectId name) := by
  unfold LocalStore.createModule
  split
  · exact fail _
  · exact bind (insertModule hmodules _) fun _ => pure _

theorem updateCollectionTags (hcollections : ∀ s collections, view { s with collections } = view s)
    (id : String) (tags : List String) : Frames view (updateCollectionTags id tags) :=
  bind (execute_some (fun _ => rfl) fun s => hcollections s _) fun _ => changedOrNotFound _ _

theorem moveRequest (hrequests : ∀ s requests, view { s with requests } = view s)
    (id projectId collectionId : String) (now : Timestamp) :
    Frames view (moveRequest id projectId collectionId now) := by
  apply bind (query _)
  intro collectionProject
  split
  · exact fail _
  · apply bind
    · apply execute
      intro s s' n hmove
      obtain ⟨-, rfl, -⟩ := Sql.moveRequest_eq_some hmove
      exact hrequests s _
    · intro changed
      split
      · exact fail _
      · exact pure _

end Frames

end ApiVoy.LocalStore
