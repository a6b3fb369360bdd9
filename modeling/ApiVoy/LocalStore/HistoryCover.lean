/-
# What is stored of an execution

A recorded execution has its texts in its row or in blobs of their digests, and the
references of the row are the ones that were taken for it. An inline body that starts
like a marker would be a reference that nobody took, so the steps of a run are those
that record no such body; then every step, also one that fails, leaves every row with
its blobs.
-/

import ApiVoy.LocalStore.BlobCover

namespace ApiVoy.LocalStore

open Foundation Domain

variable {α : Type} {hexSha256 : Bytes → String} {s s' : Store} {w w' : Scheduled Store}
  {id sha : String} {extra : List String} {kept : List (String × String)}

/-! ## Digests stay -/

/-- Storing bytes keeps the digest of every blob. -/
theorem keeps_hasDigest_putBlob (hexSha256 : Bytes → String) (blobId : String) (now : Timestamp)
    (data : Bytes) (contentType : Option String) :
    Keeps (Store.HasDigest id sha) (putBlob hexSha256 blobId now data contentType) := by
  have hframes {β : Type} {m : StoreM β} (h : Frames Store.blobIndex m) :
      Keeps (Store.HasDigest id sha) m :=
    h.keeps fun index => (index.find? id).map BlobRow.sha256 = some sha
  have hrequire (blobId : String) : Keeps (Store.HasDigest id sha) (requireBlob blobId) :=
    Keeps.of_readOnly (.requireBlob blobId)
  unfold putBlob
  apply Keeps.bind (.query _)
  intro existing
  cases existing with
  | some existing =>
    apply Keeps.bind _ fun _ => hrequire existing.id
    apply Keeps.execute
    intro s s' n hs hadded
    simp only [Sql.addToRefCount, Option.some.injEq, Prod.mk.injEq] at hadded
    rw [← hadded.1, Store.HasDigest, Table.find?_update]
    split
    · exact (Option.map_map _ _ _).trans hs
    · exact (Option.map_map _ _ _).trans hs
  | none =>
    apply Keeps.bind (hframes (.fileEffect fun _ => rfl))
    intro _
    apply Keeps.bind (hframes (.recover (.writeBlobFile (fun _ _ => rfl) _ _)
      fun e => .bind (.ignore (.removeFile _ fun _ _ => rfl)) fun _ =>
        Frames.fail _))
    intro _
    apply Keeps.bind _ fun _ => hrequire blobId
    apply Keeps.recover
    · apply Keeps.execute
      intro s s' n hs hinserted
      obtain ⟨-, index, hrow, rfl⟩ := Sql.insertBlob_eq_some hinserted
      obtain ⟨blob, hblob, hsha⟩ := Option.map_eq_some_iff.mp hs
      rw [Store.HasDigest, Table.find?_insert_of_some hrow hblob, Option.map_some, hsha]
    · intro e
      exact hframes (.bind (.ignore (.removeFile _ fun _ _ => rfl)) fun _ =>
        Frames.fail _)

/-! ## Payloads with a body -/

variable {payload : ProtocolPayload}

theorem exists_http_of_body {body : String} (h : payload.body = some body) :
    ∃ http, payload = .http http ∧ http.body = some body := by
  cases payload with
  | http http => exact ⟨http, rfl, h⟩
  | _ => cases h

variable {body text : String}

theorem body_withBody_of_some (h : payload.body = some body) :
    (withBody text payload).body = some text := by
  obtain ⟨http, rfl, -⟩ := exists_http_of_body h
  rfl

theorem withBody_withBody (h : payload.body = some body) :
    withBody body (withBody text payload) = payload := by
  obtain ⟨http, rfl, hbody⟩ := exists_http_of_body h
  simp only [withBody, ← hbody]

theorem faithful_withBody (h : payload.body = some body) : (withBody text payload).Faithful := by
  obtain ⟨http, rfl, -⟩ := exists_http_of_body h
  trivial

/-! ## What is stored of a snapshot and of a preview -/

/-- A snapshot whose serialized form, if it has one, determines it. -/
def FaithfulSnapshot (snapshot : Option RequestEnvelope) : Prop :=
  ∀ request, snapshot = some request → request.sanitizedForPersistence.toJson.isSome = true →
    request.sanitizedForPersistence.payload.Faithful

/-- The snapshot that goes into the row, and the blob of its body. -/
def SnapshotStored (hexSha256 : Bytes → String) (snapshot : Option RequestEnvelope)
    (stored : Option RequestEnvelope × Option String) (s : Store) : Prop :=
  match snapshot with
  | none => stored = (none, none)
  | some request => ∃ envelope, stored.1 = some envelope ∧
      Externalized hexSha256 request.sanitizedForPersistence envelope s stored.2

/-- The preview that goes into the row, and the blob of the response. -/
def PreviewStored (hexSha256 : Bytes → String) (preview responseBlobId : Option String)
    (stored : Option String × Option String) (s : Store) : Prop :=
  stored = (preview, responseBlobId) ∨
    (responseBlobId = none ∧ ∃ text id, preview = some text ∧ stored.2 = some id ∧
      s.HasDigest id (hexSha256 (utf8 text)))

/-- A row keeps an execution: its fields, and its texts in it or in blobs. -/
def ExecutionRecord.KeptBy (hexSha256 : Bytes → String) (record : ExecutionRecord)
    (row : ExecutionRow) (s : Store) : Prop :=
  ∃ snapshot json preview, snapshotJson snapshot.1 = some json ∧
    SnapshotStored hexSha256 record.requestSnapshot snapshot s ∧
    PreviewStored hexSha256 record.preview record.responseBlobId preview s ∧
    row = executionRow record json preview.1 preview.2

theorem triple_externalizeSnapshot (hexSha256 : Bytes → String) (blobId : String) (now : Timestamp)
    (snapshot : Option RequestEnvelope) :
    Triple (Store.Backs kept extra) (externalizeSnapshot hexSha256 blobId now snapshot)
      (fun stored s => s.Backs kept (stored.2.toList ++ extra) ∧
        SnapshotStored hexSha256 snapshot stored s)
      (Store.Backs kept extra) := by
  cases snapshot with
  | none => exact .pure _ fun _ hs => ⟨hs, rfl⟩
  | some request =>
    apply Fallible.Triple.bind (triple_externalizeHttpBody hexSha256 blobId now _)
    rintro ⟨envelope, bodyBlobId⟩
    exact .pure _ fun s hs => ⟨hs.1, envelope, rfl, hs.2⟩

variable {stored : Option RequestEnvelope × Option String} {snapshot : Option RequestEnvelope}

variable {json : Option Json}

/-- The snapshot is read back as it was written. -/
theorem SnapshotStored.ofJson_eq (h : SnapshotStored hexSha256 snapshot stored s)
    (hfaithful : FaithfulSnapshot snapshot) (hjson : snapshotJson stored.1 = some json) :
    json.map RequestEnvelope.ofJson = stored.1.map some := by
  obtain ⟨snapshot', bodyBlobId⟩ := stored
  cases snapshot with
  | none =>
    cases h
    cases hjson
    rfl
  | some request =>
    obtain ⟨envelope, rfl, hexternalized⟩ := h
    obtain ⟨written, hwritten, rfl⟩ := Option.map_eq_some_iff.mp hjson
    have hsanitized := RequestEnvelope.withoutSecrets_sanitizedForPersistence request
    have henvelope : envelope.payload.Faithful ∧ envelope.withoutSecrets = envelope := by
      cases bodyBlobId with
      | none =>
        obtain ⟨rfl, -⟩ := hexternalized
        exact ⟨hfaithful request rfl (by rw [hwritten]; rfl), hsanitized⟩
      | some id =>
        obtain ⟨rfl, body, hbody, -⟩ := hexternalized
        refine ⟨faithful_withBody hbody, ?_⟩
        exact congrArg (fun e : RequestEnvelope => { e with
          payload := withBody (blobMarker ++ id) request.sanitizedForPersistence.payload })
          hsanitized
    obtain ⟨json, hjson, hread⟩ := RequestEnvelope.ofJson_toJson henvelope.1
    rw [hwritten] at hjson
    cases hjson
    rw [Option.map_some, Option.map_some, hread, henvelope.2]

/-- The marker of the row is the blob of the body. -/
theorem SnapshotStored.snapshotBlobId_eq (h : SnapshotStored hexSha256 snapshot stored s)
    (hplain : PlainSnapshot snapshot) (hjson : snapshotJson stored.1 = some json) :
    snapshotBlobId json = stored.2 := by
  obtain ⟨snapshot', bodyBlobId⟩ := stored
  cases snapshot with
  | none =>
    cases h
    cases hjson
    rfl
  | some request =>
    obtain ⟨envelope, rfl, hexternalized⟩ := h
    obtain ⟨written, hwritten, rfl⟩ := Option.map_eq_some_iff.mp hjson
    rw [snapshotBlobId, Option.bind_some, RequestEnvelope.body_ofJson hwritten]
    cases bodyBlobId with
    | none =>
      obtain ⟨rfl, hshort⟩ := hexternalized
      simp only [RequestEnvelope.sanitizedForPersistence_payload,
        ProtocolPayload.body_sanitized] at hshort ⊢
      cases hbody : request.payload.body with
      | none => rfl
      | some body => exact hplain request rfl body hbody (hshort body hbody)
    | some id =>
      obtain ⟨rfl, body, hbody, -⟩ := hexternalized
      rw [body_withBody_of_some hbody]
      exact stripMarker_append id

theorem triple_externalizePreview (hexSha256 : Bytes → String) (blobId : String) (now : Timestamp)
    (bodyBlobId preview responseBlobId : Option String) :
    Triple (Store.Backs kept (bodyBlobId.toList ++ (responseBlobId.toList ++ extra)))
      (externalizePreview hexSha256 blobId now bodyBlobId preview responseBlobId)
      (fun stored s => s.Backs kept (stored.2.toList ++ (bodyBlobId.toList ++ extra)) ∧
        PreviewStored hexSha256 preview responseBlobId stored s)
      (Store.Backs kept extra) := by
  have hplain : Triple (Store.Backs kept (bodyBlobId.toList ++ (responseBlobId.toList ++ extra)))
      (pure (preview, responseBlobId))
      (fun stored s => s.Backs kept (stored.2.toList ++ (bodyBlobId.toList ++ extra)) ∧
        PreviewStored hexSha256 preview responseBlobId stored s)
      (Store.Backs kept extra) := by
    apply Fallible.Triple.pure
    intro s hs
    exact ⟨hs.less (List.perm_append_comm_assoc _ _ _).subperm, Or.inl rfl⟩
  cases responseBlobId with
  | some id => exact hplain
  | none =>
    cases preview with
    | none => exact hplain
    | some text =>
      unfold externalizePreview
      simp only
      split
      · exact hplain
      · apply Fallible.Triple.bind
        · apply Fallible.Triple.recover (triple_putBlob hexSha256 blobId now (utf8 text) _)
          exact fun e => triple_releaseAndFail bodyBlobId e
        · intro blob
          apply Fallible.Triple.pure
          exact fun s hs => ⟨hs.1, Or.inr ⟨rfl, text, blob.id, rfl, rfl, hs.2⟩⟩

/-- Storing the preview does not touch what is stored of the snapshot. -/
theorem keeps_externalized {envelope envelope' : RequestEnvelope} {bodyBlobId : Option String}
    {m : StoreM α} (h : ∀ id sha, Keeps (Store.HasDigest id sha) m) :
    Keeps (fun s => Externalized hexSha256 envelope envelope' s bodyBlobId) m := by
  cases bodyBlobId with
  | none => exact fun w hw => hw
  | some id =>
    intro w hw
    obtain ⟨heq, body, hbody, hdigest⟩ := hw
    exact ⟨heq, body, hbody, h id _ w hdigest⟩

theorem triple_snapshotStored (hexSha256 : Bytes → String) (blobId : String) (now : Timestamp)
    (bodyBlobId preview responseBlobId : Option String) (snapshot : Option RequestEnvelope)
    (stored : Option RequestEnvelope × Option String) :
    Triple (SnapshotStored hexSha256 snapshot stored)
      (externalizePreview hexSha256 blobId now bodyBlobId preview responseBlobId)
      (fun _ => SnapshotStored hexSha256 snapshot stored) (fun _ => True) := by
  have hput (data : Bytes) (contentType : Option String) :
      Keeps (SnapshotStored hexSha256 snapshot stored)
        (putBlob hexSha256 blobId now data contentType) := by
    cases snapshot with
    | none => exact fun w hw => hw
    | some request =>
      intro w hw
      obtain ⟨envelope, heq, hexternalized⟩ := hw
      exact ⟨envelope, heq, keeps_externalized
        (fun id sha => keeps_hasDigest_putBlob hexSha256 blobId now data contentType) w
        hexternalized⟩
  have hplain : Triple (SnapshotStored hexSha256 snapshot stored)
      (pure (preview, responseBlobId) : StoreM (Option String × Option String))
      (fun _ => SnapshotStored hexSha256 snapshot stored) (fun _ => True) :=
    Fallible.Triple.pure _ fun _ hs => hs
  cases responseBlobId with
  | some id => exact hplain
  | none =>
    cases preview with
    | none => exact hplain
    | some text =>
      unfold externalizePreview
      simp only
      split
      · exact hplain
      · apply Fallible.Triple.bind
        · apply Fallible.Triple.recover (triple_keeps (hput (utf8 text) _))
          intro e
          apply Fallible.Triple.bind (Q := fun _ _ => True)
          · exact (triple_keeps (fun _ _ => trivial)).weaken (fun _ _ => trivial)
              (fun _ _ hs => hs) fun _ _ => trivial
          · exact fun _ => .fail _ fun _ _ => trivial
        · exact fun _ => .pure _ fun _ hs => hs

/-! ## Recording -/

/-- A recorded row holds the references that were taken for it. -/
theorem Store.Backs.insertExecution {row : ExecutionRow} {n : Nat}
    (h : s.Backs kept (row.references ++ extra))
    (hreadable : ∀ json, row.requestSnapshot = some json →
      (RequestEnvelope.ofJson json).isSome = true)
    (hinserted : Sql.insertExecution row s = some (s', n)) : s'.Backs kept extra := by
  obtain ⟨executions, hrow, rfl⟩ := Sql.insertExecution_eq_some hinserted
  have hrows : executions.rows = s.executions.rows ++ [row] :=
    (Table.insert?_eq_some_iff.mp hrow).2
  constructor
  · have hreferences : Store.references { s with executions } = s.references ++ row.references := by
      simp only [Store.references, hrows, List.flatMap_append, List.flatMap_singleton,
        List.append_assoc]
    apply h.covers.subperm
    apply List.Perm.subperm
    rw [hreferences, ← List.append_assoc, List.append_assoc row.references]
    exact List.perm_append_comm
  · intro id sha hid
    have hmem := h.referred id sha hid
    simp only [Store.executionReferences, hrows, List.flatMap_append, List.mem_append]
    exact Or.inl hmem
  · intro row' hrow' json hjson
    rw [hrows, List.mem_append, List.mem_singleton] at hrow'
    rcases hrow' with hold | rfl
    · exact h.readable row' hold json hjson
    · exact hreadable json hjson

/-- Both references are given up and the error is passed on. -/
theorem triple_releaseBothAndFail (bodyBlobId responseBlobId : Option String) (e : StoreError)
    {Q : α → Store → Prop} :
    Triple (Store.Backs kept (responseBlobId.toList ++ (bodyBlobId.toList ++ [])))
      (do releaseOptional bodyBlobId; releaseOptional responseBlobId; Fallible.fail e : StoreM α) Q
      (Store.Backs kept []) := by
  apply Fallible.Triple.bind (Q := fun _ => Store.Backs kept (responseBlobId.toList ++ []))
  · apply (triple_releaseOptional bodyBlobId).weaken _ (fun _ _ hs => hs) fun _ hs => hs.bare
    exact fun s hs => hs.less (List.perm_append_comm_assoc _ _ _).subperm
  · exact fun _ => triple_releaseAndFail responseBlobId e

/-- What is recorded is kept by its row, with a blob for each of its references;
whatever fails, no reference is given up twice. -/
theorem triple_recordExecution (hexSha256 : Bytes → String) (bodyBlobNew previewBlobNew : String)
    (now : Timestamp) (record : ExecutionRecord) (hplain : PlainSnapshot record.requestSnapshot)
    (hfaithful : FaithfulSnapshot record.requestSnapshot) :
    Triple (Store.Backs kept (record.responseBlobId.toList ++ []))
      (recordExecution hexSha256 bodyBlobNew previewBlobNew now record)
      (fun _ s => s.Backs kept [] ∧
        ∃ row, s.executions.find? record.id = some row ∧ record.KeptBy hexSha256 row s)
      (Store.Backs kept []) := by
  apply Fallible.Triple.bind
  · exact (triple_externalizeSnapshot hexSha256 bodyBlobNew now record.requestSnapshot).weaken
      (fun _ hs => hs) (fun _ _ hs => hs) fun _ hs => hs.bare
  · intro snapshot
    simp only
    cases hjson : snapshotJson snapshot.1 with
    | none =>
      exact (triple_releaseAndFail snapshot.2 _).weaken (fun _ hs => hs.1) (fun _ _ hs => hs)
        fun _ hs => hs.bare
    | some json =>
      apply Fallible.Triple.bind
      · exact ((triple_externalizePreview hexSha256 previewBlobNew now snapshot.2 record.preview
          record.responseBlobId).and (triple_snapshotStored hexSha256 previewBlobNew now
            snapshot.2 record.preview record.responseBlobId record.requestSnapshot
            snapshot)).weaken (fun _ hs => hs) (fun _ _ hs => hs) fun _ hs => hs.1
      · intro preview
        apply Fallible.Triple.bind (Q := fun _ s => s.Backs kept [] ∧
          ∃ row, s.executions.find? record.id = some row ∧ record.KeptBy hexSha256 row s) _
          fun _ => .pure _ fun _ hs => hs
        apply Fallible.Triple.recover _ fun e => triple_releaseBothAndFail snapshot.2 preview.2 e
        apply triple_execute (fun s hs => hs.1.1)
        rintro s s' n ⟨⟨hbacks, hpreview⟩, hsnapshot⟩ hinserted
        have hreferences : (executionRow record json preview.1 preview.2).references =
            snapshot.2.toList ++ preview.2.toList := by
          rw [ExecutionRow.references, executionRow, hsnapshot.snapshotBlobId_eq hplain hjson]
        have hreadable : ∀ json', (executionRow record json preview.1 preview.2).requestSnapshot =
            some json' → (RequestEnvelope.ofJson json').isSome = true := by
          intro json' hsome
          have hread := hsnapshot.ofJson_eq hfaithful hjson
          rw [show json = some json' from hsome] at hread
          cases hstored : snapshot.1 with
          | none =>
            rw [hstored] at hread
            cases hread
          | some envelope =>
            rw [hstored] at hread
            rw [Option.some.inj hread]
            rfl
        constructor
        · apply Store.Backs.insertExecution _ hreadable hinserted
          rw [hreferences, List.append_nil]
          apply hbacks.less
          rw [List.append_nil]
          exact List.perm_append_comm.subperm
        · obtain ⟨executions, hrow, rfl⟩ := Sql.insertExecution_eq_some hinserted
          exact ⟨_, (Table.find?_insert hrow record.id).trans (if_pos rfl),
            snapshot, json, preview, hjson, hsnapshot, hpreview, rfl⟩

/-- The same with a response that is stored for it. -/
theorem triple_recordWithResponse (hexSha256 : Bytes → String) (responseBlobNew : String)
    (data : Bytes) (contentType : Option String) (bodyBlobNew previewBlobNew : String)
    (now : Timestamp) (record : ExecutionRecord) (hplain : PlainSnapshot record.requestSnapshot)
    (hfaithful : FaithfulSnapshot record.requestSnapshot) :
    Triple (Store.Backs kept [])
      (recordWithResponse hexSha256 responseBlobNew data contentType bodyBlobNew previewBlobNew now
        record)
      (fun _ s => s.Backs kept [] ∧ ∃ id row, s.executions.find? record.id = some row ∧
        ExecutionRecord.KeptBy hexSha256 { record with responseBlobId := some id } row s)
      (Store.Backs kept []) := by
  apply Fallible.Triple.bind (triple_putBlob hexSha256 responseBlobNew now data contentType)
  intro blob
  apply (triple_recordExecution hexSha256 bodyBlobNew previewBlobNew now
    { record with responseBlobId := some blob.id } hplain hfaithful).weaken
  · exact fun s hs => hs.1
  · exact fun _ s hs => ⟨hs.1, blob.id, hs.2⟩
  · exact fun s hs => hs

/-! ## Steps -/

/-- The steps whose snapshots read back: no short body starts like a marker, the
serialized form determines the request, and a response that is handed in was stored for
this record. -/
def Op.KeepsHistory : Op → Prop
  | .recordExecution _ _ _ record => record.responseBlobId = none ∧
      PlainSnapshot record.requestSnapshot ∧ FaithfulSnapshot record.requestSnapshot
  | .recordWithResponse _ _ _ _ _ _ record =>
    PlainSnapshot record.requestSnapshot ∧ FaithfulSnapshot record.requestSnapshot
  | _ => True

/-- Such a step leaves every row with its blobs and every kept digest, whether it
succeeds or fails. -/
theorem triple_program (hexSha256 : Bytes → String) {op : Op} (hop : op.KeepsHistory) :
    Triple (fun s => s.Backs kept [] ∧ s.HasTree) (op.program hexSha256)
      (fun _ => Store.Backs kept []) (Store.Backs kept []) := by
  have hkeeps (h : Keeps (Store.Backs kept []) (op.program hexSha256)) :
      Triple (fun s => s.Backs kept [] ∧ s.HasTree) (op.program hexSha256)
        (fun _ => Store.Backs kept []) (Store.Backs kept []) :=
    (triple_keeps h).weaken (fun _ hs => hs.1) (fun _ _ hs => hs) fun _ hs => hs
  by_cases harranging : op.isArranging = true
  · exact hkeeps (Frames.keeps_backs (Frames.arranging countedView_forestBlind hexSha256 op
      harranging))
  cases op with
  | deleteWorkspace id => exact hkeeps (backs_deleteWorkspace id)
  | deleteProject id => exact hkeeps (backs_deleteProject id)
  | deleteCollection id => exact backs_deleteCollection id
  | saveRequest blobId now request projectId collectionId =>
    exact hkeeps (backs_saveRequest hexSha256 blobId now request projectId collectionId).discard
  | deleteRequest id => exact hkeeps (backs_deleteRequest id)
  | moveRequest id projectId collectionId now =>
    exact hkeeps (backs_moveRequest id projectId collectionId now)
  | putBlob blobId now data contentType =>
    apply hkeeps
    apply Keeps.discard
    apply Fallible.Triple.maintains
    exact (triple_putBlob hexSha256 blobId now data contentType).weaken (fun _ hs => hs)
      (fun _ _ hs => hs.1.bare) fun _ hs => hs
  | recordExecution bodyBlobNew previewBlobNew now record =>
    apply (triple_recordExecution hexSha256 bodyBlobNew previewBlobNew now record hop.2.1
      hop.2.2).weaken
    · intro s hs
      rw [hop.1]
      exact hs.1
    · exact fun _ _ hs => hs.1
    · exact fun _ hs => hs
  | recordWithResponse responseBlobNew data contentType bodyBlobNew previewBlobNew now record =>
    exact (triple_recordWithResponse hexSha256 responseBlobNew data contentType bodyBlobNew
      previewBlobNew now record hop.1 hop.2).weaken (fun _ hs => hs.1) (fun _ _ hs => hs.1)
      fun _ hs => hs
  | _ => exact (harranging rfl).elim

/-- The same for the state such a step leaves. -/
theorem backs_program (hexSha256 : Bytes → String) {op : Op} (hop : op.KeepsHistory)
    (hbacks : s.Backs kept []) (htree : s.HasTree) (faults : List Bool) :
    ((op.program hexSha256).run ⟨s, faults⟩).2.state.Backs kept [] := by
  have hrun := triple_program hexSha256 hop s faults ⟨hbacks, htree⟩
  rcases hdone : (op.program hexSha256).run ⟨s, faults⟩ with ⟨e | u, w⟩
  · rw [hdone] at hrun
    exact hrun
  · rw [hdone] at hrun
    exact hrun

/-- The snapshot that a step records. -/
def Op.recorded : Op → Option RequestEnvelope
  | .recordExecution _ _ _ record | .recordWithResponse _ _ _ _ _ _ record =>
    record.requestSnapshot
  | _ => none

/-- A step does no more to the executions than to insert a row with the snapshot that it
records. -/
theorem keeps_executions (hexSha256 : Bytes → String) (I : Table ExecutionRow → Prop) (op : Op)
    (hinsert : ∀ (t : Table ExecutionRow) row t' stored, SnapshotOf op.recorded stored →
      snapshotJson stored = some row.requestSnapshot → t.insert? row = some t' → I t → I t') :
    Keeps (fun s => I s.executions) (op.program hexSha256) := by
  have hblobs : KeepsBlobs hexSha256 fun s => I s.executions :=
    BlobBlind.keepsBlobs ⟨fun _ _ => rfl, fun _ _ => rfl⟩ hexSha256 I
  have hframes (h : Frames Store.executions (op.program hexSha256)) :
      Keeps (fun s => I s.executions) (op.program hexSha256) := h.keeps I
  cases op with
  | deleteWorkspace id => exact hblobs.deleteWorkspace id (fun _ _ hs => hs) fun _ _ hs => hs
  | deleteProject id => exact hblobs.deleteProject id fun _ hs => hs
  | deleteCollection id => exact hblobs.deleteCollection id fun _ hs => hs
  | saveRequest blobId now request projectId collectionId =>
    apply Keeps.discard
    apply hblobs.saveRequest projectId collectionId
    intro s s' n row _ _ hupsert hs
    obtain ⟨-, -, rfl⟩ := Sql.upsertRequest_eq_some hupsert
    exact hs
  | deleteRequest id => exact hblobs.deleteRequest id fun _ hs => hs
  | moveRequest id projectId collectionId now =>
    exact hframes (.moveRequest (fun _ _ => rfl) _ _ _ _)
  | putBlob blobId now data contentType => exact (hblobs.put _ _ _ _).discard
  | recordExecution bodyBlobNew previewBlobNew now record =>
    exact hblobs.recordExecution _ _ _ _ fun (s : Store) => hinsert s.executions
  | recordWithResponse responseBlobNew data contentType bodyBlobNew previewBlobNew now record =>
    exact hblobs.recordWithResponse _ _ _ _ _ _ _ fun (s : Store) => hinsert s.executions
  | _ =>
    exact hframes (.arranging ⟨⟨fun _ _ => rfl, fun _ _ => rfl, fun _ _ => rfl,
      fun _ _ => rfl, fun _ _ => rfl⟩, fun _ _ => rfl, fun _ _ => rfl, fun _ _ => rfl⟩
      hexSha256 _ rfl)

/-- A recorded row stays, whatever the later steps do. -/
theorem keeps_execution (hexSha256 : Bytes → String) (row : ExecutionRow) (op : Op) :
    Keeps (fun s => s.executions.find? id = some row) (op.program hexSha256) :=
  keeps_executions hexSha256 (fun executions => executions.find? id = some row) op
    fun _ _ _ _ _ _ hnew hs => Table.find?_insert_of_some hnew hs

end ApiVoy.LocalStore
